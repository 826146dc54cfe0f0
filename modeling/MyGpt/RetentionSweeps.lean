import MyGpt.Characters
import MyGpt.Lib.Windows
import Mathlib.Algebra.Order.Ring.Int
import Mathlib.Data.List.Nodup
/-!
# RetentionSweeps — the two sweeps that filter their batch in memory

`prune_rag_traces` and `reap_expired`.  The query cuts a window of candidates; which of them are eligible is decided on the
rows that it has returned.  What a sweep has stripped stays a candidate, and what has not expired is one from the start: both
fill the window, and behind them nothing is ever handled.
-/
namespace MyGpt
namespace Retention

open Chat (Text)
open Windows (Window Times)

/-! ## traces -/

inductive Role
  | user | assistant | system | tool
  deriving DecidableEq

/-- A row of `messages`, with the keys of its `metadata` and their values. -/
structure Message where
  id : Nat
  role : Role
  createdAt : Int
  metadata : Option (List (Text × Text))
  deriving DecidableEq

structure Messages where
  rows : List Message
  nodup : (rows.map (·.id)).Nodup

def ragTrace : Text := "rag_trace".toList

def Message.traced (m : Message) : Bool := (m.metadata.getD []).any (fun entry => entry.1 = ragTrace)

/-- The `rag_trace` is taken out, nothing else. -/
def Message.strip (m : Message) : Message :=
  if m.traced then { m with metadata := some ((m.metadata.getD []).filter (fun entry => entry.1 ≠ ragTrace)) } else m

def cutoff (now keepDays : Int) : Int := now - keepDays * 86400

def Message.old (cut : Int) (m : Message) : Bool := m.role = .assistant && m.createdAt < cut

def Message.prunable (now keepDays : Int) (m : Message) : Bool := 0 < keepDays && m.old (cutoff now keepDays) && m.traced

@[simp] theorem Message.strip_id (m : Message) : m.strip.id = m.id := by
  unfold Message.strip
  split <;> rfl

@[simp] theorem Message.strip_createdAt (m : Message) : m.strip.createdAt = m.createdAt := by
  unfold Message.strip
  split <;> rfl

@[simp] theorem Message.strip_old (cut : Int) (m : Message) : m.strip.old cut = m.old cut := by
  unfold Message.strip
  split <;> rfl

@[simp] theorem Message.strip_traced (m : Message) : m.strip.traced = false := by
  unfold Message.strip
  split
  · simp [Message.traced]
  next hnot => simpa using hnot

def Messages.prune (db : Messages) (win : List Message) : Messages where
  rows := db.rows.map (fun m => if m ∈ win then m.strip else m)
  nodup := by
    have hids : (db.rows.map (fun m => if m ∈ win then m.strip else m)).map (·.id) = db.rows.map (·.id) := by
      rw [List.map_map]
      apply List.map_congr_left
      intro m _
      by_cases hm : m ∈ win <;> simp [hm]
    rw [hids]
    exact db.nodup

/-- `prune_rag_traces`. -/
def Prunes (now keepDays : Int) (batch : Nat) (db db' : Messages) : Prop :=
  if keepDays ≤ 0 then db' = db
  else ∃ win, Window Message.createdAt batch (db.rows.filter (Message.old (cutoff now keepDays))) win ∧ db' = db.prune win

/-! ## artifacts -/

/-- A row of `artifacts`. -/
structure Artifact where
  id : Nat
  storageKey : Text
  expiresAt : Option Int
  deriving DecidableEq

structure Artifacts where
  rows : List Artifact
  files : List Text
  nodup : (rows.map (·.id)).Nodup

def Artifact.isExpired (now : Int) (a : Artifact) : Bool := a.expiresAt.any (· ≤ now)

def Artifacts.reap (db : Artifacts) (now : Int) (win : List Artifact) (failed : List Text) : Artifacts where
  rows := db.rows.filter (fun a => !(win.contains a && a.isExpired now))
  files := db.files.filter (fun file => !(win.any (fun a => a.isExpired now && a.storageKey = file)) || failed.contains file)
  nodup := (List.filter_sublist.map _).nodup db.nodup

/-- `reap_expired`. -/
def Reaps (now : Int) (batchSize : Nat) (db db' : Artifacts) : Prop :=
  ∃ win failed, Window (fun _ => 0) batchSize (db.rows.filter (fun a => a.expiresAt.isSome)) win ∧ db' = db.reap now win failed

/-! ## what is asked for -/

/-- **Stripping traces makes progress**: only eligible rows are touched, one is handled if there is one, and after finitely
many sweeps there is none. -/
structure PruneProgress (now keepDays : Int) (batch : Nat) (db : Messages) : Prop where
  touches : ∀ db', Prunes now keepDays batch db db' → db'.rows.length = db.rows.length ∧
    ∀ (i : Nat) m, db.rows[i]? = some m →
      db'.rows[i]? = some m ∨ m.prunable now keepDays = true ∧ db'.rows[i]? = some m.strip
  handles : (∃ m ∈ db.rows, m.prunable now keepDays = true) → ∀ db', Prunes now keepDays batch db db' →
    ∃ (i : Nat) (m : Message), db.rows[i]? = some m ∧ m.prunable now keepDays = true ∧ db'.rows[i]? = some m.strip
  finishes : ∃ k, ∀ db', Times (Prunes now keepDays batch) k db db' → ∀ m ∈ db'.rows, m.prunable now keepDays = false

/-- **Reaping makes progress.** -/
structure ReapProgress (now : Int) (batchSize : Nat) (db : Artifacts) : Prop where
  touches : ∀ db', Reaps now batchSize db db' → (∀ a ∈ db'.rows, a ∈ db.rows) ∧
    (∀ a ∈ db.rows, a ∈ db'.rows ∨ a.isExpired now = true) ∧
      ∀ file ∈ db.files, file ∈ db'.files ∨ ∃ a ∈ db.rows, a.isExpired now = true ∧ a.storageKey = file
  handles : (∃ a ∈ db.rows, a.isExpired now = true) → ∀ db', Reaps now batchSize db db' →
    ∃ a ∈ db.rows, a.isExpired now = true ∧ a ∉ db'.rows
  finishes : ∃ k, ∀ db', Times (Reaps now batchSize) k db db' → ∀ a ∈ db'.rows, a.isExpired now = false

def PruneFits (now keepDays : Int) (batch : Nat) (db : Messages) : Prop :=
  ∀ m ∈ db.rows, m.prunable now keepDays = true →
    db.rows.countP (fun other => other.old (cutoff now keepDays) && decide (other.createdAt ≤ m.createdAt)) ≤ batch

def ReapFits (now : Int) (batchSize : Nat) (db : Artifacts) : Prop :=
  (∀ a ∈ db.rows, a.isExpired now = false) ∨
    db.rows.countP (fun a => a.expiresAt.isSome && !a.isExpired now) < batchSize

/-! ## stripping -/

section prune

variable {now keepDays : Int} {batch : Nat} {db db' : Messages}

theorem Messages.prune_get (db : Messages) (win : List Message) {i : Nat} {m : Message} (h : db.rows[i]? = some m) :
    (db.prune win).rows[i]? = some (if m ∈ win then m.strip else m) := by
  simp [Messages.prune, h]

theorem prunable_iff {m : Message} : m.prunable now keepDays = true ↔
    0 < keepDays ∧ m.old (cutoff now keepDays) = true ∧ m.traced = true := by
  simp [Message.prunable, and_assoc]

theorem prune_touches (h : Prunes now keepDays batch db db') : db'.rows.length = db.rows.length ∧
    ∀ (i : Nat) m, db.rows[i]? = some m →
      db'.rows[i]? = some m ∨ m.prunable now keepDays = true ∧ db'.rows[i]? = some m.strip := by
  unfold Prunes at h
  split at h
  · subst h
    exact ⟨rfl, fun i m hm => .inl hm⟩
  next hkeep =>
    obtain ⟨win, hwin, rfl⟩ := h
    refine ⟨by simp [Messages.prune], ?_⟩
    intro i m hm
    rw [db.prune_get win hm]
    by_cases hin : m ∈ win
    · rw [if_pos hin]
      have hold := (List.mem_filter.1 (hwin.mem hin)).2
      cases htraced : m.traced with
      | true => exact .inr ⟨prunable_iff.2 ⟨by omega, hold, htraced⟩, rfl⟩
      | false => exact .inl (by simp [Message.strip, htraced])
    · rw [if_neg hin]
      exact .inl rfl

theorem prune_handles (hfits : PruneFits now keepDays batch db) (h : Prunes now keepDays batch db db') {i : Nat} {m : Message}
    (hm : db.rows[i]? = some m) (hprunable : m.prunable now keepDays = true) : db'.rows[i]? = some m.strip := by
  obtain ⟨hkeep, hold, htraced⟩ := prunable_iff.1 hprunable
  unfold Prunes at h
  rw [if_neg (by omega)] at h
  obtain ⟨win, hwin, rfl⟩ := h
  have hin := List.mem_of_getElem? hm
  have hcount := hfits m hin hprunable
  have hcandidate : m ∈ win := by
    apply hwin.mem_of_count (List.mem_filter.2 ⟨hin, hold⟩)
    rw [List.countP_filter]
    simpa [Bool.and_comm] using hcount
  rw [db.prune_get win hm, if_pos hcandidate]

theorem prune_stuck {m : Message} (hprunable : m.prunable now keepDays = true) (hin : m ∈ db.rows)
    (hcount : batch < db.rows.countP (fun other => other.old (cutoff now keepDays) && decide (other.createdAt ≤ m.createdAt))) :
    ∃ db', Prunes now keepDays batch db db' ∧ m ∈ db'.rows ∧
      batch < db'.rows.countP (fun other => other.old (cutoff now keepDays) && decide (other.createdAt ≤ m.createdAt)) := by
  obtain ⟨hkeep, -, -⟩ := prunable_iff.1 hprunable
  obtain ⟨win, hwin, hlast⟩ := Windows.exists_window_last Message.createdAt batch
    (db.rows.filter (Message.old (cutoff now keepDays))) (fun other => decide (other = m))
  have hnodup : db.rows.Nodup := List.Nodup.of_map _ db.nodup
  -- the message itself is one of those that are counted
  have hout : m ∉ win := by
    intro hmem
    have hfew := hlast m hmem (by simp)
    rw [List.countP_filter] at hfew
    have hsplit := List.countP_eq_countP_filter_add db.rows
      (fun other => other.old (cutoff now keepDays) && decide (other.createdAt ≤ m.createdAt)) (fun other => decide (other = m))
    have hself : (db.rows.filter (fun other => decide (other = m))).countP
        (fun other => other.old (cutoff now keepDays) && decide (other.createdAt ≤ m.createdAt)) ≤ 1 := by
      refine Nat.le_trans List.countP_le_length ?_
      have hone : db.rows.count m ≤ 1 := List.nodup_iff_count_le_one.1 hnodup m
      rw [List.count, List.countP_eq_length_filter] at hone
      exact hone
    have hothers : (db.rows.filter (fun other => !decide (other = m))).countP
        (fun other => other.old (cutoff now keepDays) && decide (other.createdAt ≤ m.createdAt)) =
        db.rows.countP (fun other => (!decide (other = m) && decide (other.createdAt ≤ m.createdAt)) &&
          other.old (cutoff now keepDays)) := by
      rw [List.countP_filter]
      apply List.countP_congr
      intro other _
      simp
      tauto
    omega
  refine ⟨db.prune win, ?_, ?_, ?_⟩
  · unfold Prunes
    rw [if_neg (by omega)]
    exact ⟨win, hwin, rfl⟩
  · refine List.mem_map.2 ⟨m, hin, ?_⟩
    rw [if_neg hout]
  · have hsame : (db.prune win).rows.countP
        (fun other => other.old (cutoff now keepDays) && decide (other.createdAt ≤ m.createdAt)) =
        db.rows.countP (fun other => other.old (cutoff now keepDays) && decide (other.createdAt ≤ m.createdAt)) := by
      unfold Messages.prune
      rw [List.countP_map]
      apply List.countP_congr
      intro other _
      by_cases hother : other ∈ win <;> simp [hother]
    rwa [hsame]

/-- **Stripping** makes progress exactly when every eligible message is within the batch. -/
theorem prune_progress_iff (now keepDays : Int) (batch : Nat) (db : Messages) :
    PruneProgress now keepDays batch db ↔ PruneFits now keepDays batch db := by
  constructor
  · rintro ⟨-, -, k, hfinishes⟩ m hin hprunable
    by_contra hlong
    obtain ⟨db', htimes, hstays, -⟩ := Windows.times_stuck (Prunes now keepDays batch)
      (P := fun s => m ∈ s.rows ∧
        batch < s.rows.countP (fun other => other.old (cutoff now keepDays) && decide (other.createdAt ≤ m.createdAt)))
      (fun s hs => prune_stuck hprunable hs.1 hs.2) k ⟨hin, by omega⟩
    rw [hfinishes db' htimes m hstays] at hprunable
    cases hprunable
  · intro hfits
    refine ⟨fun db' h => prune_touches h, ?_, 1, ?_⟩
    · rintro ⟨m, hin, hprunable⟩ db' h
      obtain ⟨i, hi⟩ := List.mem_iff_getElem?.1 hin
      exact ⟨i, m, hi, hprunable, prune_handles hfits h hi hprunable⟩
    · rintro db' ⟨_, h, rfl⟩ m' hin'
      obtain ⟨i, hi'⟩ := List.mem_iff_getElem?.1 hin'
      obtain ⟨hlength, htouches⟩ := prune_touches h
      have hi : i < db.rows.length := hlength ▸ (List.getElem?_eq_some_iff.1 hi').1
      have hm := List.getElem?_eq_getElem hi
      by_contra hleft
      rw [Bool.not_eq_false] at hleft
      rcases htouches i _ hm with hsame | ⟨-, hstripped⟩
      · cases hsame.symm.trans hi'
        have hstripped := prune_handles hfits h hm hleft
        rw [hi', Option.some.injEq] at hstripped
        have htraced := (prunable_iff.1 hleft).2.2
        rw [hstripped, Message.strip_traced] at htraced
        cases htraced
      · cases hstripped.symm.trans hi'
        have htraced := (prunable_iff.1 hleft).2.2
        rw [Message.strip_traced] at htraced
        cases htraced

end prune

/-! ## reaping -/

section reap

variable {now : Int} {batchSize : Nat} {db db' : Artifacts}

theorem isExpired_isSome {a : Artifact} (h : a.isExpired now = true) : a.expiresAt.isSome = true := by
  unfold Artifact.isExpired at h
  cases hexpires : a.expiresAt with
  | none => simp [hexpires] at h
  | some t => rfl

theorem reap_touches (h : Reaps now batchSize db db') : (∀ a ∈ db'.rows, a ∈ db.rows) ∧
    (∀ a ∈ db.rows, a ∈ db'.rows ∨ a.isExpired now = true) ∧
      ∀ file ∈ db.files, file ∈ db'.files ∨ ∃ a ∈ db.rows, a.isExpired now = true ∧ a.storageKey = file := by
  obtain ⟨win, failed, hwin, rfl⟩ := h
  refine ⟨fun a ha => (List.mem_filter.1 ha).1, ?_, ?_⟩
  · intro a ha
    by_cases hexpired : a.isExpired now = true
    · exact .inr hexpired
    · exact .inl (List.mem_filter.2 ⟨ha, by simp [hexpired]⟩)
  · intro file hfile
    by_cases hkey : ∃ a ∈ win, a.isExpired now = true ∧ a.storageKey = file
    · obtain ⟨a, ha, hexpired, hkey⟩ := hkey
      exact .inr ⟨a, (List.mem_filter.1 (hwin.mem ha)).1, hexpired, hkey⟩
    · refine .inl (List.mem_filter.2 ⟨hfile, ?_⟩)
      have hnone : win.any (fun a => a.isExpired now && a.storageKey = file) = false := by
        rw [List.any_eq_false]
        intro a ha hboth
        simp only [Bool.and_eq_true, decide_eq_true_eq] at hboth
        exact hkey ⟨a, ha, hboth⟩
      simp [hnone]

theorem reap_handles (hfits : ReapFits now batchSize db) (hleft : ∃ a ∈ db.rows, a.isExpired now = true)
    (h : Reaps now batchSize db db') : ∃ a ∈ db.rows, a.isExpired now = true ∧ a ∉ db'.rows := by
  obtain ⟨a, ha, hexpired⟩ := hleft
  obtain ⟨win, failed, hwin, rfl⟩ := h
  have hcount : db.rows.countP (fun a => a.expiresAt.isSome && !a.isExpired now) < batchSize := by
    refine hfits.resolve_left (fun hnone => ?_)
    rw [hnone a ha] at hexpired
    cases hexpired
  obtain ⟨b, hb, hgone⟩ := hwin.exists_of_count (p := fun a => a.isExpired now)
    (List.mem_filter.2 ⟨ha, isExpired_isSome hexpired⟩) hexpired (by
      rw [List.countP_filter]
      simpa [Bool.and_comm] using hcount)
  refine ⟨b, (List.mem_filter.1 (hwin.mem hb)).1, hgone, ?_⟩
  intro hstays
  have hkept := (List.mem_filter.1 hstays).2
  simp [hb, hgone] at hkept

theorem reap_less (hfits : ReapFits now batchSize db) (h : Reaps now batchSize db db') :
    ReapFits now batchSize db' ∧
      db'.rows.countP (fun a => a.isExpired now) ≤ db.rows.countP (fun a => a.isExpired now) - 1 := by
  have hsublist : db'.rows.Sublist db.rows := by
    obtain ⟨win, failed, -, rfl⟩ := h
    exact List.filter_sublist
  constructor
  · rcases hfits with hnone | hcount
    · exact .inl (fun a ha => hnone a (hsublist.subset ha))
    · exact .inr (Nat.lt_of_le_of_lt hsublist.countP_le hcount)
  · have hle := hsublist.countP_le (p := fun a => a.isExpired now)
    by_cases hleft : ∃ a ∈ db.rows, a.isExpired now = true
    · obtain ⟨a, ha, hexpired, hgone⟩ := reap_handles hfits hleft h
      obtain ⟨win, failed, hwin, rfl⟩ := h
      have hsplit := List.countP_eq_countP_filter_add db.rows (fun a => a.isExpired now)
        (fun a => !(win.contains a && a.isExpired now))
      have hpos : 0 < (db.rows.filter (fun a => !!(win.contains a && a.isExpired now))).countP (fun a => a.isExpired now) := by
        rw [List.countP_pos_iff]
        refine ⟨a, List.mem_filter.2 ⟨ha, ?_⟩, hexpired⟩
        rw [Bool.not_not]
        by_contra hkept
        exact hgone (List.mem_filter.2 ⟨ha, by simpa [imp_iff_not_or] using hkept⟩)
      simp only [Artifacts.reap] at hle ⊢
      omega
    · have hzero : db.rows.countP (fun a => a.isExpired now) = 0 := by
        rw [List.countP_eq_zero]
        exact fun a ha hexpired => hleft ⟨a, ha, hexpired⟩
      omega

/-- **Reaping** makes progress exactly when the artifacts that have not expired leave room in the batch. -/
theorem reap_progress_iff (now : Int) (batchSize : Nat) (db : Artifacts) :
    ReapProgress now batchSize db ↔ ReapFits now batchSize db := by
  constructor
  · rintro ⟨-, hhandles, -⟩
    by_contra hnot
    simp only [ReapFits, not_or, Nat.not_lt] at hnot
    obtain ⟨hsome, hfull⟩ := hnot
    have hleft : ∃ a ∈ db.rows, a.isExpired now = true := by
      by_contra hnone
      exact hsome (fun a ha => by simpa using fun hexpired => hnone ⟨a, ha, hexpired⟩)
    obtain ⟨win, hwin, hlast⟩ := Windows.exists_window_last (fun _ : Artifact => 0) batchSize
      (db.rows.filter (fun a => a.expiresAt.isSome)) (fun a => a.isExpired now)
    obtain ⟨a, ha, hexpired, hgone⟩ := hhandles hleft (db.reap now win []) ⟨win, [], hwin, rfl⟩
    have hin : a ∈ win := by
      by_contra hout
      exact hgone (List.mem_filter.2 ⟨ha, by simp [hout]⟩)
    have hroom := hlast a hin hexpired
    rw [List.countP_filter] at hroom
    simp only [Nat.le_refl, decide_true, Bool.and_true] at hroom
    have hsame : db.rows.countP (fun a => !a.isExpired now && a.expiresAt.isSome) =
        db.rows.countP (fun a => a.expiresAt.isSome && !a.isExpired now) := by
      apply List.countP_congr
      intro b _
      rw [Bool.and_comm]
    omega
  · intro hfits
    refine ⟨fun db' h => reap_touches h, fun hleft db' h => reap_handles hfits hleft h,
      db.rows.countP (fun a => a.isExpired now), ?_⟩
    intro db' htimes a ha
    have hnone := Windows.times_finish (Reaps now batchSize) (P := ReapFits now batchSize)
      (fun s => s.rows.countP (fun a => a.isExpired now)) (fun s s' hs h => reap_less hs h) hfits (Nat.le_refl _) htimes
    rw [List.countP_eq_zero] at hnone
    simpa using hnone a ha

end reap

/-- **Bounded retention sweeps**: each makes progress exactly when what stays in its window leaves room. -/
theorem sweeps_progress_iff (now keepDays : Int) (batch batchSize : Nat) (messages : Messages) (artifacts : Artifacts) :
    (PruneProgress now keepDays batch messages ↔ PruneFits now keepDays batch messages) ∧
      (ReapProgress now batchSize artifacts ↔ ReapFits now batchSize artifacts) :=
  ⟨prune_progress_iff now keepDays batch messages, reap_progress_iff now batchSize artifacts⟩

def later (i : Nat) : Artifact := ⟨i, [], some 10⟩

def crowded (n : Nat) : Artifacts where
  rows := (List.range n).map later ++ [⟨n, [], some 5⟩]
  files := []
  nodup := by
    have hids : ((List.range n).map later ++ [Artifact.mk n [] (some 5)]).map (·.id) = List.range (n + 1) := by
      rw [List.range_succ, List.map_append, List.map_map]
      exact congrArg (· ++ [n]) (List.map_id _)
    rw [hids]
    exact List.nodup_range

theorem crowded_count (n : Nat) : (crowded n).rows.countP (fun a => a.expiresAt.isSome && !a.isExpired 7) = n := by
  have hlater : ((List.range n).map later).countP (fun a => a.expiresAt.isSome && !a.isExpired 7) = n := by
    rw [List.countP_map]
    refine (List.countP_eq_length.2 ?_).trans List.length_range
    intro i _
    rfl
  unfold crowded
  rw [List.countP_append, hlater]
  rfl

/-- **Behind two hundred artifacts that are to expire one that has may stay for ever.** -/
theorem crowded_out : ¬ ∀ db, ReapProgress 7 200 db := by
  intro hall
  rcases (reap_progress_iff 7 200 (crowded 200)).1 (hall (crowded 200)) with hnone | hroom
  · have hexpired := hnone (Artifact.mk 200 [] (some 5)) (List.mem_append_right _ List.mem_cons_self)
    revert hexpired
    decide
  · rw [crowded_count] at hroom
    exact absurd hroom (Nat.lt_irrefl 200)

end Retention
end MyGpt
