import MyGpt.EventAppends
import MyGpt.StreamCompleteness
/-!
# LogIntegrity — what concurrent appenders leave in the event log

The uncommitted rows of a run are those of one session at a time and go on from the log (`State.Numbered`), so the log has no
gaps; the log is the batches of the stored calls one after the other (`State.Accounted`).
-/
namespace MyGpt
namespace Appends

open Run (RunEvent)
open Tail (Row maxSequence numbered taken replay Gapless maxSequence_range numbered_sequence gapless_append taken_iff replay_eq)
open Trace (Reaches play reaches_play)

variable {requests : Nat → Request}

/-! ## what must hold -/

/-- **The log is 1..n, and holds each stored call's events once and in their order; a replay is what is behind its cursor.** -/
structure State.LogIntegrity (requests : Nat → Request) (s : State) : Prop where
  sequences : s.log.map (·.sequence) = List.range' 1 s.log.length
  once : s.stored.Nodup
  stored : ∀ k, s.status k = .stored ↔ k ∈ s.stored
  batches : s.log.map (·.event) = s.stored.flatMap (fun k => (requests k).events)
  replays : ∀ cursor : Int, replay s.log cursor = s.log.filter (fun r => cursor < r.sequence) ∧
    (replay s.log cursor).Pairwise (fun r r' => r.sequence < r'.sequence)

def State.Quiet (requests : Nat → Request) (s : State) (k : Nat) : Prop :=
  s.status k = .stored ∨ (s.status k = .failed ∧ (requests k).bestEffort = true)

/-! ## the sequences -/

structure State.Numbered (requests : Nat → Request) (s : State) : Prop where
  gapless : Gapless s.log
  one : ∀ p ∈ s.staged, ∀ q ∈ s.staged, p.session = q.session
  staged : s.staged.map (·.row.sequence) = List.range' (s.log.length + 1) s.staged.length
  top : ∀ a k left top, s.working a = some ⟨k, left, some top⟩ →
    top ≤ s.log.length + (s.stagedBy a).length ∧
      (s.stagedBy a ≠ [] → top = s.log.length + (s.stagedBy a).length)
  busy : ∀ a w, s.working a = some w → (requests w.call).events ≠ []

theorem staged_cases {s : State} (h : ∀ p ∈ s.staged, ∀ q ∈ s.staged, p.session = q.session) (a : Nat) :
    (s.stagedBy a = [] ∧ s.staged.filter (fun p => p.session ≠ a) = s.staged) ∨
      (s.staged.filter (fun p => p.session ≠ a) = [] ∧ s.stagedBy a = s.staged.map (·.row)) := by
  by_cases hmine : ∃ p ∈ s.staged, p.session = a
  · obtain ⟨p, hp, rfl⟩ := hmine
    right
    constructor
    · exact List.filter_eq_nil_iff.2 (fun q hq => by simp [h q hq p hp])
    · unfold State.stagedBy
      rw [List.filter_eq_self.2 (fun q hq => decide_eq_true (h q hq p hp))]
  · left
    have hnone : ∀ q ∈ s.staged, q.session ≠ a := fun q hq heq => hmine ⟨q, hq, heq⟩
    constructor
    · unfold State.stagedBy
      rw [List.filter_eq_nil_iff.2 (fun q hq => by simp [hnone q hq])]
      rfl
    · exact List.filter_eq_self.2 (fun q hq => decide_eq_true (hnone q hq))

theorem stagedBy_filter {s : State} {a b : Nat} (hb : b ≠ a) :
    ((s.staged.filter (fun p => p.session ≠ a)).filter (fun p => p.session = b)).map (·.row) = s.stagedBy b := by
  rw [List.filter_filter]
  congr 1
  refine List.filter_congr (fun p _ => ?_)
  by_cases hp : p.session = b
  · simp [hp, hb]
  · simp [hp]

theorem stagedBy_flush {s : State} {a k b : Nat} {rows : List Row} :
    (s.flush a k rows).stagedBy b = if b = a then s.stagedBy a ++ rows else s.stagedBy b := by
  unfold State.stagedBy State.flush
  rw [List.filter_append, List.map_append, List.filter_map, List.map_map]
  by_cases hb : b = a
  · subst hb
    simp [Function.comp_def]
  · have hne : ¬ a = b := fun h => hb h.symm
    simp [Function.comp_def, hb, hne]

theorem State.Numbered.next {s : State} (h : s.Numbered requests) {a k left top : Nat}
    (hw : s.working a = some ⟨k, left, some top⟩) (hlog : taken s.log (numbered top (requests k).events) = false)
    (hothers : taken (s.heldByOthers a) (numbered top (requests k).events) = false) :
    s.heldByOthers a = [] ∧ top = s.log.length + s.staged.length := by
  obtain ⟨hle, heq⟩ := h.top a k left top hw
  obtain ⟨e, rest, hevents⟩ := List.exists_cons_of_ne_nil (h.busy a _ hw)
  have hfirst : (⟨top + 1, e⟩ : Row) ∈ numbered top (requests k).events := by
    rw [hevents]
    simp [numbered]
  have hbehind : s.log.length ≤ top := by
    by_contra hlt
    have hmem : top + 1 ∈ s.log.map (·.sequence) := by
      rw [h.gapless, List.mem_range'_1]
      omega
    obtain ⟨q, hq, hseq⟩ := List.mem_map.1 hmem
    rw [taken_iff.2 ⟨_, hfirst, q, hq, hseq⟩] at hlog
    cases hlog
  rcases staged_cases h.one a with ⟨hnone, hfilter⟩ | ⟨hfilter, hall⟩
  · rw [hnone] at hle
    have htop : top = s.log.length := Nat.le_antisymm hle hbehind
    cases hstaged : s.staged with
    | nil => simp [State.heldByOthers, hstaged, htop]
    | cons p more =>
      -- the other session holds the sequence after the log
      have hseq := h.staged
      rw [hstaged, List.map_cons, List.length_cons, List.range'_succ] at hseq
      have hheld : p.row ∈ s.heldByOthers a := by
        unfold State.heldByOthers
        rw [hfilter, hstaged]
        exact List.mem_map_of_mem List.mem_cons_self
      have hp : p.row.sequence = top + 1 := by
        rw [htop]
        exact (List.cons.inj hseq).1
      rw [taken_iff.2 ⟨_, hfirst, p.row, hheld, hp⟩] at hothers
      cases hothers
  · refine ⟨?_, ?_⟩
    · unfold State.heldByOthers
      rw [hfilter]
      rfl
    by_cases hempty : s.stagedBy a = []
    · rw [hempty] at hle
      rw [hall, List.map_eq_nil_iff] at hempty
      rw [hempty]
      exact Nat.le_antisymm hle hbehind
    · rw [heq hempty, hall, List.length_map]

theorem State.Numbered.flushed {s : State} (h : s.Numbered requests) {a k left top : Nat}
    (hw : s.working a = some ⟨k, left, some top⟩) (hlog : taken s.log (numbered top (requests k).events) = false)
    (hothers : taken (s.heldByOthers a) (numbered top (requests k).events) = false) :
    (s.flush a k (numbered top (requests k).events)).Numbered requests := by
  obtain ⟨halone, htop⟩ := h.next hw hlog hothers
  have hmine : ∀ p ∈ s.staged, p.session = a := by
    intro p hp
    by_contra hne
    have hheld : p.row ∈ s.heldByOthers a :=
      List.mem_map_of_mem (List.mem_filter.2 ⟨hp, decide_eq_true hne⟩)
    rw [halone] at hheld
    cases hheld
  have hafter : ∀ p ∈ s.staged ++ (numbered top (requests k).events).map (fun row => (⟨a, row⟩ : Staged)), p.session = a := by
    intro p hp
    rcases List.mem_append.1 hp with hold | hnew
    · exact hmine p hold
    · obtain ⟨row, -, rfl⟩ := List.mem_map.1 hnew
      rfl
  constructor
  · exact h.gapless
  · intro p hp q hq
    rw [hafter p hp, hafter q hq]
  · show (s.staged ++ _).map (·.row.sequence) = List.range' (s.log.length + 1) (s.staged ++ _).length
    rw [List.map_append, List.map_map, h.staged, List.length_append, List.length_map]
    have hnew : ((numbered top (requests k).events).map ((fun p : Staged => p.row.sequence) ∘ fun row => ⟨a, row⟩)) =
        List.range' (s.log.length + 1 + s.staged.length) (requests k).events.length := by
      have hseq := numbered_sequence top (requests k).events
      rw [htop, Nat.add_right_comm] at hseq
      rw [htop]
      exact hseq
    rw [hnew, List.range'_append_1]
    congr 1
    simp [numbered]
  · intro b k' left' top' hworking
    by_cases hb : b = a
    · subst hb
      simp [State.flush] at hworking
    · have hsame : (s.flush a k (numbered top (requests k).events)).stagedBy b = s.stagedBy b := by
        rw [stagedBy_flush, if_neg hb]
      rw [hsame]
      refine h.top b k' left' top' ?_
      simpa [State.flush, hb] using hworking
  · intro b w hworking
    by_cases hb : b = a
    · subst hb
      simp [State.flush] at hworking
    · exact h.busy b w (by simpa [State.flush, hb] using hworking)

theorem State.Numbered.setWorking {s : State} (h : s.Numbered requests) {a : Nat} {w : Option Working} (status : Nat → Status)
    (flushed : Nat → List Nat)
    (htop : ∀ k left top, w = some ⟨k, left, some top⟩ → top = s.log.length + (s.stagedBy a).length)
    (hbusy : ∀ v, w = some v → (requests v.call).events ≠ []) :
    State.Numbered requests
      { s with working := Function.update s.working a w, status := status, flushed := flushed } where
  gapless := h.gapless
  one := h.one
  staged := h.staged
  top := by
    intro b k left top hworking
    by_cases hb : b = a
    · subst hb
      dsimp only at hworking
      rw [Function.update_self] at hworking
      have heq := htop k left top hworking
      exact ⟨Nat.le_of_eq heq, fun _ => heq⟩
    · dsimp only at hworking
      rw [Function.update_of_ne hb] at hworking
      exact h.top b k left top hworking
  busy := by
    intro b v hworking
    dsimp only at hworking
    by_cases hb : b = a
    · subst hb
      rw [Function.update_self] at hworking
      exact hbusy v hworking
    · rw [Function.update_of_ne hb] at hworking
      exact h.busy b v hworking

theorem State.Numbered.close {s : State} (h : s.Numbered requests) (a : Nat) (log : List Row)
    (working : Nat → Option Working) (status : Nat → Status) (flushed : Nat → List Nat) (stored : List Nat)
    (hlog : log = s.log ∨ log = s.log ++ s.stagedBy a)
    (hworking : ∀ b w, working b = some w → b ≠ a ∧ s.working b = some w) :
    State.Numbered requests ⟨log, s.staged.filter (fun p => p.session ≠ a), working, status, flushed, stored⟩ := by
  have hbusy : ∀ b w, working b = some w → (requests w.call).events ≠ [] := fun b w hw => h.busy b w (hworking b w hw).2
  rcases staged_cases h.one a with ⟨hnone, hfilter⟩ | ⟨hfilter, hall⟩
  · obtain rfl : log = s.log := by
      rcases hlog with rfl | rfl
      · rfl
      · rw [hnone, List.append_nil]
    rw [hfilter]
    exact ⟨h.gapless, h.one, h.staged, fun b k left top hw => h.top b k left top (hworking b _ hw).2, hbusy⟩
  · have hgapless : Gapless log := by
      rcases hlog with rfl | rfl
      · exact h.gapless
      · rw [hall]
        refine gapless_append h.gapless ?_
        rw [List.map_map, List.length_map]
        exact h.staged
    have hlength : s.log.length ≤ log.length := by
      rcases hlog with rfl | rfl
      · exact Nat.le_refl _
      · rw [List.length_append]
        exact Nat.le_add_right _ _
    rw [hfilter]
    refine ⟨hgapless, (fun p hp => nomatch hp), rfl, ?_, hbusy⟩
    intro b k left top hw
    obtain ⟨hb, hwas⟩ := hworking b _ hw
    have hempty : s.stagedBy b = [] := by
      rw [← stagedBy_filter hb, hfilter]
      rfl
    have htop := (h.top b k left top hwas).1
    rw [hempty] at htop
    refine ⟨?_, fun hne => absurd rfl hne⟩
    exact Nat.le_trans htop hlength

theorem State.Numbered.rollBack {s : State} (h : s.Numbered requests) (a : Nat) : (s.rollBack a).Numbered requests := by
  refine h.close a s.log _ _ _ _ (.inl rfl) (fun b w hw => ?_)
  by_cases hb : b = a
  · subst hb
    rw [Function.update_self] at hw
    cases hw
  · rw [Function.update_of_ne hb] at hw
    exact ⟨hb, hw⟩

theorem State.Numbered.visible {s : State} (h : s.Numbered requests) (a : Nat) :
    maxSequence (s.log ++ s.stagedBy a) = s.log.length + (s.stagedBy a).length := by
  have hgapless : Gapless (s.log ++ s.stagedBy a) := by
    rcases staged_cases h.one a with ⟨hnone, -⟩ | ⟨-, hall⟩
    · rw [hnone, List.append_nil]
      exact h.gapless
    · rw [hall]
      refine gapless_append h.gapless ?_
      rw [List.map_map, List.length_map]
      exact h.staged
  rw [maxSequence_range _ hgapless, List.length_append]

theorem numbered_step {s s' : State} {act : Act} (h : s.Numbered requests) (hs : step requests s act = some s') :
    s'.Numbered requests := by
  cases act with
  | begins a k =>
    unfold step at hs
    dsimp only at hs
    split at hs
    next hidle =>
      split at hs
      next hempty =>
        cases hs
        have hsame := h.setWorking (a := a) (w := none) (Function.update s.status k (.flushed a))
          (Function.update s.flushed a (s.flushed a ++ [k])) (fun _ _ _ hw => nomatch hw) (fun _ hw => nomatch hw)
        unfold State.flush
        rw [List.map_nil, List.append_nil]
        exact hsame
      next hevents =>
        cases hs
        refine h.setWorking _ _ (fun _ _ _ hw => ?_) (fun v hw => ?_)
        · cases hw
        · cases hw
          exact hevents
    next => cases hs
  | reads a =>
    unfold step at hs
    dsimp only at hs
    split at hs
    next k left hworking =>
      cases hs
      refine h.setWorking _ _ (fun _ _ _ hw => ?_) (fun v hw => ?_)
      · cases hw
        exact h.visible a
      · cases hw
        exact fun hnil => h.busy a _ hworking hnil
    next => cases hs
  | inserts a =>
    unfold step at hs
    dsimp only at hs
    split at hs
    next k left top hworking =>
      split at hs
      next =>
        cases hs
        unfold State.collide
        split
        · exact h.rollBack a
        split
        · refine h.setWorking _ _ (fun _ _ _ hw => ?_) (fun v hw => ?_)
          · cases hw
          · cases hw
            exact fun hnil => h.busy a _ hworking hnil
        · exact h.setWorking _ _ (fun _ _ _ hw => nomatch hw) (fun _ hw => nomatch hw)
      next hlog =>
        split at hs
        next => cases hs
        next hothers =>
          cases hs
          exact h.flushed hworking (Bool.eq_false_iff.2 hlog) (Bool.eq_false_iff.2 hothers)
    next => cases hs
  | commits a =>
    unfold step at hs
    dsimp only at hs
    split at hs
    next hidle =>
      cases hs
      refine h.close a _ _ _ _ _ (.inr rfl) (fun b w hw => ⟨?_, hw⟩)
      rintro rfl
      rw [hidle] at hw
      cases hw
    next => cases hs
  | rollsBack a =>
    cases hs
    exact h.rollBack a

/-! ## the calls -/

structure State.Accounted (requests : Nat → Request) (s : State) : Prop where
  log : s.log.map (·.event) = s.stored.flatMap (fun k => (requests k).events)
  staged : ∀ a, (s.stagedBy a).map (·.event) = (s.flushed a).flatMap (fun k => (requests k).events)
  flushed : ∀ a k, k ∈ s.flushed a ↔ s.status k = .flushed a
  nodup : ∀ a, (s.flushed a).Nodup
  stored : ∀ k, k ∈ s.stored ↔ s.status k = .stored
  once : s.stored.Nodup
  working : ∀ a w, s.working a = some w → s.status w.call = .running a

theorem accounted_start : State.start.Accounted requests where
  log := rfl
  staged := fun _ => rfl
  flushed := by
    intro a k
    simp [State.start]
  nodup := fun _ => List.nodup_nil
  stored := by
    intro k
    simp [State.start]
  once := List.nodup_nil
  working := fun _ _ hw => nomatch hw

theorem State.Accounted.flush {s : State} (h : s.Accounted requests) {a k : Nat} {rows : List Row}
    (hrows : rows.map (·.event) = (requests k).events) (hk : s.status k = .idle ∨ s.status k = .running a)
    (hother : ∀ b w, b ≠ a → s.working b = some w → w.call ≠ k) : (s.flush a k rows).Accounted requests where
  log := h.log
  staged := by
    intro b
    rw [stagedBy_flush]
    unfold State.flush
    dsimp only
    by_cases hb : b = a
    · subst hb
      rw [if_pos rfl, Function.update_self, List.map_append, List.flatMap_append, h.staged, hrows]
      simp
    · rw [if_neg hb, Function.update_of_ne hb]
      exact h.staged b
  flushed := by
    intro b j
    unfold State.flush
    have hk' : ∀ b, k ∉ s.flushed b := by
      intro b hmem
      rw [h.flushed] at hmem
      rcases hk with hk | hk <;> rw [hk] at hmem <;> cases hmem
    by_cases hb : b = a <;> by_cases hj : j = k
    · subst hb hj
      simp
    · subst hb
      simp [hj, h.flushed]
    · subst hj
      have hab : a ≠ b := fun heq => hb heq.symm
      simp [hb, hk' b, hab]
    · simp [hb, hj, h.flushed]
  nodup := by
    intro b
    unfold State.flush
    dsimp only
    by_cases hb : b = a
    · subst hb
      rw [Function.update_self, List.nodup_append]
      refine ⟨h.nodup b, List.pairwise_singleton _ _, ?_⟩
      rintro j hj i hi rfl
      rw [List.mem_singleton.1 hi, h.flushed] at hj
      rcases hk with hk | hk <;> rw [hk] at hj <;> cases hj
    · rw [Function.update_of_ne hb]
      exact h.nodup b
  stored := by
    intro j
    unfold State.flush
    dsimp only
    by_cases hj : j = k
    · subst hj
      rw [Function.update_self, h.stored]
      constructor
      · intro hstored
        rcases hk with hk | hk <;> rw [hk] at hstored <;> cases hstored
      · intro hflushed
        cases hflushed
    · rw [Function.update_of_ne hj]
      exact h.stored j
  once := h.once
  working := by
    intro b w hw
    unfold State.flush at hw ⊢
    dsimp only at hw ⊢
    by_cases hb : b = a
    · subst hb
      rw [Function.update_self] at hw
      cases hw
    · rw [Function.update_of_ne hb] at hw
      rw [Function.update_of_ne (hother b w hb hw)]
      exact h.working b w hw

theorem State.Accounted.setCall {s : State} (h : s.Accounted requests) {a k : Nat} {w : Option Working} {status : Status}
    (hk : s.status k = .idle ∨ s.status k = .running a) (hnew : status = .running a ∨ status = .failed)
    (hw : ∀ v, w = some v → v.call = k ∧ status = .running a) (hother : ∀ b v, b ≠ a → s.working b = some v → v.call ≠ k) :
    State.Accounted requests
      { s with working := Function.update s.working a w, status := Function.update s.status k status } where
  log := h.log
  staged := h.staged
  flushed := by
    intro b j
    dsimp only
    by_cases hj : j = k
    · subst hj
      rw [Function.update_self, h.flushed]
      rcases hk with hk | hk <;> rcases hnew with hnew | hnew <;> simp [hk, hnew]
    · rw [Function.update_of_ne hj]
      exact h.flushed b j
  nodup := h.nodup
  stored := by
    intro j
    dsimp only
    by_cases hj : j = k
    · subst hj
      rw [Function.update_self, h.stored]
      rcases hk with hk | hk <;> rcases hnew with hnew | hnew <;> simp [hk, hnew]
    · rw [Function.update_of_ne hj]
      exact h.stored j
  once := h.once
  working := by
    intro b v hv
    dsimp only at hv ⊢
    by_cases hb : b = a
    · subst hb
      rw [Function.update_self] at hv
      obtain ⟨hcall, hstatus⟩ := hw v hv
      rw [hcall, Function.update_self]
      exact hstatus
    · rw [Function.update_of_ne hb] at hv
      rw [Function.update_of_ne (hother b v hb hv)]
      exact h.working b v hv

theorem State.Accounted.setWorking {s : State} (h : s.Accounted requests) {a : Nat} {w w' : Working}
    (hw : s.working a = some w) (hcall : w'.call = w.call) :
    State.Accounted requests { s with working := Function.update s.working a (some w') } where
  log := h.log
  staged := h.staged
  flushed := h.flushed
  nodup := h.nodup
  stored := h.stored
  once := h.once
  working := by
    intro b v hv
    dsimp only at hv ⊢
    by_cases hb : b = a
    · subst hb
      rw [Function.update_self] at hv
      cases hv
      rw [hcall]
      exact h.working b w hw
    · rw [Function.update_of_ne hb] at hv
      exact h.working b v hv

theorem State.Accounted.commit {s : State} (h : s.Accounted requests) {a : Nat} (hidle : s.working a = none) :
    (s.commit a).Accounted requests where
  log := by
    unfold State.commit
    rw [List.map_append, List.flatMap_append, h.log, h.staged]
  staged := by
    intro b
    unfold State.commit State.stagedBy
    dsimp only
    by_cases hb : b = a
    · subst hb
      simp [List.filter_filter]
    · rw [stagedBy_filter hb, Function.update_of_ne hb]
      exact h.staged b
  flushed := by
    intro b j
    unfold State.commit
    dsimp only
    by_cases hb : b = a
    · subst hb
      rw [Function.update_self]
      split <;> simp_all
    · rw [Function.update_of_ne hb, h.flushed]
      split
      next hflushed =>
        rw [hflushed]
        simpa using fun heq : a = b => hb heq.symm
      next => rfl
  nodup := by
    intro b
    unfold State.commit
    dsimp only
    by_cases hb : b = a
    · subst hb
      rw [Function.update_self]
      exact List.nodup_nil
    · rw [Function.update_of_ne hb]
      exact h.nodup b
  stored := by
    intro j
    unfold State.commit
    dsimp only
    rw [List.mem_append, h.stored, h.flushed]
    split
    next hflushed => simp [hflushed]
    next hother => simp [hother]
  once := by
    unfold State.commit
    rw [List.nodup_append]
    refine ⟨h.once, h.nodup a, ?_⟩
    rintro j hj i hi rfl
    rw [h.stored] at hj
    rw [h.flushed, hj] at hi
    cases hi
  working := by
    intro b w hw
    unfold State.commit at hw ⊢
    dsimp only at hw ⊢
    rw [h.working b w hw]
    rfl

theorem State.Accounted.rollBack {s : State} (h : s.Accounted requests) (a : Nat) : (s.rollBack a).Accounted requests where
  log := h.log
  staged := by
    intro b
    unfold State.rollBack State.stagedBy
    dsimp only
    by_cases hb : b = a
    · subst hb
      simp [List.filter_filter]
    · rw [stagedBy_filter hb, Function.update_of_ne hb]
      exact h.staged b
  flushed := by
    intro b j
    unfold State.rollBack
    dsimp only
    by_cases hb : b = a
    · subst hb
      rw [Function.update_self]
      split <;> simp_all
    · rw [Function.update_of_ne hb, h.flushed]
      split
      next hover =>
        have hab : ¬ a = b := fun heq => hb heq.symm
        rcases hover with hover | hover <;> rw [hover] <;> simp [hab]
      next => rfl
  nodup := by
    intro b
    unfold State.rollBack
    dsimp only
    by_cases hb : b = a
    · subst hb
      rw [Function.update_self]
      exact List.nodup_nil
    · rw [Function.update_of_ne hb]
      exact h.nodup b
  stored := by
    intro j
    unfold State.rollBack
    dsimp only
    rw [h.stored]
    split
    next hover => rcases hover with hover | hover <;> rw [hover] <;> simp
    next => rfl
  once := h.once
  working := by
    intro b w hw
    unfold State.rollBack at hw ⊢
    dsimp only at hw ⊢
    by_cases hb : b = a
    · subst hb
      rw [Function.update_self] at hw
      cases hw
    · rw [Function.update_of_ne hb] at hw
      have hab : ¬ b = a := hb
      rw [h.working b w hw]
      simp [hab]

theorem numbered_events (top : Nat) (events : List RunEvent) : (numbered top events).map (·.event) = events := by
  apply List.ext_getElem
  · simp [numbered]
  · intro i _ _
    simp [numbered]

theorem accounted_step {s s' : State} {act : Act} (h : s.Accounted requests) (hs : step requests s act = some s') :
    s'.Accounted requests := by
  -- no two sessions are at one call
  have hidle : ∀ {a k}, s.status k = .idle → ∀ b w, b ≠ a → s.working b = some w → w.call ≠ k := by
    intro a k hk b w _ hw heq
    rw [← heq, h.working b w hw] at hk
    cases hk
  have hrunning : ∀ {a k}, s.status k = .running a → ∀ b w, b ≠ a → s.working b = some w → w.call ≠ k := by
    intro a k hk b w hb hw heq
    rw [← heq, h.working b w hw] at hk
    cases hk
    exact hb rfl
  cases act with
  | begins a k =>
    unfold step at hs
    dsimp only at hs
    split at hs
    next hbegin =>
      split at hs
      next hempty =>
        cases hs
        exact h.flush hempty.symm (.inl hbegin.2) (hidle hbegin.2)
      next =>
        cases hs
        refine h.setCall (.inl hbegin.2) (.inl rfl) (fun v hv => ?_) (hidle hbegin.2)
        cases hv
        exact ⟨rfl, rfl⟩
    next => cases hs
  | reads a =>
    unfold step at hs
    dsimp only at hs
    split at hs
    next k left hworking =>
      cases hs
      exact h.setWorking hworking rfl
    next => cases hs
  | inserts a =>
    unfold step at hs
    dsimp only at hs
    split at hs
    next k left top hworking =>
      have hk := h.working a _ hworking
      split at hs
      next =>
        cases hs
        unfold State.collide
        split
        · exact h.rollBack a
        split
        · exact h.setWorking hworking rfl
        · exact h.setCall (.inr hk) (.inr rfl) (fun _ hv => nomatch hv) (hrunning hk)
      next =>
        split at hs
        next => cases hs
        next =>
          cases hs
          exact h.flush (numbered_events _ _) (.inr hk) (hrunning hk)
    next => cases hs
  | commits a =>
    unfold step at hs
    dsimp only at hs
    split at hs
    next hdone =>
      cases hs
      exact h.commit hdone
    next => cases hs
  | rollsBack a =>
    cases hs
    exact h.rollBack a

/-! ## the claim -/

/-- **Event log integrity**: gapless sequences, every stored call's events once and together, exact replays. -/
theorem log_integrity (requests : Nat → Request) (s : State) (h : Reaches (step requests) State.start s) :
    s.LogIntegrity requests := by
  have hnumbered : s.Numbered requests :=
    h.invariant ⟨rfl, (fun _ hp => nomatch hp), rfl, (fun _ _ _ _ hw => nomatch hw), (fun _ _ hw => nomatch hw)⟩
      (fun _ _ _ hs _ hstep => numbered_step hs hstep)
  have haccounted : s.Accounted requests := h.invariant accounted_start (fun _ _ _ hs _ hstep => accounted_step hs hstep)
  refine ⟨hnumbered.gapless, haccounted.once, fun k => (haccounted.stored k).symm, haccounted.log, fun cursor => ?_⟩
  rw [replay_eq hnumbered.gapless]
  exact ⟨rfl, (Tail.gapless_sorted hnumbered.gapless).filter _⟩

/-- The batches of two appenders, each one `append_many` of a worker. -/
def batchOf (k : Nat) : Request :=
  ⟨if k = 0 then [⟨.other "delta", []⟩, ⟨.other "delta", []⟩] else [⟨.done, []⟩], true, true⟩

def collision : List Act := [.begins 0 0, .begins 1 1, .reads 0, .reads 1, .inserts 0, .commits 0, .inserts 1]

theorem log_integrity_collision :
    (play (step batchOf) State.start collision).LogIntegrity batchOf ∧
      (play (step batchOf) State.start collision).log.length = 2 :=
  ⟨log_integrity batchOf _ (reaches_play (by decide)), by decide⟩

/-- **A batch that collides is dropped, and its caller sees no error.** -/
theorem batch_dropped : ¬ ∀ requests s, Reaches (step requests) State.start s →
    s.LogIntegrity requests ∧ ∀ k, s.Quiet requests k → k ∈ s.stored := by
  intro h
  have hstored := (h batchOf (play (step batchOf) State.start collision) (reaches_play (by decide))).2 1
    (.inr ⟨by decide, rfl⟩)
  exact absurd hstored (by decide)

end Appends
end MyGpt
