import MyGpt.DocumentIndex
import Mathlib.Data.List.Perm.Basic
/-!
# IndexConsistency — when an indexed document is searchable exactly

Between the clearing of its points and its last write a pipeline holds the index half built, and nothing it does there is
checked against its claim or undone: a failure commits the new rows beside the points stored so far
(`failed_attempt_leaves_partial`).  Runs in which what is done there is done under the current claim and to its end keep
rows and points together (`searchable_exactly`).
-/
namespace MyGpt
namespace Index

open Ingest (Document DocStatus Settings IngestionOutcome claimLost writeProgress_cases)
open Trace (Runs Reaches play reaches_play)

/-! ## what must hold, and when it does -/

def State.Whole (s : State) : Prop := s.points.Perm (s.rows.map ChunkRow.point) ∧ (s.rows.map (·.id)).Nodup

/-- **Searchable exactly**: an indexed document has a point for every chunk row, and the rows are the chunks of its text
in order; and but for the pipeline that is at it there is never a part of either. -/
structure SearchableExactly (s : State) : Prop where
  indexed : ∀ d, s.row = some d → d.status = .indexed →
    s.Whole ∧ s.rows.map (·.content) = s.parsed ∧ s.rows.map (·.chunkIndex) = List.range s.rows.length
  left : (∀ w, s.Current w → (s.workers w).storing = false) → s.Whole

def Act.pipeline (w : Nat) : Act → Prop
  | .advance x => x = w
  | .splits x _ => x = w
  | .clears x _ => x = w
  | .inserts x => x = w
  | .upserts x => x = w
  | .fails x _ _ => x = w
  | .returns x _ _ => x = w
  | _ => False

def FencedPoints (cfg : Settings) (name : Nat → String) (ok : State → Act → Prop) (s : State) : Prop :=
  ∀ w act s', act.pipeline w → ¬ s.Current w → ok s act → step cfg name s act = some s' → s'.points = s.points

/-- **A pipeline begins with the points under the row's claim**, clears them, and from then until its last write it neither
fails nor dies, and no other worker takes the document. -/
def StoreOk (s : State) : Act → Prop
  | .clears w ok => s.Current w ∧ (ok = false → s.points = [])
  | .claim _ _ now => ∀ d, s.row = some d → Ingest.claimable now d = true → ∀ w, (s.workers w).storing = false
  | .fails w _ _ => (s.workers w).storing = false
  | .returns w _ _ => (s.workers w).storing = false
  | .crash w => (s.workers w).storing = false
  | _ => True

/-! ## the rows of a split -/

theorem chunkRows_content (n : Nat) (texts : List String) : (chunkRows n texts).map (·.content) = texts := by
  apply List.ext_getElem
  · simp [chunkRows]
  · intro i h h'
    simp [chunkRows]

theorem chunkRows_index (n : Nat) (texts : List String) :
    (chunkRows n texts).map (·.chunkIndex) = List.range (chunkRows n texts).length := by
  apply List.ext_getElem
  · simp [chunkRows]
  · intro i h h'
    simp [chunkRows]

theorem chunkRows_ids (n : Nat) (texts : List String) : ((chunkRows n texts).map (·.id)).Nodup := by
  have hids : (chunkRows n texts).map (·.id) = List.range' n texts.length := by
    apply List.ext_getElem
    · simp [chunkRows]
    · intro i h h'
      simp [chunkRows]
  rw [hids]
  exact List.nodup_range'

theorem upsert_batch {added : List ChunkRow} (h : (added.map (·.id)).Nodup) (n m : Nat) :
    upsert ((added.take n).map ChunkRow.point) (((added.drop n).take m).map ChunkRow.point) =
      (added.take (n + m)).map ChunkRow.point := by
  unfold upsert
  have hkeep : ((added.take n).map ChunkRow.point).filter
      (fun p => (((added.drop n).take m).map ChunkRow.point).all (·.id ≠ p.id)) = (added.take n).map ChunkRow.point := by
    rw [List.filter_eq_self]
    intro p hp
    obtain ⟨a, ha, rfl⟩ := List.mem_map.1 hp
    rw [List.all_eq_true]
    intro q hq
    obtain ⟨b, hb, rfl⟩ := List.mem_map.1 hq
    have hsplit : (added.map (·.id)) = (added.take n).map (·.id) ++ (added.drop n).map (·.id) := by
      rw [← List.map_append, List.take_append_drop]
    rw [hsplit] at h
    have hne := (List.nodup_append.1 h).2.2 a.id (List.mem_map_of_mem ha) b.id (List.mem_map_of_mem (List.mem_of_mem_take hb))
    exact decide_eq_true (Ne.symm hne)
  rw [hkeep, ← List.map_append, List.take_add]

theorem commit_all {session : Session} {rows : List ChunkRow} (h : ∀ c ∈ rows, c.id ∈ session.cleared) :
    session.commit rows = session.added := by
  unfold Session.commit
  rw [List.filter_eq_nil_iff.2 (fun c hc => by simpa using h c hc), List.nil_append]

theorem commit_empty (rows : List ChunkRow) : ({} : Session).commit rows = rows := by
  simp [Session.commit]

/-! ## the invariant -/

def Stage.Holds (s : State) : Stage → Prop
  | .cleared _ => s.points = []
  | .storing texts session stored =>
    (∃ n, session.added = chunkRows n texts) ∧ (∀ c ∈ s.rows, c.id ∈ session.cleared) ∧
      s.points = (session.added.take stored).map ChunkRow.point
  | _ => True

structure IndexInv (s : State) : Prop where
  present : ∃ d, s.row = some d
  bounded : ∀ w v d, (s.workers w).version = some v → s.row = some d → v ≤ d.claimVersion
  distinct : ∀ w x v, (s.workers w).version = some v → (s.workers x).version = some v → w = x
  current : ∀ w v stage d, s.workers w = .running v stage → s.row = some d → d.claimVersion = v →
    d.status ≠ .indexed ∧ stage.Holds s
  storing : ∀ w, (s.workers w).storing = true → s.Current w
  left : (∀ w, (s.workers w).storing = false) → s.Whole
  indexed : ∀ d, s.row = some d → d.status = .indexed →
    s.Whole ∧ s.rows.map (·.content) = s.parsed ∧ s.rows.map (·.chunkIndex) = List.range s.rows.length

theorem searchable_of_inv {s : State} (hs : IndexInv s) : SearchableExactly s := by
  refine ⟨hs.indexed, fun hnone => hs.left (fun w => ?_)⟩
  cases hw : (s.workers w).storing
  · rfl
  · rw [← hw]
    exact hnone w (hs.storing w hw)

theorem whole_start : State.start.Whole := ⟨.refl _, List.nodup_nil⟩

theorem indexInv_start : IndexInv .start := by
  refine ⟨⟨_, rfl⟩, ?_, ?_, ?_, ?_, fun _ => whole_start, ?_⟩
  · intro w v d h
    cases h
  · intro w x v h
    cases h
  · intro w v stage d h
    cases h
  · intro w h
    cases h
  · rintro d ⟨⟩ h
    cases h

section
variable {cfg : Settings} {name : Nat → String} {s s' : State} {w : Nat} {act : Act}

/-! ## steps that leave rows and points alone -/

/-- The row stays and keeps its version, and `indexed` is not written. -/
def RowKept (row row' : Option Document) : Prop :=
  ∀ d, row = some d → ∃ d', row' = some d' ∧ d'.claimVersion = d.claimVersion ∧ (d'.status = .indexed → d.status = .indexed)

/-- **A quiet step**: rows and points stay; the row of the document keeps its version and does not become indexed; and at
most the worker `w` changes, from and to a stage before the clearing. -/
structure Quiet (s s' : State) (w : Nat) : Prop where
  row : RowKept s.row s'.row
  rows : s'.rows = s.rows
  points : s'.points = s.points
  parsed : s'.parsed = s.parsed
  others : ∀ x, x ≠ w → s'.workers x = s.workers x
  worker : s'.workers w = s.workers w ∨ ((s.workers w).storing = false ∧ (s'.workers w).storing = false ∧
    (∀ v, (s'.workers w).version = some v → (s.workers w).version = some v) ∧
    ∀ v stage, s'.workers w = .running v stage → ∃ stage', s.workers w = .running v stage')

theorem Stage.Holds.of_eq {stage : Stage} (hrows : s'.rows = s.rows) (hpoints : s'.points = s.points)
    (h : stage.Holds s) : stage.Holds s' := by
  cases stage with
  | cleared texts => exact hpoints.trans h
  | storing texts session stored =>
    obtain ⟨hadded, hcleared, hstored⟩ := h
    exact ⟨hadded, hrows ▸ hcleared, hpoints.trans hstored⟩
  | _ => trivial

theorem holds_of_storing_false {v : Nat} {stage : Stage} (h : (Worker.running v stage).storing = false) : stage.Holds s := by
  cases stage with
  | cleared texts => cases h
  | storing texts session stored => cases h
  | _ => trivial

theorem State.Whole.of_eq (hrows : s'.rows = s.rows) (hpoints : s'.points = s.points) (h : s.Whole) : s'.Whole := by
  unfold State.Whole
  rw [hrows, hpoints]
  exact h

theorem Quiet.version (hq : Quiet s s' w) {x v : Nat} (h : (s'.workers x).version = some v) :
    (s.workers x).version = some v := by
  by_cases hx : x = w
  · subst hx
    rcases hq.worker with hsame | ⟨-, -, hversion, -⟩
    · rwa [hsame] at h
    · exact hversion v h
  · rwa [hq.others x hx] at h

theorem Quiet.storing (hq : Quiet s s' w) (x : Nat) : (s'.workers x).storing = (s.workers x).storing := by
  by_cases hx : x = w
  · subst hx
    rcases hq.worker with hsame | ⟨hbefore, hafter, -⟩
    · rw [hsame]
    · rw [hbefore, hafter]
  · rw [hq.others x hx]

theorem Quiet.current (hq : Quiet s s' w) {x : Nat} (hx : (s'.workers x).version = (s.workers x).version)
    (h : s.Current x) : s'.Current x := by
  obtain ⟨d, hd, hversion⟩ := h
  obtain ⟨d', hd', hsame, -⟩ := hq.row d hd
  refine ⟨d', hd', ?_⟩
  rw [hx, hversion, hsame]

theorem indexInv_quiet (hs : IndexInv s) (hq : Quiet s s' w) : IndexInv s' := by
  obtain ⟨d, hd⟩ := hs.present
  obtain ⟨d', hd', hsame, hstatus⟩ := hq.row d hd
  refine ⟨⟨d', hd'⟩, fun x v e hv he => ?_, fun x y v hx hy => hs.distinct x y v (hq.version hx) (hq.version hy),
    fun x v stage e hx he hv => ?_, fun x hx => ?_, fun hnone => ?_, fun e he hindexed => ?_⟩
  · cases he.symm.trans hd'
    rw [hsame]
    exact hs.bounded x v d (hq.version hv) hd
  · cases he.symm.trans hd'
    rw [hsame] at hv
    by_cases hxw : x = w
    · subst hxw
      rcases hq.worker with hkept | ⟨-, hafter, -, hrunning⟩
      · rw [hkept] at hx
        obtain ⟨hopen, hholds⟩ := hs.current x v stage d hx hd hv
        exact ⟨fun h => hopen (hstatus h), hholds.of_eq hq.rows hq.points⟩
      · obtain ⟨stage', hx'⟩ := hrunning v stage hx
        obtain ⟨hopen, -⟩ := hs.current x v stage' d hx' hd hv
        rw [hx] at hafter
        exact ⟨fun h => hopen (hstatus h), holds_of_storing_false hafter⟩
    · rw [hq.others x hxw] at hx
      obtain ⟨hopen, hholds⟩ := hs.current x v stage d hx hd hv
      exact ⟨fun h => hopen (hstatus h), hholds.of_eq hq.rows hq.points⟩
  · refine hq.current ?_ (hs.storing x (by rw [← hq.storing x]; exact hx))
    by_cases hxw : x = w
    · subst hxw
      rcases hq.worker with hkept | ⟨-, hafter, -⟩
      · rw [hkept]
      · rw [hafter] at hx
        cases hx
    · rw [hq.others x hxw]
  · exact (hs.left (fun x => by rw [← hq.storing x]; exact hnone x)).of_eq hq.rows hq.points
  · cases he.symm.trans hd'
    obtain ⟨hwhole, hcontent, hindex⟩ := hs.indexed d hd (hstatus hindexed)
    rw [hq.rows, hq.parsed]
    exact ⟨hwhole.of_eq hq.rows hq.points, hcontent, hindex⟩

theorem rowKept_refl (row : Option Document) : RowKept row row := fun d hd => ⟨d, hd, rfl, id⟩

theorem rowKept_some {row : Option Document} {d d' : Document} (hd : row = some d) (hversion : d'.claimVersion = d.claimVersion)
    (hstatus : d'.status = .indexed → d.status = .indexed) : RowKept row (some d') := by
  intro e he
  cases hd.symm.trans he
  exact ⟨d', rfl, hversion, hstatus⟩

theorem rowKept_progress {v : Nat} {set : Document → Document} (hversion : ∀ d, (set d).claimVersion = d.claimVersion)
    (hstatus : ∀ d, (set d).status ≠ .indexed) : RowKept s.row (Ingest.writeProgress s.row v set).1 := by
  rcases writeProgress_cases s.row v set with h | ⟨d, hd, -, h⟩
  · rw [h]
    exact rowKept_refl _
  · rw [h]
    exact rowKept_some hd (hversion d) (fun heq => absurd heq (hstatus d))

theorem quiet_row {row' : Option Document} (w : Nat) (h : RowKept s.row row') : Quiet s { s with row := row' } w :=
  ⟨h, rfl, rfl, rfl, fun _ _ => rfl, .inl rfl⟩

theorem quiet_worker (row' : Option Document) {worker : Worker} (hrow : RowKept s.row row')
    (hbefore : (s.workers w).storing = false) (hafter : worker.storing = false)
    (hversion : ∀ v, worker.version = some v → (s.workers w).version = some v)
    (hrunning : ∀ v stage, worker = .running v stage → ∃ stage', s.workers w = .running v stage') :
    Quiet s ({ s with row := row' }.setWorker w worker) w := by
  have hself : ({ s with row := row' }.setWorker w worker).workers w = worker := by simp [State.setWorker]
  refine ⟨hrow, rfl, rfl, rfl, fun x hx => by simp [State.setWorker, hx], .inr ⟨hbefore, ?_, ?_, ?_⟩⟩
  · rw [hself]
    exact hafter
  · rw [hself]
    exact hversion
  · rw [hself]
    exact hrunning

theorem progress_empty {v : Nat} {set : Document → Document} {written lost : Worker} :
    s.progress w v {} set written lost = { s with row := (Ingest.writeProgress s.row v set).1 }.setWorker w
      (if (Ingest.writeProgress s.row v set).2 then written else lost) := by
  unfold State.progress
  rw [commit_empty]

theorem quiet_progress {v : Nat} {stage : Stage} {set : Document → Document} {written lost : Worker}
    (hw : s.workers w = .running v stage) (hstage : (Worker.running v stage).storing = false)
    (hversion : ∀ d, (set d).claimVersion = d.claimVersion) (hstatus : ∀ d, (set d).status ≠ .indexed)
    (hafter : written.storing = false ∧ lost.storing = false) (hquotes : written.version = some v ∧ lost.version = some v) :
    Quiet s (s.progress w v {} set written lost) w := by
  rw [progress_empty]
  refine quiet_worker _ (rowKept_progress hversion hstatus) (by rw [hw]; exact hstage) ?_ ?_
    (fun u stage' hrun => ⟨stage, ?_⟩)
  · split
    · exact hafter.1
    · exact hafter.2
  · intro u hu
    rw [hw]
    split at hu
    · exact hquotes.1.symm.trans hu
    · exact hquotes.2.symm.trans hu
  · have hu : v = u := by
      have hv : (Worker.running u stage').version = some v := by
        rw [← hrun]
        split
        · exact hquotes.1
        · exact hquotes.2
      exact (Option.some.inj hv).symm
    rw [hw, hu]

theorem finishValues_kept (attempts : Nat) (outcome : IngestionOutcome) (now : Int) (d : Document) :
    (Ingest.finishValues cfg attempts outcome now d).claimVersion = d.claimVersion ∧
      ((Ingest.finishValues cfg attempts outcome now d).status = .indexed → d.status = .indexed) := by
  unfold Ingest.finishValues
  split
  · exact ⟨rfl, id⟩
  · split
    · exact ⟨rfl, fun h => by cases h⟩
    · exact ⟨rfl, fun h => by cases h⟩

theorem quiet_ends {worker : Worker} (hbefore : (s.workers w).storing = false) (hafter : ∀ v stage, worker ≠ .running v stage)
    (hversion : ∀ v, worker.version = some v → (s.workers w).version = some v) : Quiet s (s.setWorker w worker) w := by
  refine quiet_worker s.row (rowKept_refl _) hbefore ?_ hversion (fun v stage h => absurd h (hafter v stage))
  cases worker with
  | running v stage => exact absurd rfl (hafter v stage)
  | _ => rfl

/-! ## the claim -/

theorem indexInv_claimed (hs : IndexInv s) {d : Document} {workerId : String} {expiresAt : Int} (hidle : s.workers w = .idle)
    (hd : s.row = some d) (hnostore : ∀ x, (s.workers x).storing = false) :
    IndexInv ({ s with row := some (d.claimed workerId expiresAt) }.setWorker w (.running (d.claimVersion + 1) .starting)) := by
  have hworker : ∀ x v, (({ s with row := some (d.claimed workerId expiresAt) }.setWorker w
      (.running (d.claimVersion + 1) .starting)).workers x).version = some v →
      (x = w ∧ v = d.claimVersion + 1) ∨ (x ≠ w ∧ (s.workers x).version = some v ∧ v ≤ d.claimVersion) := by
    intro x v hv
    by_cases hx : x = w
    · subst hx
      simp only [State.setWorker, Function.update_self] at hv
      exact .inl ⟨rfl, (Option.some.inj hv).symm⟩
    · simp only [State.setWorker, Function.update_of_ne hx] at hv
      exact .inr ⟨hx, hv, hs.bounded x v d hv hd⟩
  have hstoring : ∀ x, (({ s with row := some (d.claimed workerId expiresAt) }.setWorker w
      (.running (d.claimVersion + 1) .starting)).workers x).storing = (s.workers x).storing := by
    intro x
    by_cases hx : x = w
    · subst hx
      simp only [State.setWorker, Function.update_self, hidle]
      rfl
    · simp only [State.setWorker, Function.update_of_ne hx]
  refine ⟨⟨_, rfl⟩, fun x v d' hv hd' => ?_, fun x y v hx hy => ?_, fun x v stage d' hx hd' hv => ?_, fun x hx => ?_,
    fun _ => hs.left hnostore, fun d' hd' hindexed => ?_⟩
  · cases hd'
    rcases hworker x v hv with ⟨-, rfl⟩ | ⟨-, -, hle⟩
    · exact Nat.le_refl _
    · exact Nat.le_succ_of_le hle
  · rcases hworker x v hx with ⟨rfl, rfl⟩ | ⟨-, hxv, hxle⟩
    · rcases hworker y _ hy with ⟨rfl, -⟩ | ⟨-, -, hle⟩
      · rfl
      · exact absurd hle (Nat.not_succ_le_self _)
    · rcases hworker y v hy with ⟨rfl, rfl⟩ | ⟨-, hyv, -⟩
      · exact absurd hxle (Nat.not_succ_le_self _)
      · exact hs.distinct x y v hxv hyv
  · cases hd'
    refine ⟨(fun h => by cases h), ?_⟩
    rcases hworker x v (by rw [hx]; rfl) with ⟨rfl, -⟩ | ⟨-, -, hle⟩
    · simp only [State.setWorker, Function.update_self] at hx
      obtain ⟨-, rfl⟩ := Worker.running.inj hx
      trivial
    · rw [← hv] at hle
      exact absurd hle (Nat.not_succ_le_self _)
  · rw [hstoring x, hnostore x] at hx
    cases hx
  · cases hd'
    cases hindexed

/-! ## what the current claim does to rows and points -/

theorem State.Current.row {v : Nat} {stage : Stage} (h : s.Current w) (hw : s.workers w = .running v stage) :
    ∃ d, s.row = some d ∧ d.claimVersion = v := by
  obtain ⟨d, hd, hversion⟩ := h
  rw [hw] at hversion
  exact ⟨d, hd, (Option.some.inj hversion).symm⟩

theorem version_of_update {v : Nat} {stage : Stage} {workers : Nat → Worker} (hw : s.workers w = .running v stage)
    (hothers : ∀ x, x ≠ w → workers x = s.workers x) (hself : (workers w).version = some v) :
    ∀ x u, (workers x).version = some u → (s.workers x).version = some u := by
  intro x u hu
  by_cases hx : x = w
  · subst hx
    rw [hw]
    exact hself.symm.trans hu
  · rwa [hothers x hx] at hu

/-- **A step in the store**: the worker stays at the row, which is not indexed before and keeps its version. -/
theorem indexInv_store (hs : IndexInv s) {v : Nat} {stage stage' : Stage} {d : Document} (hw : s.workers w = .running v stage)
    (hd : s.row = some d) (hv : d.claimVersion = v) (hrow : s'.row = s.row)
    (hothers : ∀ x, x ≠ w → s'.workers x = s.workers x) (hself : s'.workers w = .running v stage')
    (hstoring : (Worker.running v stage').storing = true) (hholds : stage'.Holds s') : IndexInv s' := by
  have hversion := version_of_update hw hothers (by rw [hself]; rfl)
  have hopen := (hs.current w v stage d hw hd hv).1
  refine ⟨⟨d, hrow.trans hd⟩, fun x u d' hu hd' => hs.bounded x u d' (hversion x u hu) (hrow ▸ hd'),
    fun x y u hx hy => hs.distinct x y u (hversion x u hx) (hversion y u hy), fun x u stage'' d' hx hd' hu => ?_,
    fun x hx => ?_, fun hnone => ?_, fun d' hd' hindexed => ?_⟩
  · rw [hrow, hd] at hd'
    cases hd'
    refine ⟨hopen, ?_⟩
    -- another worker at this version would be this one
    have hxw : x = w := hs.distinct x w v (hversion x v (by rw [hx, ← hu, hv]; rfl)) (by rw [hw]; rfl)
    subst hxw
    rw [hself] at hx
    obtain ⟨-, rfl⟩ := Worker.running.inj hx
    exact hholds
  · by_cases hxw : x = w
    · subst hxw
      refine ⟨d, hrow.trans hd, ?_⟩
      rw [hself, hv]
      rfl
    · rw [hothers x hxw] at hx
      obtain ⟨e, he, hcurrent⟩ := hs.storing x hx
      refine ⟨e, hrow.trans he, ?_⟩
      rwa [hothers x hxw]
  · have hw' := hnone w
    rw [hself, hstoring] at hw'
    cases hw'
  · rw [hrow, hd] at hd'
    cases hd'
    exact absurd hindexed hopen

theorem setWorker_workers_ne {worker : Worker} {x : Nat} (hx : x ≠ w) : (s.setWorker w worker).workers x = s.workers x := by
  simp [State.setWorker, hx]

@[simp] theorem setWorker_workers_self {worker : Worker} : (s.setWorker w worker).workers w = worker := by
  simp [State.setWorker]

theorem indexInv_clears (hs : IndexInv s) {v : Nat} {texts : List String} {ok : Bool} (hw : s.workers w = .running v (.embedding texts))
    (hok : StoreOk s (.clears w ok)) :
    IndexInv ({ s with points := if ok then [] else s.points }.setWorker w (.running v (.cleared texts))) := by
  obtain ⟨hcurrent, hclear⟩ := hok
  obtain ⟨d, hd, hv⟩ := hcurrent.row hw
  refine indexInv_store hs hw hd hv rfl (fun x hx => setWorker_workers_ne hx) setWorker_workers_self rfl ?_
  cases ok
  · exact hclear rfl
  · rfl

theorem indexInv_inserts (hs : IndexInv s) {v : Nat} {texts : List String} (hw : s.workers w = .running v (.cleared texts)) :
    IndexInv ({ s with nextId := s.nextId + texts.length }.setWorker w
      (.running v (.storing texts ⟨s.rows.map ChunkRow.id, chunkRows s.nextId texts⟩ 0))) := by
  obtain ⟨d, hd, hv⟩ := (hs.storing w (by rw [hw]; rfl)).row hw
  refine indexInv_store hs hw hd hv rfl (fun x hx => setWorker_workers_ne hx) setWorker_workers_self rfl ?_
  exact ⟨⟨s.nextId, rfl⟩, fun c hc => List.mem_map_of_mem hc, (hs.current w v _ d hw hd hv).2⟩

theorem indexInv_upserts (hs : IndexInv s) {v stored : Nat} {texts : List String} {session : Session}
    (hw : s.workers w = .running v (.storing texts session stored)) :
    IndexInv ({ s with points := upsert s.points (((session.added.drop stored).take embedBatch).map ChunkRow.point) }.setWorker w
      (.running v (.storing texts session (stored + embedBatch)))) := by
  obtain ⟨d, hd, hv⟩ := (hs.storing w (by rw [hw]; rfl)).row hw
  obtain ⟨⟨n, hadded⟩, hcleared, hpoints⟩ := (hs.current w v _ d hw hd hv).2
  refine indexInv_store hs hw hd hv rfl (fun x hx => setWorker_workers_ne hx) setWorker_workers_self rfl ?_
  refine ⟨⟨n, hadded⟩, hcleared, ?_⟩
  rw [hpoints]
  exact upsert_batch (by rw [hadded]; exact chunkRows_ids n texts) stored embedBatch

/-- **The last write**: the session is committed with the status, and its rows have all their points. -/
theorem indexInv_indexed (hs : IndexInv s) {v stored : Nat} {texts : List String} {session : Session}
    (hw : s.workers w = .running v (.storing texts session stored)) (hall : session.added.length ≤ stored) :
    IndexInv { s.progress w v session (Ingest.Stage.write .indexed) (.executed v { ok := true }) (.executed v claimLost) with
      parsed := if (Ingest.writeProgress s.row v id).2 then texts else s.parsed } := by
  obtain ⟨d, hd, hv⟩ := (hs.storing w (by rw [hw]; rfl)).row hw
  obtain ⟨-, ⟨n, hadded⟩, hcleared, hpoints⟩ := hs.current w v _ d hw hd hv
  have hwrite : ∀ set, Ingest.writeProgress s.row v set = (some (set d), true) := by
    intro set
    simp [Ingest.writeProgress, Ingest.updateWhere, hd, hv]
  unfold State.progress
  simp only [hwrite, commit_all hcleared, if_true]
  have hrows : s.points = session.added.map ChunkRow.point := by
    rw [hpoints, List.take_of_length_le hall]
  have hwhole : s.points.Perm (session.added.map ChunkRow.point) ∧ (session.added.map (·.id)).Nodup := by
    rw [hrows, hadded]
    exact ⟨.refl _, chunkRows_ids n texts⟩
  have hquotes : ∀ x u, (Function.update s.workers w (.executed v { ok := true }) x).version = some u →
      (s.workers x).version = some u :=
    version_of_update hw (fun x hx => Function.update_of_ne hx _ _) (by rw [Function.update_self]; rfl)
  refine ⟨⟨_, rfl⟩, fun x u d' hu hd' => ?_, fun x y u hx hy => hs.distinct x y u (hquotes x u hx) (hquotes y u hy),
    fun x u stage d' hx hd' hu => ?_, fun x hx => ?_, fun _ => hwhole, fun d' _ _ => ⟨hwhole, ?_, ?_⟩⟩
  · cases hd'
    exact hs.bounded x u d (hquotes x u hu) hd
  · -- the only worker at this version has just ended
    cases hd'
    obtain rfl : u = v := hu.symm.trans hv
    have hxw : x = w := hs.distinct x w u (hquotes x u (congrArg Worker.version hx)) (by rw [hw]; rfl)
    subst hxw
    simp [State.setWorker] at hx
  · by_cases hxw : x = w
    · subst hxw
      simp [State.setWorker, Worker.storing] at hx
    · simp only [State.setWorker, Function.update_of_ne hxw] at hx
      obtain ⟨e, he, hcurrent⟩ := hs.storing x hx
      cases hd.symm.trans he
      refine ⟨_, rfl, ?_⟩
      rw [show (Ingest.Stage.indexed.write d).claimVersion = d.claimVersion from rfl]
      simpa only [State.setWorker, Function.update_of_ne hxw] using hcurrent
  · show session.added.map (·.content) = texts
    rw [hadded]
    exact chunkRows_content n texts
  · show session.added.map (·.chunkIndex) = List.range session.added.length
    rw [hadded]
    exact chunkRows_index n texts

/-! ## runs -/

theorem quiet_advance {v : Nat} {stage : Stage} (hw : s.workers w = .running v stage)
    (hstage : (Worker.running v stage).storing = false) (h : advance s w v stage = some s') : Quiet s s' w := by
  cases stage with
  | starting | parsing | split =>
    cases h
    exact quiet_progress hw hstage (fun _ => rfl) (fun _ h => by cases h) ⟨rfl, rfl⟩ ⟨rfl, rfl⟩
  | chunking => cases h
  | embedding texts => cases h
  | cleared texts => cases h
  | storing texts session stored => cases hstage

theorem advance_storing {v stored : Nat} {texts : List String} {session : Session}
    (h : advance s w v (.storing texts session stored) = some s') :
    session.added.length ≤ stored ∧
      s' = { s.progress w v session (Ingest.Stage.write .indexed) (.executed v { ok := true }) (.executed v claimLost) with
        parsed := if (Ingest.writeProgress s.row v id).2 then texts else s.parsed } := by
  replace h : (if session.added.length ≤ stored then _ else none) = some s' := h
  split at h
  next hall => exact ⟨hall, (Option.some.inj h).symm⟩
  next => cases h

theorem session_of_storing_false {v : Nat} {stage : Stage} (h : (Worker.running v stage).storing = false) :
    stage.session = {} := by
  cases stage with
  | storing texts session stored => cases h
  | _ => rfl

theorem indexInv_step (hs : IndexInv s) (hok : StoreOk s act) (h : step cfg name s act = some s') : IndexInv s' := by
  unfold step at h
  cases act with
  | enqueue now resetAttempts =>
    cases h
    refine indexInv_quiet hs (quiet_row 0 ?_)
    rcases Ingest.enqueue_cases s.row now resetAttempts with hsame | ⟨d, hd, -, hnew⟩
    · rw [hsame]
      exact rowKept_refl _
    · rw [hnew]
      exact rowKept_some hd rfl (fun h => by cases h)
  | claim w began now =>
    dsimp only at h
    split at h
    next hidle =>
      rcases Ingest.claimJob_cases cfg s.row (name w) began now with hsame | ⟨d, hd, hfree, hnew⟩
      · rw [hsame] at h
        cases h
        exact hs
      · rw [hnew] at h
        cases h
        exact indexInv_claimed hs hidle hd (hok d hd hfree)
    next => cases h
  | renew w now =>
    obtain ⟨v, -, rfl⟩ := Option.map_eq_some_iff.1 h
    refine indexInv_quiet hs (quiet_row w ?_)
    rcases Ingest.renew_cases cfg s.row (name w) v now with hsame | ⟨d, hd, -, -, hnew⟩
    · rw [hsame]
      exact rowKept_refl _
    · rw [hnew]
      exact rowKept_some hd rfl id
  | advance w =>
    dsimp only at h
    split at h
    next v stage hw =>
      cases hstage : (Worker.running v stage).storing
      · exact indexInv_quiet hs (quiet_advance hw hstage h)
      · cases stage with
        | storing texts session stored =>
          obtain ⟨hall, rfl⟩ := advance_storing h
          exact indexInv_indexed hs hw hall
        | cleared texts => cases h
        | _ => cases hstage
    next => cases h
  | splits w chunkTexts =>
    dsimp only at h
    split at h
    next v hw =>
      split at h
      next => cases h
      next =>
        cases h
        refine indexInv_quiet hs (quiet_worker s.row (rowKept_refl _) (by rw [hw]; rfl) rfl ?_ ?_)
        · intro u hu
          rw [hw]
          exact hu
        · intro u stage hrun
          obtain ⟨rfl, -⟩ := Worker.running.inj hrun
          exact ⟨_, hw⟩
    next => cases h
  | clears w ok =>
    dsimp only at h
    split at h
    next v texts hw =>
      cases h
      exact indexInv_clears hs hw hok
    next => cases h
  | inserts w =>
    dsimp only at h
    split at h
    next v texts hw =>
      cases h
      exact indexInv_inserts hs hw
    next => cases h
  | upserts w =>
    dsimp only at h
    split at h
    next v texts session stored hw =>
      split at h
      next => cases h
      next =>
        cases h
        exact indexInv_upserts hs hw
    next => cases h
  | fails w error retryable =>
    dsimp only at h
    split at h
    next v stage hw =>
      have hstage : (Worker.running v stage).storing = false := hw ▸ hok
      rw [session_of_storing_false hstage] at h
      cases h
      exact indexInv_quiet hs (quiet_progress hw hstage (fun _ => rfl) (fun _ h => by cases h) ⟨rfl, rfl⟩ ⟨rfl, rfl⟩)
    next => cases h
  | returns w error retryable =>
    dsimp only at h
    split at h
    next v stage hw =>
      cases h
      refine indexInv_quiet hs (quiet_ends hok (fun _ _ h => by cases h) (fun u hu => ?_))
      rw [hw]
      exact hu
    next => cases h
  | finishRead w =>
    dsimp only at h
    split at h
    next v outcome hw =>
      have hbefore : (s.workers w).storing = false := by rw [hw]; rfl
      split at h
      · cases h
        refine indexInv_quiet hs (quiet_ends hbefore (fun _ _ h => by cases h) (fun u hu => ?_))
        rw [hw]
        exact hu
      · cases h
        exact indexInv_quiet hs (quiet_ends hbefore (fun _ _ h => by cases h) (fun u hu => by cases hu))
    next => cases h
  | finishWrite w now =>
    dsimp only at h
    split at h
    next v attempts outcome hw =>
      cases h
      refine indexInv_quiet hs (quiet_worker _ ?_ (by rw [hw]; rfl) rfl (fun u hu => by cases hu) (fun u st h => by cases h))
      rcases Ingest.finishWrite_cases cfg s.row (name w) v attempts outcome now with hsame | ⟨d, hd, -, hnew⟩
      · rw [hsame]
        exact rowKept_refl _
      · rw [hnew]
        exact rowKept_some hd (finishValues_kept attempts outcome now d).1 (finishValues_kept attempts outcome now d).2
    next => cases h
  | crash w =>
    cases h
    exact indexInv_quiet hs (quiet_ends hok (fun _ _ h => by cases h) (fun u hu => by cases hu))

theorem points_kept (hclears : ∀ w ok, act ≠ .clears w ok) (hupserts : ∀ w, act ≠ .upserts w)
    (h : step cfg name s act = some s') : s'.points = s.points := by
  unfold step at h
  cases act with
  | clears w ok => exact absurd rfl (hclears w ok)
  | upserts w => exact absurd rfl (hupserts w)
  | enqueue now resetAttempts =>
    cases h
    rfl
  | renew w now =>
    obtain ⟨v, -, rfl⟩ := Option.map_eq_some_iff.1 h
    rfl
  | advance w =>
    dsimp only at h
    split at h
    next v stage hw =>
      cases stage with
      | storing texts session stored =>
        obtain ⟨-, rfl⟩ := advance_storing h
        rfl
      | chunking => cases h
      | embedding texts => cases h
      | cleared texts => cases h
      | _ =>
        cases h
        rfl
    next => cases h
  | crash w =>
    cases h
    rfl
  | _ =>
    dsimp only at h
    split at h
    next =>
      first
      | cases h
        rfl
      | split at h
        next =>
          first
          | cases h
            rfl
          | cases h
        next =>
          cases h
          rfl
    next => cases h

theorem fencedPoints_of_inv (hs : IndexInv s) : FencedPoints cfg name StoreOk s := by
  intro w act s' hact hstale hok h
  refine points_kept (fun x ok hx => ?_) (fun x hx => ?_) h
  · subst hx
    obtain rfl : x = w := hact
    exact hstale hok.1
  · subst hx
    obtain rfl : x = w := hact
    refine hstale (hs.storing x ?_)
    unfold step at h
    dsimp only at h
    split at h
    next hw =>
      rw [hw]
      rfl
    next => cases h

end

/-- **Searchable exactly**, in every run in which pipelines deal with the index under the current claim and to their end. -/
theorem searchable_exactly (cfg : Settings) (name : Nat → String) {s : State} (h : Runs (step cfg name) StoreOk .start s) :
    SearchableExactly s ∧ FencedPoints cfg name StoreOk s := by
  have hs := h.invariant indexInv_start (fun _ _ _ hs hok hstep => indexInv_step hs hok hstep)
  exact ⟨searchable_of_inv hs, fencedPoints_of_inv hs⟩

def wholeAttempt : List Act :=
  [.claim 0 0 0, .advance 0, .advance 0, .splits 0 ["a", "b"], .advance 0, .clears 0 true, .inserts 0, .upserts 0, .advance 0]

theorem searchable_exactly_two_chunks :
    SearchableExactly (play (step {} (fun _ => "ingest")) .start wholeAttempt) ∧
      FencedPoints {} (fun _ => "ingest") StoreOk (play (step {} (fun _ => "ingest")) .start wholeAttempt) := by
  have hcurrent : State.Current (play (step {} (fun _ => "ingest")) .start (wholeAttempt.take 5)) 0 := ⟨_, rfl, rfl⟩
  exact searchable_exactly {} (fun _ => "ingest")
    (.next (.advance 0) (.next (.upserts 0) (.next (.inserts 0) (.next (.clears 0 true) (.next (.advance 0)
      (.next (.splits 0 ["a", "b"]) (.next (.advance 0) (.next (.advance 0) (.next (.claim 0 0 0) .refl
      (fun _ _ _ _ => rfl) rfl) trivial rfl) trivial rfl) trivial rfl) trivial rfl)
      ⟨hcurrent, fun h => by cases h⟩ rfl) trivial rfl) trivial rfl) trivial rfl)

def failedAttempt : List Act :=
  [.claim 0 0 0, .advance 0, .advance 0, .splits 0 ["a", "b"], .advance 0, .clears 0 true, .inserts 0, .fails 0 "503" true]

/-- **A part is left behind**: writing that the attempt failed commits its rows, and they have no points. -/
theorem failed_attempt_leaves_partial :
    ¬ ∀ (cfg : Settings) (name : Nat → String) (s : State), Reaches (step cfg name) .start s →
      SearchableExactly s ∧ FencedPoints cfg name (fun _ _ => True) s := by
  intro h
  have hs := (h {} (fun _ => "ingest") (play (step {} (fun _ => "ingest")) .start failedAttempt) (reaches_play (by decide))).1
  have hidle : ∀ w, ((play (step {} (fun _ => "ingest")) .start failedAttempt).workers w).storing = false := by
    intro w
    cases w with
    | zero => rfl
    | succ n => rfl
  have hlength := (hs.left (fun w _ => hidle w)).1.length_eq
  exact absurd hlength (by decide)

end Index
end MyGpt
