import MyGpt.Lib.Trace
import Mathlib.Logic.Function.Basic
/-!
# TurnMemory — the passes over finished turns and the sweeper that makes up for lost ones

`commit_turn` as the inline path, the durable worker and `MemorySweeper` call it.  The anchor and the work are in one
transaction; the INSERT of the anchor waits for an equal anchor that is not committed yet and fails on one that is.  The
anchor is unique and stands or falls with the work, so no turn is committed twice and a failed commit leaves nothing.
Nothing keeps the sweeper from a message that is still being streamed: what it commits then, the pass after the turn finds
already committed.
-/
namespace MyGpt
namespace Memory

structure Message where
  conversation : Nat
  createdAt : Int
  final : Bool
  deriving DecidableEq

/-- The path of a turn that ends with `done`. -/
inductive Path
  /-- `commit_turn_detached` in a task. -/
  | inline
  | durable
  deriving DecidableEq

/-- A call of `commit_turn`; `atEnd` says whether the message was final when the call loaded it. -/
inductive Call
  | idle
  | loaded (message : Nat) (atEnd : Bool)
  | anchored (message : Nat) (atEnd : Bool)
  | over
  deriving DecidableEq

structure Effect where
  message : Nat
  atEnd : Bool
  deriving DecidableEq

structure State where
  messages : List Message
  due : List (Path × Nat)
  todo : Nat → List Nat
  calls : Nat → Call
  pending : List (Nat × Nat)
  /-- The `commit_turn` events. -/
  anchors : List Nat
  effects : List Effect
  /-- The messages whose calls ended with `already_committed`. -/
  skipped : List Nat

def State.start : State := ⟨[], [], fun _ => [], fun _ => .idle, [], [], [], []⟩

inductive Act
  | streams (conversation : Nat) (createdAt : Int)
  /-- The last write of the content; the turn ends with `done` on a path, or in any other way. -/
  | finishes (message : Nat) (path : Option Path)
  | loses (path : Path) (message : Nat)
  | passes (k : Nat) (path : Path) (message : Nat)
  | selects (w : Nat) (since : Int) (rows : List Nat)
  | sweeps (k w : Nat)
  | anchors (k : Nat)
  | commits (k : Nat)
  | breaks (k : Nat)
  | stops (w : Nat)

def State.isFinal (s : State) (message : Nat) : Bool := (s.messages[message]?).any (·.final)

def State.latest (s : State) (since : Int) (message : Nat) : Bool :=
  (s.messages[message]?).any (fun m => since ≤ m.createdAt &&
    s.messages.all (fun other => other.conversation ≠ m.conversation || other.createdAt ≤ m.createdAt))

/-- What the query of `run_once` selects. -/
def State.eligible (s : State) (since : Int) (message : Nat) : Bool := s.latest since message && !s.anchors.contains message

def State.setCall (s : State) (k : Nat) (call : Call) : State := { s with calls := Function.update s.calls k call }

def State.close (s : State) (k : Nat) : State :=
  { s with pending := s.pending.filter (fun p => p.1 ≠ k), calls := Function.update s.calls k .over }

def State.commit (s : State) (k message : Nat) (atEnd : Bool) : State :=
  let closed := s.close k
  { closed with anchors := s.anchors ++ [message], effects := s.effects ++ [⟨message, atEnd⟩] }

/-- The steps; `batch` is `MEMORY_SWEEP_BATCH`. -/
def step (batch : Nat) (s : State) : Act → Option State
  | .streams conversation createdAt => some { s with messages := s.messages ++ [⟨conversation, createdAt, false⟩] }
  | .finishes message path =>
    match s.messages[message]? with
    | some m =>
      if m.final then none
      else some { s with
        messages := s.messages.modify message (fun m => { m with final := true })
        due := path.toList.map (fun path => (path, message)) ++ s.due }
    | none => none
  | .loses path message => some { s with due := s.due.erase (path, message) }
  | .passes k path message =>
    match s.calls k with
    | .idle =>
      if s.due.contains (path, message) then
        let begun : State := { s with due := s.due.erase (path, message) }
        some (begun.setCall k (.loaded message (s.isFinal message)))
      else none
    | _ => none
  | .selects w since rows =>
    if s.todo w = [] ∧ rows.length ≤ batch ∧ rows.all (s.eligible since) = true then
      some { s with todo := Function.update s.todo w rows }
    else none
  | .sweeps k w =>
    match s.calls k, s.todo w with
    | .idle, message :: rows =>
      let begun : State := { s with todo := Function.update s.todo w rows }
      some (begun.setCall k (.loaded message (s.isFinal message)))
    | _, _ => none
  | .anchors k =>
    match s.calls k with
    | .loaded message atEnd =>
      if s.anchors.contains message then
        let skips : State := { s with skipped := message :: s.skipped }
        some (skips.setCall k .over)
      else if s.pending.any (fun p => p.2 = message) then none
      else
        let inserted : State := { s with pending := (k, message) :: s.pending }
        some (inserted.setCall k (.anchored message atEnd))
    | _ => none
  | .commits k =>
    match s.calls k with
    | .anchored message atEnd => some (s.commit k message atEnd)
    | _ => none
  | .breaks k =>
    match s.calls k with
    | .loaded _ _ => some (s.close k)
    | .anchored _ _ => some (s.close k)
    | _ => none
  | .stops w => some { s with todo := Function.update s.todo w [] }

/-! ## what is asked for -/

/-- **The contract of turn memory.** -/
structure Sound (s : State) : Prop where
  once : (s.effects.map (·.message)).Nodup
  final : ∀ e ∈ s.effects, e.atEnd = true
  skipped : ∀ message ∈ s.skipped, ∃ e ∈ s.effects, e.message = message ∧ e.atEnd = true
  anchored : ∀ message, message ∈ s.anchors ↔ ∃ e ∈ s.effects, e.message = message
  again : ∀ since message, s.latest since message = true → (∀ e ∈ s.effects, e.message ≠ message) →
    s.eligible since message = true

/-- **The condition**: a sweep does not come to a message that is still being streamed. -/
def StepOk (s : State) : Act → Prop
  | .sweeps _ w => ∀ message, (s.todo w).head? = some message → s.isFinal message = true
  | _ => True

/-! ## the invariant -/

def Call.atEnd : Call → Bool
  | .loaded _ atEnd => atEnd
  | .anchored _ atEnd => atEnd
  | _ => true

structure Inv (s : State) : Prop where
  due : ∀ p ∈ s.due, s.isFinal p.2 = true
  calls : ∀ k, (s.calls k).atEnd = true
  rows : ∀ k message atEnd, s.calls k = .anchored message atEnd → (k, message) ∈ s.pending
  pending : ∀ p ∈ s.pending, ∃ atEnd, s.calls p.1 = .anchored p.2 atEnd
  one : ∀ p ∈ s.pending, ∀ q ∈ s.pending, p.2 = q.2 → p = q
  open_ : ∀ p ∈ s.pending, p.2 ∉ s.anchors
  events : s.anchors = s.effects.map (·.message)
  nodup : s.anchors.Nodup
  final : ∀ e ∈ s.effects, e.atEnd = true
  skipped : ∀ message ∈ s.skipped, message ∈ s.anchors

section steps

variable {s : State} {batch : Nat}

theorem isFinal_append {m : Message} {message : Nat} (h : s.isFinal message = true) :
    State.isFinal { s with messages := s.messages ++ [m] } message = true := by
  obtain ⟨found, hfound, hfinal⟩ := (Option.any_eq_true _ _).1 h
  have hlt := (List.getElem?_eq_some_iff.1 hfound).1
  apply (Option.any_eq_true _ _).2
  exact ⟨found, by simpa [List.getElem?_append_left hlt] using hfound, hfinal⟩

theorem isFinal_modify {message other : Nat} (h : s.isFinal message = true) :
    State.isFinal { s with messages := s.messages.modify other (fun m => { m with final := true }) } message = true := by
  obtain ⟨found, hfound, hfinal⟩ := (Option.any_eq_true _ _).1 h
  unfold State.isFinal
  rw [List.getElem?_modify, hfound]
  by_cases hother : other = message
  · simp [hother]
  · simp [hother, hfinal]

theorem isFinal_finished {message : Nat} {m : Message} (h : s.messages[message]? = some m) :
    State.isFinal { s with messages := s.messages.modify message (fun m => { m with final := true }) } message = true := by
  unfold State.isFinal
  rw [List.getElem?_modify, h]
  simp

theorem Inv.outside (h : Inv s) {s' : State} (hcalls : s'.calls = s.calls) (hpending : s'.pending = s.pending)
    (hanchors : s'.anchors = s.anchors) (heffects : s'.effects = s.effects) (hskipped : s'.skipped = s.skipped)
    (hdue : ∀ p ∈ s'.due, s'.isFinal p.2 = true) : Inv s' := by
  refine ⟨hdue, ?_, ?_, ?_, ?_, ?_, ?_, ?_, ?_, ?_⟩
  · rw [hcalls]
    exact h.calls
  · rw [hcalls, hpending]
    exact h.rows
  · rw [hcalls, hpending]
    exact h.pending
  · rw [hpending]
    exact h.one
  · rw [hpending, hanchors]
    exact h.open_
  · rw [hanchors, heffects]
    exact h.events
  · rw [hanchors]
    exact h.nodup
  · rw [heffects]
    exact h.final
  · rw [hskipped, hanchors]
    exact h.skipped

theorem Inv.setCall (h : Inv s) {k : Nat} {call : Call} (hnot : ∀ message atEnd, s.calls k ≠ .anchored message atEnd)
    (hend : call.atEnd = true) (hcall : ∀ message atEnd, call ≠ .anchored message atEnd) : Inv (s.setCall k call) := by
  refine { h with calls := ?_, rows := ?_, pending := ?_ }
  · intro k'
    by_cases hk : k' = k
    · subst hk
      simpa [State.setCall] using hend
    · simpa [State.setCall, hk] using h.calls k'
  · intro k' message atEnd hat
    by_cases hk : k' = k
    · subst hk
      exact absurd (by simpa [State.setCall] using hat) (hcall message atEnd)
    · exact h.rows k' message atEnd (by simpa [State.setCall, hk] using hat)
  · intro p hp
    obtain ⟨atEnd, hat⟩ := h.pending p hp
    have hne : p.1 ≠ k := by
      rintro rfl
      exact hnot p.2 atEnd hat
    exact ⟨atEnd, by simpa [State.setCall, hne] using hat⟩

theorem Inv.close (h : Inv s) (k : Nat) : Inv (s.close k) := by
  refine ⟨h.due, ?_, ?_, ?_, ?_, ?_, h.events, h.nodup, h.final, h.skipped⟩
  · intro k'
    by_cases hk : k' = k
    · subst hk
      simp [State.close, Call.atEnd]
    · simpa [State.close, hk] using h.calls k'
  · intro k' message atEnd hat
    by_cases hk : k' = k
    · subst hk
      simp [State.close] at hat
    · have hrow := h.rows k' message atEnd (by simpa [State.close, hk] using hat)
      exact List.mem_filter.2 ⟨hrow, by simpa using hk⟩
  · intro p hp
    obtain ⟨hold, hne⟩ := List.mem_filter.1 hp
    obtain ⟨atEnd, hat⟩ := h.pending p hold
    have hnk : p.1 ≠ k := by simpa using hne
    exact ⟨atEnd, by simpa [State.close, hnk] using hat⟩
  · intro p hp q hq
    exact h.one p (List.mem_filter.1 hp).1 q (List.mem_filter.1 hq).1
  · intro p hp
    exact h.open_ p (List.mem_filter.1 hp).1

theorem Inv.commit (h : Inv s) {k message : Nat} {atEnd : Bool} (hcall : s.calls k = .anchored message atEnd) :
    Inv (s.commit k message atEnd) := by
  have hclosed := h.close k
  have hrow := h.rows k message atEnd hcall
  have hnew := h.open_ _ hrow
  have hend : atEnd = true := by
    have hat := h.calls k
    rwa [hcall] at hat
  refine ⟨hclosed.due, hclosed.calls, hclosed.rows, hclosed.pending, hclosed.one, ?_, ?_, ?_, ?_, ?_⟩
  · intro p hp hin
    obtain ⟨hold, hne⟩ := List.mem_filter.1 hp
    rcases List.mem_append.1 hin with hin | hin
    · exact h.open_ p hold hin
    · -- the only row of this message was the call's own
      have hsame := h.one p hold (k, message) hrow (List.mem_singleton.1 hin)
      simp [hsame] at hne
  · simp [State.commit, h.events]
  · refine List.nodup_append.2 ⟨h.nodup, by simp, ?_⟩
    intro a ha b hb
    rw [List.mem_singleton] at hb
    subst hb
    rintro rfl
    exact hnew ha
  · intro e he
    rcases List.mem_append.1 he with he | he
    · exact h.final e he
    · rw [List.mem_singleton] at he
      subst he
      exact hend
  · intro m hm
    exact List.mem_append_left _ (h.skipped m hm)

theorem Inv.anchors (h : Inv s) {s' : State} {k : Nat} (hstep : step batch s (.anchors k) = some s') : Inv s' := by
  simp only [step] at hstep
  split at hstep
  · rename_i message atEnd hloaded
    have hnot : ∀ m e, s.calls k ≠ .anchored m e := by simp [hloaded]
    split at hstep
    next hcommitted =>
      cases hstep
      have hin : message ∈ s.anchors := by simpa using hcommitted
      have hskips : Inv { s with skipped := message :: s.skipped } := by
        refine { h with skipped := ?_ }
        intro m hm
        rcases List.mem_cons.1 hm with rfl | hm
        · exact hin
        · exact h.skipped m hm
      exact hskips.setCall hnot rfl (by simp)
    next hnew =>
      split at hstep
      · cases hstep
      next hfree =>
        cases hstep
        simp only [Bool.not_eq_true, List.any_eq_false, decide_eq_true_eq] at hfree
        refine ⟨h.due, ?_, ?_, ?_, ?_, ?_, h.events, h.nodup, h.final, h.skipped⟩
        · intro k'
          by_cases hk : k' = k
          · subst hk
            have hat := h.calls k'
            rw [hloaded] at hat
            simpa [State.setCall, Call.atEnd] using hat
          · simpa [State.setCall, hk] using h.calls k'
        · intro k' m e hat
          by_cases hk : k' = k
          · subst hk
            obtain ⟨rfl, -⟩ := Call.anchored.inj (by simpa [State.setCall] using hat)
            exact List.mem_cons_self
          · exact List.mem_cons_of_mem _ (h.rows k' m e (by simpa [State.setCall, hk] using hat))
        · intro p hp
          rcases List.mem_cons.1 hp with rfl | hp
          · exact ⟨atEnd, by simp [State.setCall]⟩
          · obtain ⟨e, hat⟩ := h.pending p hp
            have hne : p.1 ≠ k := by
              intro heq
              rw [heq] at hat
              exact hnot p.2 e hat
            exact ⟨e, by simpa [State.setCall, hne] using hat⟩
        · intro p hp q hq heq
          rcases List.mem_cons.1 hp with rfl | hp
          · rcases List.mem_cons.1 hq with rfl | hq
            · rfl
            · exact absurd heq.symm (hfree q hq)
          · rcases List.mem_cons.1 hq with rfl | hq
            · exact absurd heq (hfree p hp)
            · exact h.one p hp q hq heq
        · intro p hp
          rcases List.mem_cons.1 hp with rfl | hp
          · have hfresh : message ∉ s.anchors := by simpa using hnew
            exact hfresh
          · exact h.open_ p hp
  · cases hstep

theorem Inv.step (h : Inv s) (act : Act) (hok : StepOk s act) {s' : State} (hstep : step batch s act = some s') : Inv s' := by
  cases act with
  | streams conversation createdAt =>
    cases hstep
    exact h.outside rfl rfl rfl rfl rfl (fun p hp => isFinal_append (h.due p hp))
  | finishes message path =>
    simp only [Memory.step] at hstep
    split at hstep
    · rename_i m hm
      split at hstep
      · cases hstep
      · cases hstep
        refine h.outside rfl rfl rfl rfl rfl ?_
        intro p hp
        rcases List.mem_append.1 hp with hp | hp
        · obtain ⟨path, -, rfl⟩ := List.mem_map.1 hp
          exact isFinal_finished hm
        · exact isFinal_modify (h.due p hp)
    · cases hstep
  | loses path message =>
    cases hstep
    exact h.outside rfl rfl rfl rfl rfl (fun p hp => h.due p (List.mem_of_mem_erase hp))
  | passes k path message =>
    simp only [Memory.step] at hstep
    split at hstep
    next hidle =>
      split at hstep
      next hdue =>
        cases hstep
        have hfinal := h.due (path, message) (by simpa using hdue)
        have hbegun : Inv { s with due := s.due.erase (path, message) } :=
          h.outside rfl rfl rfl rfl rfl (fun p hp => h.due p (List.mem_of_mem_erase hp))
        exact hbegun.setCall (by simp [hidle]) hfinal (by simp)
      · cases hstep
    · cases hstep
  | selects w since rows =>
    simp only [Memory.step] at hstep
    split at hstep
    · cases hstep
      exact h.outside rfl rfl rfl rfl rfl h.due
    · cases hstep
  | sweeps k w =>
    simp only [Memory.step] at hstep
    split at hstep
    · rename_i message rows hidle htodo
      cases hstep
      have hbegun : Inv { s with todo := Function.update s.todo w rows } := h.outside rfl rfl rfl rfl rfl h.due
      exact hbegun.setCall (by simp [hidle]) (hok message (by simp [htodo])) (by simp)
    · cases hstep
  | anchors k => exact h.anchors hstep
  | commits k =>
    simp only [Memory.step] at hstep
    split at hstep
    · rename_i message atEnd hcall
      cases hstep
      exact h.commit hcall
    · cases hstep
  | breaks k =>
    simp only [Memory.step] at hstep
    split at hstep
    · cases hstep
      exact h.close k
    · cases hstep
      exact h.close k
    · cases hstep
  | stops w =>
    cases hstep
    exact h.outside rfl rfl rfl rfl rfl h.due

end steps

theorem Inv.start : Inv State.start := by
  refine ⟨?_, ?_, ?_, ?_, ?_, ?_, ?_, ?_, ?_, ?_⟩
  all_goals simp [State.start, Call.atEnd]

/-- **Turn memory is committed once, from the finished turn**, in every run in which no sweep comes to a message that is
still being streamed. -/
theorem memory_once (batch : Nat) {s : State} (h : Trace.Runs (step batch) StepOk State.start s) : Sound s := by
  have hinv : Inv s := h.invariant Inv.start (fun s act s' hs hok hstep => hs.step act hok hstep)
  have hanchored : ∀ message, message ∈ s.anchors ↔ ∃ e ∈ s.effects, e.message = message := by
    intro message
    rw [hinv.events, List.mem_map]
  refine ⟨?_, hinv.final, ?_, hanchored, ?_⟩
  · rw [← hinv.events]
    exact hinv.nodup
  · intro message hskipped
    obtain ⟨e, he, hmessage⟩ := (hanchored message).1 (hinv.skipped message hskipped)
    exact ⟨e, he, hmessage, hinv.final e he⟩
  · intro since message hlatest hnone
    have hopen : message ∉ s.anchors := by
      intro hin
      obtain ⟨e, he, hmessage⟩ := (hanchored message).1 hin
      exact hnone e he hmessage
    simp [State.eligible, hlatest, hopen]

def madeUp : List Act :=
  [.streams 0 5, .finishes 0 (some .inline), .passes 0 .inline 0, .anchors 0, .breaks 0, .selects 0 0 [0], .sweeps 1 0,
    .anchors 1, .commits 1]

theorem memory_once_madeUp : Sound (Trace.play (step 20) State.start madeUp) := by
  let at_ (n : Nat) : State := Trace.play (step 20) State.start (madeUp.take n)
  have hstreams : Trace.Runs (step 20) StepOk State.start (at_ 1) := Trace.Runs.refl.next (Act.streams 0 5) trivial rfl
  have hfinished : Trace.Runs (step 20) StepOk State.start (at_ 2) :=
    hstreams.next (Act.finishes 0 (some .inline)) trivial rfl
  have hpasses : Trace.Runs (step 20) StepOk State.start (at_ 3) := hfinished.next (Act.passes 0 .inline 0) trivial rfl
  have hanchors : Trace.Runs (step 20) StepOk State.start (at_ 4) := hpasses.next (Act.anchors 0) trivial rfl
  have hbroken : Trace.Runs (step 20) StepOk State.start (at_ 5) := hanchors.next (Act.breaks 0) trivial rfl
  have hselected : Trace.Runs (step 20) StepOk State.start (at_ 6) := hbroken.next (Act.selects 0 0 [0]) trivial rfl
  have hswept : Trace.Runs (step 20) StepOk State.start (at_ 7) := by
    refine hselected.next (Act.sweeps 1 0) ?_ rfl
    intro message hhead
    obtain rfl : 0 = message := Option.some.inj hhead
    rfl
  have hsecond : Trace.Runs (step 20) StepOk State.start (at_ 8) := hswept.next (Act.anchors 1) trivial rfl
  have hcommits : Trace.Runs (step 20) StepOk State.start (at_ 9) := hsecond.next (Act.commits 1) trivial rfl
  exact memory_once 20 hcommits

def tooEarly : List Act :=
  [.streams 0 5, .selects 0 0 [0], .sweeps 0 0, .anchors 0, .commits 0, .finishes 0 (some .inline), .passes 1 .inline 0,
    .anchors 1]

/-- **The pass after the turn finds the turn committed**, from a message that was not finished. -/
theorem swept_while_streaming : ¬ ∀ s, Trace.Reaches (step 20) State.start s → Sound s := by
  intro hall
  have hreaches : Trace.Reaches (step 20) State.start (Trace.play (step 20) State.start tooEarly) :=
    Trace.reaches_play (by decide)
  have hearly := (hall _ hreaches).final ⟨0, false⟩ (by decide)
  cases hearly

end Memory
end MyGpt
