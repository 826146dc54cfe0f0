import MyGpt.WorkflowEngine
import MyGpt.Lib.Tally
/-!
# EngineSchedule — what every schedule of a round respects

In a round whose skipped steps have the observation they carry, and for every order in which its tasks go on, the
executor is called for a step only with the observations of its dependencies in place (`step_calls`), never downstream of
a failed step, at most `max_retries + 1` times, and by at most `limit` tasks at once; the round is over after a bounded
number of steps and reports a failed step exactly when some task returned no observation (`schedule_safe`).
-/
namespace MyGpt
namespace Workflow

open Trace (Runs Reaches exec play reaches_play)

/-! ## what a step of a task does -/

/-- The step runs: `before_step` returned, or there is none and no dependency failed. -/
def Begins (st : Step) (r : Round) : Prop :=
  r.tasks st.id = .before ∨
    (r.tasks st.id = .waiting ∧ ∀ dep ∈ st.dependencies, r.eventSet dep = true ∧ r.failed dep = false)

inductive TaskMove (cfg : Settings) (st : Step) (r : Round) : TaskAct → Round → Prop
  | dependencyFailed (dep : String) : r.tasks st.id = .waiting → dep ∈ st.dependencies → r.failed dep = true →
      TaskMove cfg st r .proceed (r.failStep st.id)
  | before : r.tasks st.id = .waiting → (∀ dep ∈ st.dependencies, r.eventSet dep = true ∧ r.failed dep = false) →
      TaskMove cfg st r .proceed (r.setTask st.id .before)
  | number (act : TaskAct) : Begins st r → st.skip = false → TaskMove cfg st r act (r.setTask st.id .numbering)
  | carry (act : TaskAct) (obs : StepObservation) (task : Task) : Begins st r → r.observations st.id = some obs →
      task = .replaying obs ∨ task = .done (some obs) →
      TaskMove cfg st r act { r.setTask st.id task with eventSet := Function.update r.eventSet st.id true }
  | carryNothing (act : TaskAct) : Begins st r → st.skip = true → r.observations st.id = none →
      TaskMove cfg st r act { r.setTask st.id (.done none) with eventSet := Function.update r.eventSet st.id true }
  | refused : r.tasks st.id = .before → TaskMove cfg st r .refused (r.abort st.id .raised .raised)
  | numbered : r.tasks st.id = .numbering →
      TaskMove cfg st r .numbered (r.setTask st.id (.opening 1 (dependencyView st r.observations)))
  | acquire (attempt : Nat) (upstream : View) : r.tasks st.id = .opening attempt upstream → r.inFlight < cfg.limit →
      TaskMove cfg st r .acquire
        { r.setTask st.id (.executing attempt upstream) with
          inFlight := r.inFlight + 1
          peak := max r.peak (r.inFlight + 1)
          calls := r.calls ++ [⟨st.id, attempt, upstream⟩] }
  | returned (attempt : Nat) (upstream : View) (obs : StepObservation) : r.tasks st.id = .executing attempt upstream →
      TaskMove cfg st r (.executed (.returns obs))
        { r.setTask st.id (.closing (obs.counted attempt)) with inFlight := r.inFlight - 1 }
  | failed (attempt : Nat) (upstream : View) (exc : StepFailure) (transient : Bool) :
      r.tasks st.id = .executing attempt upstream →
      (transient = true → (attempt : Int) ≤ st.retryPolicy.maxRetries) →
      TaskMove cfg st r (.executed (.raises exc))
        { r.setTask st.id (.failing attempt upstream transient) with inFlight := r.inFlight - 1 }
  | closed (obs : StepObservation) : r.tasks st.id = .closing obs →
      TaskMove cfg st r .closed (r.finishStep st.id obs)
  | retry (attempt : Nat) (upstream : View) : r.tasks st.id = .failing attempt upstream true →
      TaskMove cfg st r .recorded (r.setTask st.id (.opening (attempt + 1) upstream))
  | gaveUp (attempt : Nat) (upstream : View) : r.tasks st.id = .failing attempt upstream false →
      TaskMove cfg st r .recorded (r.failStep st.id)
  | replayed (carried : StepObservation) : r.tasks st.id = .replaying carried →
      TaskMove cfg st r .replayed (r.setTask st.id (.done (some carried)))
  | cancelled (act : TaskAct) : (r.tasks st.id).over = false → act = .cancelled ∨ r.stopping = true →
      TaskMove cfg st r act (r.abort st.id .cancelled .cancelled)

theorem begin_move {cfg : Settings} {st : Step} {r : Round} (act : TaskAct) (h : Begins st r) :
    TaskMove cfg st r act (r.begin cfg st) := by
  unfold Round.begin
  cases hskip : st.skip with
  | false => exact .number act h hskip
  | true =>
    cases hobs : r.observations st.id with
    | none => exact .carryNothing act h hskip hobs
    | some obs =>
      refine .carry act obs _ h hobs ?_
      dsimp only
      split
      · exact .inl rfl
      · exact .inr rfl

theorem awaitsOthers_over {task : Task} (h : task.awaitsOthers = true) : task.over = false := by
  cases task <;> first | rfl | cases h

theorem taskStep_move {cfg : Settings} {st : Step} {r r' : Round} {act : TaskAct}
    (h : taskStep cfg st r act = some r') : TaskMove cfg st r act r' := by
  cases act with
  | proceed =>
    simp only [taskStep] at h
    split at h
    · rename_i ht
      split at h
      · rename_i hset
        rw [List.all_eq_true] at hset
        split at h
        · rename_i hfailed
          obtain ⟨dep, hdep, hf⟩ := List.any_eq_true.1 hfailed
          cases h
          exact .dependencyFailed dep ht hdep hf
        · rename_i hfailed
          have hdeps : ∀ dep ∈ st.dependencies, r.eventSet dep = true ∧ r.failed dep = false := by
            intro dep hdep
            refine ⟨hset dep hdep, ?_⟩
            rw [← Bool.not_eq_true]
            exact fun hf => hfailed (List.any_eq_true.2 ⟨dep, hdep, hf⟩)
          split at h
          · cases h
            exact .before ht hdeps
          · cases h
            exact begin_move _ (.inr ⟨ht, hdeps⟩)
      · cases h
    · cases h
  | permitted =>
    simp only [taskStep] at h
    split at h
    · rename_i ht
      cases h
      exact begin_move _ (.inl ht)
    · cases h
  | refused =>
    simp only [taskStep] at h
    split at h
    · rename_i ht
      cases h
      exact .refused ht
    · cases h
  | numbered =>
    simp only [taskStep] at h
    split at h
    · rename_i ht
      cases h
      exact .numbered ht
    · cases h
  | acquire =>
    simp only [taskStep] at h
    split at h
    · rename_i attempt upstream ht
      split at h
      · rename_i hfree
        cases h
        exact .acquire attempt upstream ht hfree
      · cases h
    · cases h
  | executed outcome =>
    simp only [taskStep] at h
    split at h
    · rename_i attempt upstream ht
      cases outcome with
      | returns obs =>
        cases h
        exact .returned attempt upstream obs ht
      | raises exc =>
        cases h
        refine .failed attempt upstream exc _ ht (fun htr => ?_)
        rw [Bool.and_eq_true, decide_eq_true_eq] at htr
        exact htr.2
    · cases h
  | closed =>
    simp only [taskStep] at h
    split at h
    · rename_i obs ht
      cases h
      exact .closed obs ht
    · cases h
  | recorded =>
    simp only [taskStep] at h
    split at h
    · rename_i attempt upstream ht
      cases h
      exact .retry attempt upstream ht
    · rename_i attempt upstream ht
      cases h
      exact .gaveUp attempt upstream ht
    · cases h
  | replayed =>
    simp only [taskStep] at h
    split at h
    · rename_i carried ht
      cases h
      exact .replayed carried ht
    · cases h
  | cancelled =>
    obtain ⟨hawaits, ⟨⟩⟩ := Option.ite_none_right_eq_some.1 h
    exact .cancelled _ (awaitsOthers_over hawaits) (.inl rfl)
  | stopped =>
    obtain ⟨hstop, ⟨⟩⟩ := Option.ite_none_right_eq_some.1 h
    rw [Bool.and_eq_true, Bool.not_eq_true'] at hstop
    exact .cancelled _ hstop.2 (.inr hstop.1)

/-! ## the invariant of one step of the plan -/

def Task.begun : Task → Bool
  | .waiting | .done none | .raised | .cancelled => false
  | _ => true

def Task.viewIs (view : View) : Task → Prop
  | .opening _ upstream | .executing _ upstream | .failing _ upstream _ => upstream = view
  | _ => True

def Task.callsOk (limit calls : Nat) : Task → Prop
  | .waiting | .before | .numbering => calls = 0
  | .opening attempt _ => calls + 1 = attempt ∧ attempt ≤ limit
  | .executing attempt _ => calls = attempt ∧ attempt ≤ limit
  | .failing attempt _ true => calls = attempt ∧ attempt + 1 ≤ limit
  | _ => calls ≤ limit

def Step.attempts (st : Step) : Nat := st.retryPolicy.maxRetries.toNat + 1

def Round.callsOf (r : Round) (sid : String) : List Invocation := r.calls.filter (fun c => c.stepId == sid)

def Round.produced (r : Round) (sid : String) : Prop := r.eventSet sid = true ∧ r.failed sid = false

structure StepInv (r : Round) (st : Step) : Prop where
  eventOver : r.eventSet st.id = true → (r.tasks st.id).over = true ∨ ∃ obs, r.tasks st.id = .replaying obs
  notRaised : r.eventSet st.id = true → r.tasks st.id ≠ .raised
  doneEvent : ∀ result, r.tasks st.id = .done result → r.eventSet st.id = true
  replayEvent : ∀ obs, r.tasks st.id = .replaying obs → r.eventSet st.id = true
  failedDone : r.failed st.id = true ↔ r.tasks st.id = .done none
  observed : r.produced st.id → (r.observations st.id).isSome
  value : ∀ obs, r.tasks st.id = .replaying obs ∨ r.tasks st.id = .done (some obs) → r.observations st.id = some obs
  carried : st.skip = true → (r.observations st.id).isSome
  depsProduced : (r.tasks st.id).begun = true ∨ r.callsOf st.id ≠ [] ∨ r.produced st.id →
    ∀ dep ∈ st.dependencies, r.produced dep
  view : (r.tasks st.id).viewIs (dependencyView st r.observations)
  calls : (r.tasks st.id).callsOk st.attempts (r.callsOf st.id).length

def Task.running : Task → Bool
  | .replaying _ => false
  | task => !task.over

theorem StepInv.unset {r : Round} {st : Step} (hi : StepInv r st) (h : (r.tasks st.id).running = true) :
    r.eventSet st.id = false := by
  rw [← Bool.not_eq_true]
  intro hset
  rcases hi.eventOver hset with hover | ⟨obs, hobs⟩
  · cases htask : r.tasks st.id <;> simp [htask, Task.running, Task.over] at h hover
  · rw [hobs] at h
    cases h

/-- What a move of the step `sid` leaves alone. -/
structure Keeps (sid : String) (r r' : Round) : Prop where
  others : ∀ x, x ≠ sid → r'.tasks x = r.tasks x ∧ r'.eventSet x = r.eventSet x ∧ r'.failed x = r.failed x ∧
    r'.callsOf x = r.callsOf x
  settled : ∀ x, x ≠ sid ∨ r.eventSet x = true →
    (r.eventSet x = true → r'.eventSet x = true) ∧ r'.failed x = r.failed x ∧ r'.observations x = r.observations x
  observed : ∀ x, (r.observations x).isSome → (r'.observations x).isSome

theorem Keeps.produced {sid : String} {r r' : Round} (hk : Keeps sid r r') {x : String} (h : r.produced x) :
    r'.produced x := by
  obtain ⟨hset, hfailed, -⟩ := hk.settled x (.inr h.1)
  exact ⟨hset h.1, hfailed.trans h.2⟩

theorem callsOf_append {r r' : Round} {c : Invocation} (h : r'.calls = r.calls ++ [c]) {x : String}
    (hne : c.stepId ≠ x) : r'.callsOf x = r.callsOf x := by
  simp [Round.callsOf, h, hne]

theorem callsOf_append_self {r r' : Round} {c : Invocation} (h : r'.calls = r.calls ++ [c]) :
    r'.callsOf c.stepId = r.callsOf c.stepId ++ [c] := by
  simp [Round.callsOf, h]

section
variable {cfg : Settings} {st : Step} {r r' : Round} {act : TaskAct}

theorem setTask_keeps (sid : String) (task : Task) : Keeps sid r (r.setTask sid task) := by
  refine ⟨fun x hx => ⟨Function.update_of_ne hx _ _, rfl, rfl, rfl⟩, fun x _ => ⟨id, rfl, rfl⟩, fun x => id⟩

/-- **A move of one step** leaves the other steps, the events that are set and what their steps produced. -/
theorem move_keeps (h : TaskMove cfg st r act r') (hi : StepInv r st) : Keeps st.id r r' := by
  have hother : ∀ {β : Type} (f : String → β) (b : β) (x : String), x ≠ st.id → Function.update f st.id b x = f x :=
    fun f b x hx => Function.update_of_ne hx b f
  -- a task that sets its event finds it unset
  have hsets : (r.tasks st.id).running = true → ∀ x, x ≠ st.id ∨ r.eventSet x = true → x ≠ st.id := by
    intro hrun x hx heq
    subst heq
    rcases hx with hx | hx
    · exact hx rfl
    · rw [hi.unset hrun] at hx
      cases hx
  have hbegins : Begins st r → (r.tasks st.id).running = true := by
    rintro (ht | ⟨ht, -⟩) <;> rw [ht] <;> rfl
  cases h with
  | dependencyFailed dep ht hdep hf | gaveUp attempt upstream ht =>
    have hrun : (r.tasks st.id).running = true := by rw [ht]; rfl
    refine ⟨fun x hx => ⟨hother _ _ x hx, hother _ _ x hx, hother _ _ x hx, rfl⟩, fun x hx => ?_, fun x => id⟩
    have hne := hsets hrun x hx
    exact ⟨fun hset => (hother _ _ x hne).trans hset, hother _ _ x hne, rfl⟩
  | carry act obs task hb hobs ht | carryNothing act hb hskip hobs =>
    refine ⟨fun x hx => ⟨hother _ _ x hx, hother _ _ x hx, rfl, rfl⟩, fun x hx => ?_, fun x => id⟩
    have hne := hsets (hbegins hb) x hx
    exact ⟨fun hset => (hother _ _ x hne).trans hset, rfl, rfl⟩
  | closed obs ht =>
    have hrun : (r.tasks st.id).running = true := by rw [ht]; rfl
    refine ⟨fun x hx => ⟨hother _ _ x hx, hother _ _ x hx, rfl, rfl⟩, fun x hx => ?_, fun x hx => ?_⟩
    · have hne := hsets hrun x hx
      exact ⟨fun hset => (hother _ _ x hne).trans hset, rfl, hother _ _ x hne⟩
    · by_cases hne : x = st.id
      · subst hne
        simp [Round.finishStep]
      · simpa [Round.finishStep, Round.setTask, hne] using hx
  | acquire attempt upstream ht hfree =>
    refine ⟨fun x hx => ⟨hother _ _ x hx, rfl, rfl, callsOf_append rfl (Ne.symm hx)⟩, fun x _ => ⟨id, rfl, rfl⟩,
      fun x => id⟩
  | before | number | numbered | retry | replayed => exact setTask_keeps st.id _
  | returned | failed | refused | cancelled => exact ⟨fun x hx => ⟨hother _ _ x hx, rfl, rfl, rfl⟩, fun x _ => ⟨id, rfl, rfl⟩, fun x => id⟩

theorem dependencyView_congr {obs obs' : Observations} (h : ∀ dep ∈ st.dependencies, obs' dep = obs dep) :
    dependencyView st obs' = dependencyView st obs := by
  refine List.filterMap_congr (fun dep hdep => ?_)
  rw [h dep (by simpa using hdep)]

theorem viewIs_of_not_begun {task : Task} {view : View} (h : task.begun = false) : task.viewIs view := by
  cases task <;> trivial

theorem StepInv.view_keeps {sid : String} (hi : StepInv r st) (hk : Keeps sid r r')
    (hb : (r.tasks st.id).begun = true) : dependencyView st r'.observations = dependencyView st r.observations :=
  dependencyView_congr (fun dep hdep => (hk.settled dep (.inr (hi.depsProduced (.inl hb) dep hdep).1)).2.2)

theorem StepInv.other {sid : String} (hi : StepInv r st) (hk : Keeps sid r r') (hne : st.id ≠ sid) :
    StepInv r' st := by
  obtain ⟨htask, hevent, hfailed, hcalls⟩ := hk.others st.id hne
  have hobs := (hk.settled st.id (.inl hne)).2.2
  have hview : (r.tasks st.id).viewIs (dependencyView st r'.observations) := by
    cases hb : (r.tasks st.id).begun with
    | false => exact viewIs_of_not_begun hb
    | true =>
      rw [hi.view_keeps hk hb]
      exact hi.view
  constructor
  · rw [htask, hevent]; exact hi.eventOver
  · rw [htask, hevent]; exact hi.notRaised
  · rw [htask, hevent]; exact hi.doneEvent
  · rw [htask, hevent]; exact hi.replayEvent
  · rw [htask, hfailed]; exact hi.failedDone
  · rw [Round.produced, hevent, hfailed, hobs]; exact hi.observed
  · rw [htask, hobs]; exact hi.value
  · rw [hobs]; exact hi.carried
  · rw [htask, hcalls, Round.produced, hevent, hfailed]
    exact fun h dep hdep => hk.produced (hi.depsProduced h dep hdep)
  · rw [htask]; exact hview
  · rw [htask, hcalls]; exact hi.calls

theorem Task.running_cases {task : Task} (h : task.running = true) :
    task.over = false ∧ (∀ result, task ≠ .done result) ∧ (∀ obs, task ≠ .replaying obs) := by
  cases task <;> simp [Task.running, Task.over] at *

theorem callsOk_le {limit calls : Nat} {task : Task} (h : task.callsOk limit calls) : calls ≤ limit := by
  unfold Task.callsOk at h
  split at h <;> omega

theorem StepInv.goOn {task : Task} (hi : StepInv r st) (hk : Keeps st.id r r')
    (hrun : (r.tasks st.id).running = true) (htask : r'.tasks st.id = task) (hrun' : task.running = true)
    (hevent : r'.eventSet = r.eventSet) (hfailed : r'.failed = r.failed) (hobs : r'.observations = r.observations)
    (hdeps : ∀ dep ∈ st.dependencies, r.produced dep) (hview : task.viewIs (dependencyView st r.observations))
    (hcalls : task.callsOk st.attempts (r'.callsOf st.id).length) : StepInv r' st := by
  have hunset : r'.eventSet st.id = false := by rw [hevent]; exact hi.unset hrun
  obtain ⟨-, hnotDone, hnotReplay⟩ := Task.running_cases hrun'
  have hnotFailed : r'.failed st.id = true ↔ r'.tasks st.id = .done none := by
    rw [hfailed, hi.failedDone, htask]
    exact ⟨fun h => absurd h ((Task.running_cases hrun).2.1 _), fun h => absurd h (hnotDone _)⟩
  constructor
  · intro h; rw [hunset] at h; cases h
  · intro h; rw [hunset] at h; cases h
  · intro result h; exact absurd (htask.symm.trans h) (hnotDone _)
  · intro obs h; exact absurd (htask.symm.trans h) (hnotReplay _)
  · exact hnotFailed
  · intro h; rw [Round.produced, hunset] at h; cases h.1
  · intro obs h
    rw [htask] at h
    exact h.elim (fun h => absurd h (hnotReplay _)) (fun h => absurd h (hnotDone _))
  · rw [hobs]; exact hi.carried
  · exact fun _ dep hdep => hk.produced (hdeps dep hdep)
  · rw [htask, hobs]; exact hview
  · rw [htask]; exact hcalls

theorem StepInv.fails (hi : StepInv r st) (hk : Keeps st.id r r') (htask : r'.tasks st.id = .done none)
    (hevent : r'.eventSet st.id = true) (hfailed : r'.failed st.id = true)
    (hobs : r'.observations = r.observations) (hcalls : r'.callsOf st.id = r.callsOf st.id) : StepInv r' st := by
  constructor
  · intro _; rw [htask]; exact .inl rfl
  · intro _; rw [htask]; exact fun h => Task.noConfusion h
  · exact fun _ _ => hevent
  · exact fun _ _ => hevent
  · exact ⟨fun _ => htask, fun _ => hfailed⟩
  · intro h; rw [Round.produced, hfailed] at h; cases h.2
  · intro obs h; rw [htask] at h; rcases h with h | h <;> cases h
  · rw [hobs]; exact hi.carried
  · rw [htask, hcalls]
    rintro (h | h | h) dep hdep
    · cases h
    · exact hk.produced (hi.depsProduced (.inr (.inl h)) dep hdep)
    · rw [Round.produced, hfailed] at h
      cases h.2
  · rw [htask]; trivial
  · rw [htask, hcalls]; exact callsOk_le hi.calls

theorem StepInv.settles {task : Task} {obs : StepObservation} (hi : StepInv r st) (hk : Keeps st.id r r')
    (hrun : (r.tasks st.id).running = true) (htask : r'.tasks st.id = task)
    (ht : task = .replaying obs ∨ task = .done (some obs)) (hevent : r'.eventSet st.id = true)
    (hfailed : r'.failed st.id = r.failed st.id) (hobs : r'.observations st.id = some obs)
    (hdeps : ∀ dep ∈ st.dependencies, r.produced dep) (hcalls : r'.callsOf st.id = r.callsOf st.id) :
    StepInv r' st := by
  have hover : task.over = true ∨ ∃ obs, task = .replaying obs := by
    rcases ht with rfl | rfl
    · exact .inr ⟨obs, rfl⟩
    · exact .inl rfl
  have hnotFailed : r'.failed st.id = true ↔ task = .done none := by
    rw [hfailed, hi.failedDone]
    refine ⟨fun h => absurd h ((Task.running_cases hrun).2.1 _), fun h => ?_⟩
    rcases ht with rfl | rfl <;> cases h
  constructor
  · intro _; rw [htask]; exact hover
  · intro _; rw [htask]; rcases ht with rfl | rfl <;> exact fun h => Task.noConfusion h
  · exact fun _ _ => hevent
  · exact fun _ _ => hevent
  · rw [htask]; exact hnotFailed
  · exact fun _ => Option.isSome_iff_exists.2 ⟨obs, hobs⟩
  · intro obs' h
    rw [htask] at h
    have heq : obs' = obs := by
      rcases ht with rfl | rfl <;> rcases h with h | h <;> cases h <;> rfl
    rw [heq]
    exact hobs
  · exact fun _ => Option.isSome_iff_exists.2 ⟨obs, hobs⟩
  · exact fun _ dep hdep => hk.produced (hdeps dep hdep)
  · rw [htask]; rcases ht with rfl | rfl <;> trivial
  · rw [htask, hcalls]
    have hle := callsOk_le hi.calls
    rcases ht with rfl | rfl <;> exact hle

theorem StepInv.aborts {task : Task} (hi : StepInv r st) (hover : (r.tasks st.id).over = false)
    (ht : task = .cancelled ∨ (task = .raised ∧ (r.tasks st.id).running = true)) (how : GatherEnd) :
    StepInv (r.abort st.id task how) st := by
  have htask : (r.abort st.id task how).tasks st.id = task := Function.update_self ..
  have hnotDone : ∀ result, task ≠ .done result := by
    rcases ht with rfl | ⟨rfl, -⟩ <;> exact fun result h => Task.noConfusion h
  have hnotFailed : r.failed st.id ≠ true := by
    rw [ne_eq, hi.failedDone]
    intro h
    rw [h] at hover
    cases hover
  constructor
  · intro _; rw [htask]; rcases ht with rfl | ⟨rfl, -⟩ <;> exact .inl rfl
  · intro hset
    rw [htask]
    rcases ht with rfl | ⟨rfl, hrun⟩
    · exact fun h => Task.noConfusion h
    · exact absurd hset (by simp [Round.abort, Round.setTask, hi.unset hrun])
  · intro result h; exact absurd (htask.symm.trans h) (hnotDone _)
  · intro obs h; rw [htask] at h; rcases ht with rfl | ⟨rfl, -⟩ <;> cases h
  · exact ⟨fun h => absurd h hnotFailed, fun h => absurd (htask.symm.trans h) (hnotDone _)⟩
  · exact hi.observed
  · intro obs h; rw [htask] at h; rcases ht with rfl | ⟨rfl, -⟩ <;> rcases h with h | h <;> cases h
  · exact hi.carried
  · rw [htask]
    rintro (h | h) dep hdep
    · rcases ht with rfl | ⟨rfl, -⟩ <;> cases h
    · exact hi.depsProduced (.inr h) dep hdep
  · rw [htask]; rcases ht with rfl | ⟨rfl, -⟩ <;> trivial
  · rw [htask]
    have hle := callsOk_le hi.calls
    rcases ht with rfl | ⟨rfl, -⟩ <;> exact hle

theorem Begins.running (h : Begins st r) : (r.tasks st.id).running = true := by
  rcases h with ht | ⟨ht, -⟩ <;> rw [ht] <;> rfl

theorem Begins.deps (h : Begins st r) (hi : StepInv r st) : ∀ dep ∈ st.dependencies, r.produced dep := by
  rcases h with ht | ⟨-, hdeps⟩
  · exact hi.depsProduced (.inl (by rw [ht]; rfl))
  · exact hdeps

theorem Begins.noCalls (h : Begins st r) (hi : StepInv r st) : (r.callsOf st.id).length = 0 := by
  have hcalls := hi.calls
  rcases h with ht | ⟨ht, -⟩ <;> rw [ht] at hcalls <;> exact hcalls

theorem StepInv.self (h : TaskMove cfg st r act r') (hi : StepInv r st) : StepInv r' st := by
  have hk := move_keeps h hi
  have hbegun : (r.tasks st.id).begun = true → ∀ dep ∈ st.dependencies, r.produced dep :=
    fun hb => hi.depsProduced (.inl hb)
  have hview := hi.view
  have hcalls := hi.calls
  cases h with
  | dependencyFailed | gaveUp =>
    exact hi.fails hk (Function.update_self ..) (Function.update_self ..) (Function.update_self ..) rfl rfl
  | before ht hdeps =>
    rw [ht] at hcalls
    exact hi.goOn hk (by rw [ht]; rfl) (Function.update_self ..) rfl rfl rfl rfl hdeps trivial hcalls
  | number act hb hskip =>
    exact hi.goOn hk hb.running (Function.update_self ..) rfl rfl rfl rfl (hb.deps hi) trivial (hb.noCalls hi)
  | carry act obs task hb hobs ht =>
    exact hi.settles hk hb.running (Function.update_self ..) ht (Function.update_self ..) rfl
      hobs (hb.deps hi) rfl
  | carryNothing act hb hskip hobs =>
    have hcarried := hi.carried hskip
    rw [hobs] at hcarried
    cases hcarried
  | refused ht => exact hi.aborts (by rw [ht]; rfl) (.inr ⟨rfl, by rw [ht]; rfl⟩) _
  | numbered ht =>
    rw [ht] at hcalls
    refine hi.goOn hk (by rw [ht]; rfl) (Function.update_self ..) rfl rfl rfl rfl (hbegun (by rw [ht]; rfl)) rfl ?_
    have hnone : (r.callsOf st.id).length = 0 := hcalls
    refine ⟨?_, Nat.le_add_left ..⟩
    show (r.callsOf st.id).length + 1 = 1
    omega
  | acquire attempt upstream ht hfree =>
    rw [ht] at hcalls hview
    refine hi.goOn hk (by rw [ht]; rfl) (Function.update_self ..) rfl rfl rfl rfl (hbegun (by rw [ht]; rfl)) hview ?_
    obtain ⟨hcount, hle⟩ := hcalls
    rw [callsOf_append_self (r := r) (c := ⟨st.id, attempt, upstream⟩) rfl, List.length_append]
    exact ⟨hcount, hle⟩
  | returned attempt upstream obs ht =>
    rw [ht] at hcalls
    obtain ⟨hcount, hle⟩ := hcalls
    refine hi.goOn hk (by rw [ht]; rfl) (Function.update_self ..) rfl rfl rfl rfl (hbegun (by rw [ht]; rfl)) trivial ?_
    show (r.callsOf st.id).length ≤ st.attempts
    omega
  | failed attempt upstream exc transient ht htr =>
    rw [ht] at hcalls hview
    obtain ⟨hcount, hle⟩ := hcalls
    refine hi.goOn hk (by rw [ht]; rfl) (Function.update_self ..) rfl rfl rfl rfl (hbegun (by rw [ht]; rfl)) hview ?_
    cases transient with
    | false =>
      show (r.callsOf st.id).length ≤ st.attempts
      omega
    | true =>
      have hretry := htr rfl
      refine ⟨hcount, ?_⟩
      unfold Step.attempts
      omega
  | closed obs ht =>
    exact hi.settles hk (by rw [ht]; rfl) (Function.update_self ..) (.inr rfl) (Function.update_self ..) rfl
      (Function.update_self ..) (hbegun (by rw [ht]; rfl)) rfl
  | retry attempt upstream ht =>
    rw [ht] at hcalls hview
    obtain ⟨hcount, hle⟩ := hcalls
    refine hi.goOn hk (by rw [ht]; rfl) (Function.update_self ..) rfl rfl rfl rfl (hbegun (by rw [ht]; rfl)) hview ?_
    exact ⟨congrArg (· + 1) hcount, hle⟩
  | replayed carried ht =>
    have hevent := hi.replayEvent carried ht
    have hdeps := hbegun (by rw [ht]; rfl)
    have hnotFailed : r.failed st.id = false := by
      rw [← Bool.not_eq_true, hi.failedDone, ht]
      exact fun h => Task.noConfusion h
    have hobs := hi.value carried (.inl ht)
    have htask : (r.setTask st.id (.done (some carried))).tasks st.id = .done (some carried) := Function.update_self ..
    constructor
    · intro _; rw [htask]; exact .inl rfl
    · intro _; rw [htask]; exact fun h => Task.noConfusion h
    · exact fun _ _ => hevent
    · exact fun _ _ => hevent
    · rw [htask]
      exact ⟨fun h => absurd (hnotFailed.symm.trans h) Bool.false_ne_true, fun h => by cases h⟩
    · exact fun _ => Option.isSome_iff_exists.2 ⟨carried, hobs⟩
    · intro obs h
      rw [htask] at h
      rcases h with h | h <;> cases h
      exact hobs
    · exact fun _ => Option.isSome_iff_exists.2 ⟨carried, hobs⟩
    · exact fun _ dep hdep => hk.produced (hdeps dep hdep)
    · rw [htask]; trivial
    · rw [htask]; exact callsOk_le hi.calls
  | cancelled act hover _ => exact hi.aborts hover (.inl rfl) _

/-! ## the round -/

theorem move_notOver (h : TaskMove cfg st r act r') : (r.tasks st.id).over = false := by
  cases h with
  | number _ hb | carry _ _ _ hb | carryNothing _ hb => exact (Task.running_cases hb.running).1
  | cancelled _ hover => exact hover
  | dependencyFailed _ ht | before ht | refused ht | numbered ht | acquire _ _ ht | returned _ _ _ ht
  | failed _ _ _ _ ht | closed _ ht | retry _ _ ht | gaveUp _ _ ht | replayed _ ht => rw [ht]; rfl

theorem move_tasks (h : TaskMove cfg st r act r') : r'.tasks = Function.update r.tasks st.id (r'.tasks st.id) := by
  cases h <;> exact (by
    dsimp only [Round.failStep, Round.finishStep, Round.setTask, Round.abort]
    rw [Function.update_self])

theorem move_gather (h : TaskMove cfg st r act r') :
    r'.stopping = r.stopping ∧ r'.result = r.result ∧
      ((r'.gathered = r.gathered ∧ r'.tasks st.id ≠ .raised ∧ r'.tasks st.id ≠ .cancelled) ∨
        ∃ how, r'.gathered = r.gathered.or (some how) ∧ (how = .raised → r'.tasks st.id = .raised)) := by
  have hself : ∀ task : Task, Function.update r.tasks st.id task st.id = task := fun task => Function.update_self ..
  cases h with
  | refused ht => exact ⟨rfl, rfl, .inr ⟨.raised, rfl, fun _ => hself _⟩⟩
  | cancelled act hover _ => exact ⟨rfl, rfl, .inr ⟨.cancelled, rfl, fun h => by cases h⟩⟩
  | carry act obs task hb hobs ht =>
    refine ⟨rfl, rfl, .inl ⟨rfl, ?_⟩⟩
    dsimp only [Round.setTask]
    rw [hself]
    rcases ht with rfl | rfl <;> exact ⟨fun h => Task.noConfusion h, fun h => Task.noConfusion h⟩
  | _ =>
    refine ⟨rfl, rfl, .inl ⟨rfl, ?_⟩⟩
    dsimp only [Round.failStep, Round.finishStep, Round.setTask]
    rw [hself]
    exact ⟨fun h => Task.noConfusion h, fun h => Task.noConfusion h⟩

theorem move_slots (h : TaskMove cfg st r act r') (hheld : (r.tasks st.id).isExecuting.toNat ≤ r.inFlight)
    (hlimit : r.inFlight ≤ cfg.limit) (hpeak : r.peak ≤ cfg.limit) :
    r'.inFlight + (r.tasks st.id).isExecuting.toNat = r.inFlight + (r'.tasks st.id).isExecuting.toNat ∧
      r'.inFlight ≤ cfg.limit ∧ r'.peak ≤ cfg.limit := by
  have hself : ∀ task : Task, Function.update r.tasks st.id task st.id = task := fun task => Function.update_self ..
  have hbegins : Begins st r → (r.tasks st.id).isExecuting = false := by
    rintro (ht | ⟨ht, -⟩) <;> rw [ht] <;> rfl
  cases h with
  | acquire attempt upstream ht hfree =>
    dsimp only [Round.setTask]
    rw [hself, ht]
    refine ⟨rfl, hfree, ?_⟩
    omega
  | returned attempt upstream obs ht | failed attempt upstream exc transient ht =>
    rw [ht] at hheld
    dsimp only [Round.setTask]
    rw [hself, ht]
    simp only [Task.isExecuting, Bool.toNat_true, Bool.toNat_false] at *
    omega
  | cancelled act hover _ =>
    dsimp only [Round.setTask, Round.abort]
    rw [hself]
    cases hex : (r.tasks st.id).isExecuting with
    | false => exact ⟨rfl, hlimit, hpeak⟩
    | true =>
      rw [hex] at hheld
      simp only [Task.isExecuting, Bool.toNat_true, Bool.toNat_false, if_true] at *
      omega
  | refused ht =>
    dsimp only [Round.setTask, Round.abort]
    rw [hself, ht]
    exact ⟨rfl, hlimit, hpeak⟩
  | carry act obs task hb hobs ht =>
    dsimp only [Round.setTask]
    rw [hself, hbegins hb]
    rcases ht with rfl | rfl <;> exact ⟨rfl, hlimit, hpeak⟩
  | number act hb | carryNothing act hb =>
    dsimp only [Round.setTask]
    rw [hself, hbegins hb]
    exact ⟨rfl, hlimit, hpeak⟩
  | dependencyFailed _ ht | before ht | numbered ht | closed _ ht | retry _ _ ht | gaveUp _ _ ht | replayed _ ht =>
    dsimp only [Round.failStep, Round.finishStep, Round.setTask]
    rw [hself, ht]
    exact ⟨rfl, hlimit, hpeak⟩

end

def Task.observed (task : Task) : Prop := ∃ obs, task = .done (some obs)

def Reported (plan : Plan StepObservation) (r : Round) (failedStep : Option String) : Prop :=
  (failedStep = none ∧ ∀ st ∈ plan.steps, (r.tasks st.id).observed) ∨
    (failedStep ≠ none ∧ ∃ st ∈ plan.steps, r.tasks st.id = .done none ∨ r.tasks st.id = .raised)

structure RoundInv (plan : Plan StepObservation) (cfg : Settings) (r : Round) : Prop where
  steps : ∀ st ∈ plan.steps, StepInv r st
  slots : r.inFlight = (plan.steps.map (fun s => (r.tasks s.id).isExecuting.toNat)).sum
  inFlight : r.inFlight ≤ cfg.limit
  peak : r.peak ≤ cfg.limit
  calm : r.gathered = none → ∀ st ∈ plan.steps, r.tasks st.id ≠ .raised ∧ r.tasks st.id ≠ .cancelled
  raised : r.gathered = some .raised → ∃ st ∈ plan.steps, r.tasks st.id = .raised
  stopping : r.stopping = true → r.gathered ≠ none
  collected : r.gathered = some .raised → r.stopping = true → r.result ≠ none
  ended : r.result ≠ none → r.allOver plan = true ∨ r.stopping = true
  report : ∀ failedStep, r.result = some (.returned failedStep) → Reported plan r failedStep

def Carried (plan : Plan StepObservation) (seed : Observations) : Prop :=
  ∀ st ∈ plan.steps, st.skip = true → (startObservations plan seed st.id).isSome

section
variable {plan : Plan StepObservation} {cfg : Settings}

theorem allOver_iff {r : Round} : r.allOver plan = true ↔ ∀ st ∈ plan.steps, (r.tasks st.id).over = true := by
  simp [Round.allOver]

theorem roundInv_start {seed : Observations} (hc : Carried plan seed) : RoundInv plan cfg (startRound plan seed) := by
  refine ⟨fun st hst => ?_, ?_, Nat.zero_le _, Nat.zero_le _, fun _ st hst => ⟨nofun, nofun⟩, nofun, nofun, nofun,
    fun h => absurd rfl h, nofun⟩
  · refine ⟨nofun, nofun, nofun, nofun, ⟨nofun, nofun⟩, nofun, ?_, hc st hst, ?_, trivial, rfl⟩
    · rintro obs (h | h) <;> cases h
    · rintro (h | h | h)
      · cases h
      · exact absurd rfl h
      · cases h.1
  · simp [startRound, Task.isExecuting]

theorem same_id (hv : plan.Valid) {s t : Step} (hs : s ∈ plan.steps) (ht : t ∈ plan.steps) (h : s.id = t.id) :
    s = t := by
  have hget := get_mem hv.distinct hs
  rw [h, get_mem hv.distinct ht] at hget
  exact (Option.some.inj hget).symm

theorem Reported.move {st : Step} {r r' : Round} {act : TaskAct} {failedStep : Option String}
    (h : TaskMove cfg st r act r') (hrep : Reported plan r failedStep) (hst : st ∈ plan.steps) :
    Reported plan r' failedStep := by
  have hstays : ∀ x, (r.tasks x).over = true → r'.tasks x = r.tasks x := by
    intro x hx
    by_cases hne : x = st.id
    · subst hne
      rw [move_notOver h] at hx
      cases hx
    · rw [move_tasks h, Function.update_of_ne hne]
  rcases hrep with ⟨hf, hall⟩ | ⟨hf, t, ht, hend⟩
  · obtain ⟨obs, hobs⟩ := hall st hst
    have hover := move_notOver h
    rw [hobs] at hover
    cases hover
  · refine .inr ⟨hf, t, ht, ?_⟩
    rcases hend with hend | hend
    · exact .inl ((hstays t.id (by rw [hend]; rfl)).trans hend)
    · exact .inr ((hstays t.id (by rw [hend]; rfl)).trans hend)

theorem roundInv_task (hv : plan.Valid) {st : Step} {r r' : Round} {act : TaskAct} (hst : st ∈ plan.steps)
    (h : TaskMove cfg st r act r') (hr : RoundInv plan cfg r) : RoundInv plan cfg r' := by
  have htasks := move_tasks h
  have hother : ∀ x, x ≠ st.id → r'.tasks x = r.tasks x := by
    intro x hx
    rw [htasks, Function.update_of_ne hx]
  obtain ⟨hstopping, hresult, hgather⟩ := move_gather h
  have hsum := Tally.sum_update Step.id hv.distinct hst (fun _ task => Task.isExecuting task |>.toNat) r.tasks
    (r'.tasks st.id)
  rw [← htasks] at hsum
  have hheld : (r.tasks st.id).isExecuting.toNat ≤ r.inFlight := by
    have hfree := Tally.sum_update Step.id hv.distinct hst (fun _ task => Task.isExecuting task |>.toNat)
      r.tasks .raised
    have hidle : (Task.isExecuting .raised).toNat = 0 := rfl
    rw [hr.slots]
    simp only [hidle] at hfree
    omega
  obtain ⟨hslots, hinFlight, hpeak⟩ := move_slots h hheld hr.inFlight hr.peak
  have hslots' := hr.slots
  refine ⟨fun t ht => ?_, by omega, hinFlight, hpeak, fun hg t ht => ?_, fun hg => ?_, ?_, ?_, ?_, ?_⟩
  · by_cases hid : t.id = st.id
    · obtain rfl := same_id hv ht hst hid
      exact (hr.steps t ht).self h
    · exact (hr.steps t ht).other (move_keeps h (hr.steps st hst)) hid
  · rcases hgather with ⟨hsame, hquiet⟩ | ⟨how, hor, -⟩
    · by_cases hid : t.id = st.id
      · rw [hid]
        exact hquiet
      · rw [hother t.id hid]
        exact hr.calm (hsame ▸ hg) t ht
    · rw [hor] at hg
      simp at hg
  · rcases hgather with ⟨hsame, hquiet⟩ | ⟨how, hor, hhow⟩
    · obtain ⟨t, ht, hraised⟩ := hr.raised (hsame ▸ hg)
      refine ⟨t, ht, ?_⟩
      by_cases hid : t.id = st.id
      · have hover := move_notOver h
        rw [← hid, hraised] at hover
        cases hover
      · rw [hother t.id hid]
        exact hraised
    · cases hold : r.gathered with
      | none =>
        rw [hor, hold] at hg
        exact ⟨st, hst, hhow (Option.some.inj hg)⟩
      | some how' =>
        rw [hor, hold] at hg
        obtain ⟨t, ht, hraised⟩ := hr.raised (hold.trans hg)
        refine ⟨t, ht, ?_⟩
        by_cases hid : t.id = st.id
        · have hover := move_notOver h
          rw [← hid, hraised] at hover
          cases hover
        · rw [hother t.id hid]
          exact hraised
  · intro hs hg
    rw [hstopping] at hs
    rcases hgather with ⟨hsame, -⟩ | ⟨how, hor, -⟩
    · exact hr.stopping hs (hsame ▸ hg)
    · rw [hor] at hg
      simp at hg
  · intro hg hs
    rw [hstopping] at hs
    rw [hresult]
    refine hr.collected ?_ hs
    rcases hgather with ⟨hsame, -⟩ | ⟨how, hor, -⟩
    · exact hsame ▸ hg
    · cases hold : r.gathered with
      | none => exact absurd hold (hr.stopping hs)
      | some how' =>
        rw [hor, hold] at hg
        exact hg
  · intro hres
    rw [hresult] at hres
    rw [hstopping]
    rcases hr.ended hres with hall | hs
    · have hover := allOver_iff.1 hall st hst
      rw [move_notOver h] at hover
      cases hover
    · exact .inr hs
  · intro failedStep hres
    rw [hresult] at hres
    exact (hr.report failedStep hres).move h hst

theorem lastFailed_none {r : Round} : r.lastFailed plan = none ↔ ∀ st ∈ plan.steps, r.tasks st.id ≠ .done none := by
  simp [Round.lastFailed]

theorem firstUnset_none {r : Round} : r.firstUnset plan = none ↔ ∀ st ∈ plan.steps, r.eventSet st.id = true := by
  simp [Round.firstUnset, List.find?_eq_none]

theorem reported_results {r : Round} (hr : RoundInv plan cfg r) (hg : r.gathered = none)
    (hall : r.allOver plan = true) : Reported plan r (r.lastFailed plan) := by
  have hdone : ∀ st ∈ plan.steps, ∃ result, r.tasks st.id = .done result := by
    intro st hst
    have hover := allOver_iff.1 hall st hst
    obtain ⟨hraised, hcancelled⟩ := hr.calm hg st hst
    cases htask : r.tasks st.id <;> rw [htask] at hover hraised hcancelled
    case done result => exact ⟨result, rfl⟩
    case raised => exact absurd rfl hraised
    case cancelled => exact absurd rfl hcancelled
    all_goals cases hover
  by_cases hlast : r.lastFailed plan = none
  · refine .inl ⟨hlast, fun st hst => ?_⟩
    obtain ⟨result, hresult⟩ := hdone st hst
    cases result with
    | none => exact absurd hresult (lastFailed_none.1 hlast st hst)
    | some obs => exact ⟨obs, hresult⟩
  · refine .inr ⟨hlast, ?_⟩
    have hfailed := mt lastFailed_none.2 hlast
    push Not at hfailed
    obtain ⟨st, hst, hnone⟩ := hfailed
    exact ⟨st, hst, .inl hnone⟩

theorem collect_cases {r r' : Round} (h : collect plan r = some r') : r.result = none ∧
    ((r.gathered = none ∧ r.allOver plan = true ∧ r' = { r with result := some (.returned (r.lastFailed plan)) }) ∨
      (r.gathered = some .raised ∧ r' = { r with stopping := true, result := some (.returned (r.firstUnset plan)) }) ∨
      (r.gathered = some .cancelled ∧ r.stopping = false ∧ r' = { r with stopping := true }) ∨
      (r.gathered = some .cancelled ∧ r.allOver plan = true ∧ r' = { r with result := some .cancelled })) := by
  unfold collect at h
  split at h
  · cases h
  · rename_i hres hg
    obtain ⟨hall, ⟨⟩⟩ := Option.ite_none_right_eq_some.1 h
    exact ⟨hres, .inl ⟨hg, hall, rfl⟩⟩
  · rename_i hres hg
    cases h
    exact ⟨hres, .inr (.inl ⟨hg, rfl⟩)⟩
  · rename_i hres hg
    split at h
    · rename_i hstop
      cases h
      exact ⟨hres, .inr (.inr (.inl ⟨hg, by simpa using hstop, rfl⟩))⟩
    · obtain ⟨hall, ⟨⟩⟩ := Option.ite_none_right_eq_some.1 h
      exact ⟨hres, .inr (.inr (.inr ⟨hg, hall, rfl⟩))⟩

theorem StepInv.frame {r : Round} {st : Step} (hi : StepInv r st) (gathered : Option GatherEnd) (stopping : Bool)
    (result : Option RoundEnd) :
    StepInv { r with gathered := gathered, stopping := stopping, result := result } st :=
  { hi with }

theorem roundInv_collect {r r' : Round} (h : collect plan r = some r') (hr : RoundInv plan cfg r) :
    RoundInv plan cfg r' := by
  have hsteps : ∀ g s res, ∀ st ∈ plan.steps, StepInv { r with gathered := g, stopping := s, result := res } st :=
    fun g s res st hst => (hr.steps st hst).frame g s res
  obtain ⟨-, ⟨hg, hall, rfl⟩ | ⟨hg, rfl⟩ | ⟨hg, -, rfl⟩ | ⟨hg, hall, rfl⟩⟩ := collect_cases h
  · refine ⟨hsteps _ _ _, hr.slots, hr.inFlight, hr.peak, hr.calm, hr.raised, hr.stopping, fun _ _ => nofun,
      fun _ => .inl hall, fun failedStep hf => ?_⟩
    cases hf
    have hreported := reported_results hr hg hall
    exact hreported
  · refine ⟨hsteps _ _ _, hr.slots, hr.inFlight, hr.peak, hr.calm, hr.raised, fun _ hn => ?_, fun _ _ => nofun,
      fun _ => .inr rfl, fun failedStep hf => ?_⟩
    · rw [hg] at hn
      cases hn
    · cases hf
      -- the task that raised never set its event
      obtain ⟨st, hst, hraised⟩ := hr.raised hg
      refine .inr ⟨fun hnone => ?_, st, hst, .inr hraised⟩
      exact (hr.steps st hst).notRaised (firstUnset_none.1 hnone st hst) hraised
  · refine ⟨hsteps _ _ _, hr.slots, hr.inFlight, hr.peak, hr.calm, hr.raised, fun _ hn => ?_, fun hraised => ?_,
      fun _ => .inr rfl, hr.report⟩
    · rw [hg] at hn
      cases hn
    · rw [hg] at hraised
      cases hraised
  · exact { hr with steps := hsteps _ _ _, collected := fun _ _ => nofun, ended := fun _ => .inl hall, report := nofun }

theorem roundInv_step (hv : plan.Valid) {r r' : Round} {act : Act} (h : step plan cfg r act = some r')
    (hr : RoundInv plan cfg r) : RoundInv plan cfg r' := by
  cases act with
  | task st act =>
    obtain ⟨hst, hmove⟩ := Option.ite_none_right_eq_some.1 h
    exact roundInv_task hv hst (taskStep_move hmove) hr
  | cancelRound =>
    obtain ⟨⟨hres, hg⟩, ⟨⟩⟩ := Option.ite_none_right_eq_some.1 h
    exact ⟨fun st hst => (hr.steps st hst).frame _ _ _, hr.slots, hr.inFlight, hr.peak, nofun, nofun, fun _ => nofun,
      nofun, fun hn => absurd hres hn, hr.report⟩
  | collect => exact roundInv_collect h hr

theorem roundInv_run (hv : plan.Valid) {seed : Observations} (hc : Carried plan seed) {r : Round}
    (h : Reaches (step plan cfg) (startRound plan seed) r) : RoundInv plan cfg r :=
  h.invariant (roundInv_start hc) (fun _ _ _ hr _ hs => roundInv_step hv hs hr)

/-! ## every task finishes -/

/-- What the round does by itself: no `before_step` refuses, nothing is cancelled from outside. -/
def Act.own : Act → Bool
  | .task _ .refused | .task _ .cancelled | .cancelRound => false
  | _ => true

/-- **No wait cycle**: until the round is over and all its tasks are, some step of its own is enabled. -/
theorem round_goes_on (hv : plan.Valid) {r : Round} (hr : RoundInv plan cfg r)
    (h : r.result = none ∨ r.allOver plan = false) : ∃ act, act.own = true ∧ (step plan cfg r act).isSome := by
  by_contra hstuck
  push Not at hstuck
  have hstep : ∀ st ∈ plan.steps, ∀ act, (Act.task st act).own = true → taskStep cfg st r act = none := by
    intro st hst act hown
    have hnone := hstuck (.task st act) hown
    simpa [step, hst] using hnone
  have hcollect : collect plan r = none := by
    simpa [step] using hstuck .collect rfl
  cases hs : r.stopping with
  | true =>
    -- every task that is not over receives its cancellation
    have hall : r.allOver plan = true := by
      refine allOver_iff.2 (fun st hst => ?_)
      have hstopped := hstep st hst .stopped rfl
      simp only [taskStep, hs, Bool.true_and] at hstopped
      simpa using hstopped
    have hres : r.result = none := by
      rcases h with h | h
      · exact h
      · rw [hall] at h
        cases h
    cases hg : r.gathered with
    | none => exact hr.stopping hs hg
    | some how =>
      cases how with
      | raised => exact hr.collected hg hs hres
      | cancelled => simp [collect, hres, hg, hs, hall] at hcollect
  | false =>
    cases hg : r.gathered with
    | some how =>
      have hres : r.result = none := by
        by_contra hres
        rcases hr.ended hres with hall | hstop
        · rcases h with h | h
          · exact hres h
          · rw [hall] at h
            cases h
        · rw [hs] at hstop
          cases hstop
      cases how <;> simp [collect, hres, hg, hs] at hcollect
    | none =>
      have hfree : ∀ st ∈ plan.steps, (r.tasks st.id).isExecuting = false := by
        intro st hst
        rw [← Bool.not_eq_true]
        intro hex
        cases htask : r.tasks st.id <;> rw [htask] at hex <;> try cases hex
        have hreturn := hstep st hst (.executed (.raises ⟨"", false⟩)) rfl
        simp [taskStep, htask] at hreturn
      have hidle : r.inFlight = 0 := by
        rw [hr.slots]
        refine List.sum_eq_zero (fun n hn => ?_)
        obtain ⟨st, hst, rfl⟩ := List.mem_map.1 hn
        rw [hfree st hst]
        rfl
      have hlimit : 0 < cfg.limit := by
        unfold Settings.limit
        omega
      -- from the dependencies to the dependents, every task is over
      have hdone : ∀ st ∈ plan.steps, ∃ result, r.tasks st.id = .done result := by
        refine hv.induct (fun st hst ih => ?_)
        have hcalm := hr.calm hg st hst
        cases htask : r.tasks st.id with
        | done result => exact ⟨result, rfl⟩
        | raised => exact absurd htask hcalm.1
        | cancelled => exact absurd htask hcalm.2
        | executing attempt upstream =>
          have hex := hfree st hst
          rw [htask] at hex
          cases hex
        | waiting =>
          have hset : st.dependencies.all r.eventSet = true := by
            refine List.all_eq_true.2 (fun dep hdep => ?_)
            obtain ⟨d, hd, rfl⟩ := mem_stepIds.1 (hv.known st hst dep hdep)
            obtain ⟨result, hresult⟩ := ih d hd hdep
            exact (hr.steps d hd).doneEvent result hresult
          have hproceed := hstep st hst .proceed rfl
          simp only [taskStep, htask, hset, if_true] at hproceed
          split at hproceed
          · cases hproceed
          · split at hproceed <;> cases hproceed
        | before =>
          have hpermitted := hstep st hst .permitted rfl
          simp [taskStep, htask] at hpermitted
        | numbering =>
          have hnumbered := hstep st hst .numbered rfl
          simp [taskStep, htask] at hnumbered
        | opening attempt upstream =>
          have hacquire := hstep st hst .acquire rfl
          simp [taskStep, htask, hidle] at hacquire
          omega
        | closing obs =>
          have hclosed := hstep st hst .closed rfl
          simp [taskStep, htask] at hclosed
        | failing attempt upstream transient =>
          have hrecorded := hstep st hst .recorded rfl
          cases transient <;> simp [taskStep, htask] at hrecorded
        | replaying carried =>
          have hreplayed := hstep st hst .replayed rfl
          simp [taskStep, htask] at hreplayed
      have hall : r.allOver plan = true := by
        refine allOver_iff.2 (fun st hst => ?_)
        obtain ⟨result, hresult⟩ := hdone st hst
        rw [hresult]
        rfl
      have hres : r.result = none := by
        rcases h with h | h
        · exact h
        · rw [hall] at h
          cases h
      simp [collect, hres, hg, hall] at hcollect

def Task.rank (attempts : Nat) : Task → Nat
  | .waiting => 3 * attempts + 3
  | .before => 3 * attempts + 2
  | .numbering => 3 * attempts + 1
  | .opening attempt _ => 3 * (attempts - attempt) + 3
  | .executing attempt _ => 3 * (attempts - attempt) + 2
  | .failing attempt _ true => 3 * (attempts - attempt) + 1
  | .closing _ | .failing _ _ false | .replaying _ => 1
  | .done _ | .raised | .cancelled => 0

def Round.rank (plan : Plan StepObservation) (r : Round) : Nat :=
  (plan.steps.map (fun s => (r.tasks s.id).rank s.attempts)).sum + (!r.stopping).toNat + r.result.isNone.toNat

theorem rank_pos {task : Task} (attempts : Nat) (h : task.over = false) : 0 < task.rank attempts := by
  unfold Task.rank
  split <;> first | omega | cases h

theorem move_rank {st : Step} {r r' : Round} {act : TaskAct} (h : TaskMove cfg st r act r') (hi : StepInv r st) :
    (r'.tasks st.id).rank st.attempts < (r.tasks st.id).rank st.attempts := by
  have hself : ∀ task : Task, Function.update r.tasks st.id task st.id = task := fun task => Function.update_self ..
  have hpos := rank_pos st.attempts (move_notOver h)
  have hbegins : Begins st r → 3 * st.attempts + 2 ≤ (r.tasks st.id).rank st.attempts := by
    rintro (ht | ⟨ht, -⟩) <;> rw [ht] <;> simp [Task.rank]
  have hcalls := hi.calls
  cases h with
  | dependencyFailed | closed | gaveUp | replayed | cancelled | refused | carryNothing =>
    dsimp only [Round.failStep, Round.finishStep, Round.setTask, Round.abort]
    rw [hself]
    exact hpos
  | before ht | acquire attempt upstream ht =>
    dsimp only [Round.setTask]
    rw [hself, ht]
    simp [Task.rank]
  | number act hb =>
    have hle := hbegins hb
    dsimp only [Round.setTask]
    rw [hself]
    show 3 * st.attempts + 1 < _
    omega
  | carry act obs task hb hobs ht =>
    have hle := hbegins hb
    dsimp only [Round.setTask]
    rw [hself]
    rcases ht with rfl | rfl
    · show 1 < _
      omega
    · show 0 < _
      omega
  | numbered ht =>
    dsimp only [Round.setTask]
    rw [hself, ht]
    simp only [Task.rank, Step.attempts]
    omega
  | returned attempt upstream obs ht =>
    dsimp only [Round.setTask]
    rw [hself, ht]
    simp only [Task.rank]
    omega
  | failed attempt upstream exc transient ht =>
    dsimp only [Round.setTask]
    rw [hself, ht]
    cases transient <;> simp only [Task.rank] <;> omega
  | retry attempt upstream ht =>
    rw [ht] at hcalls
    obtain ⟨-, hle⟩ := hcalls
    dsimp only [Round.setTask]
    rw [hself, ht]
    simp only [Task.rank]
    omega

theorem step_rank (hv : plan.Valid) {r r' : Round} {act : Act} (h : step plan cfg r act = some r')
    (hr : RoundInv plan cfg r) : r'.rank plan < r.rank plan := by
  cases act with
  | task st act =>
    obtain ⟨hst, hstep⟩ := Option.ite_none_right_eq_some.1 h
    have hmove := taskStep_move hstep
    obtain ⟨hstopping, hresult, -⟩ := move_gather hmove
    have hrank := move_rank hmove (hr.steps st hst)
    have hsum := Tally.sum_update Step.id hv.distinct hst (fun s task => Task.rank s.attempts task) r.tasks
      (r'.tasks st.id)
    rw [← move_tasks hmove] at hsum
    simp only [Round.rank, hstopping, hresult]
    omega
  | cancelRound =>
    obtain ⟨⟨hres, hg⟩, ⟨⟩⟩ := Option.ite_none_right_eq_some.1 h
    have hstop : r.stopping = false := by
      rw [← Bool.not_eq_true]
      exact fun hs => hr.stopping hs hg
    simp [Round.rank, hstop]
  | collect =>
    obtain ⟨hres, ⟨hg, hall, rfl⟩ | ⟨hg, rfl⟩ | ⟨hg, hstop, rfl⟩ | ⟨hg, hall, rfl⟩⟩ := collect_cases h
    · simp [Round.rank, hres]
    · simp only [Round.rank, hres, Option.isNone_some, Option.isNone_none, Bool.not_true, Bool.toNat_true,
        Bool.toNat_false]
      omega
    · simp [Round.rank, hstop]
    · simp [Round.rank, hres]

theorem exec_rank (hv : plan.Valid) : ∀ (acts : List Act) {r r' : Round}, exec (step plan cfg) r acts = some r' →
    RoundInv plan cfg r → acts.length + r'.rank plan ≤ r.rank plan := by
  intro acts
  induction acts with
  | nil =>
    intro r r' h _
    cases h
    simp
  | cons act acts ih =>
    intro r r' h hr
    obtain ⟨r₁, hstep, hrest⟩ := Option.bind_eq_some_iff.1 h
    have hlt := step_rank hv hstep hr
    have hle := ih hrest (roundInv_step hv hstep hr)
    simp only [List.length_cons]
    omega

/-! ## what the executor is called with -/

theorem dependencyView_keys {st : Step} {obs : Observations} (h : ∀ dep ∈ st.dependencies, (obs dep).isSome) :
    (dependencyView st obs).map Prod.fst = st.dependencies.eraseDups := by
  have hall : ∀ deps : List String, (∀ dep ∈ deps, (obs dep).isSome) →
      (deps.filterMap (fun dep => (obs dep).map (fun o => (dep, o)))).map Prod.fst = deps := by
    intro deps
    induction deps with
    | nil =>
      intro _
      rfl
    | cons dep deps ih =>
      intro hdeps
      obtain ⟨o, ho⟩ := Option.isSome_iff_exists.1 (hdeps dep (List.mem_cons_self ..))
      have hrest := ih (fun d hd => hdeps d (List.mem_cons_of_mem _ hd))
      simp [ho, hrest]
  exact hall _ (fun dep hdep => h dep (by simpa using hdep))

theorem mem_dependencyView {st : Step} {obs : Observations} {entry : String × StepObservation}
    (h : entry ∈ dependencyView st obs) : obs entry.1 = some entry.2 := by
  obtain ⟨dep, -, hentry⟩ := List.mem_filterMap.1 h
  obtain ⟨o, ho, rfl⟩ := Option.map_eq_some_iff.1 hentry
  exact ho

theorem move_calls {st : Step} {r r' : Round} {act : TaskAct} (h : TaskMove cfg st r act r') {c : Invocation}
    (hc : r'.calls = r.calls ++ [c]) : ∃ attempt upstream, r.tasks st.id = .opening attempt upstream ∧
      c = ⟨st.id, attempt, upstream⟩ := by
  have hsame : r.calls ≠ r.calls ++ [c] := by
    intro heq
    have hlen := congrArg List.length heq
    simp at hlen
  cases h with
  | acquire attempt upstream ht hfree =>
    have hlast := List.append_cancel_left hc
    exact ⟨attempt, upstream, ht, (List.singleton_inj.1 hlast).symm⟩
  | _ => exact absurd hc hsame

def Plan.DependsOn {O : Type} (plan : Plan O) (sid dep : String) : Prop := dep ∈ plan.depsOf sid

structure InPlace (plan : Plan StepObservation) (r : Round) (c : Invocation) : Prop where
  step : ∃ st ∈ plan.steps, st.id = c.stepId ∧ c.upstream.map Prod.fst = st.dependencies.eraseDups
  observed : ∀ dep ∈ plan.depsOf c.stepId, r.produced dep ∧ (r.observations dep).isSome
  upstream : ∀ entry ∈ c.upstream, r.observations entry.1 = some entry.2

theorem step_calls (hv : plan.Valid) {r r' : Round} {act : Act} {c : Invocation} (hr : RoundInv plan cfg r)
    (h : step plan cfg r act = some r') (hc : r'.calls = r.calls ++ [c]) : InPlace plan r c := by
  have hsame : r.calls ≠ r.calls ++ [c] := by
    intro heq
    have hlen := congrArg List.length heq
    simp at hlen
  cases act with
  | task st act =>
    obtain ⟨hst, hstep⟩ := Option.ite_none_right_eq_some.1 h
    obtain ⟨attempt, upstream, htask, rfl⟩ := move_calls (taskStep_move hstep) hc
    have hi := hr.steps st hst
    have hdeps := hi.depsProduced (.inl (by rw [htask]; rfl))
    have hobserved : ∀ dep ∈ st.dependencies, (r.observations dep).isSome := by
      intro dep hdep
      obtain ⟨d, hd, rfl⟩ := mem_stepIds.1 (hv.known st hst dep hdep)
      exact (hr.steps d hd).observed (hdeps d.id hdep)
    have hview := hi.view
    rw [htask] at hview
    obtain rfl : upstream = dependencyView st r.observations := hview
    refine ⟨⟨st, hst, rfl, dependencyView_keys hobserved⟩, fun dep hdep => ?_, fun entry => mem_dependencyView⟩
    rw [depsOf_mem hv.distinct hst] at hdep
    exact ⟨hdeps dep hdep, hobserved dep hdep⟩
  | cancelRound =>
    obtain ⟨-, ⟨⟩⟩ := Option.ite_none_right_eq_some.1 h
    exact absurd hc hsame
  | collect =>
    obtain ⟨-, ⟨-, -, rfl⟩ | ⟨-, rfl⟩ | ⟨-, -, rfl⟩ | ⟨-, -, rfl⟩⟩ := collect_cases h <;> exact absurd hc hsame

theorem upstream_produced (hv : plan.Valid) {r : Round} (hr : RoundInv plan cfg r) {st : Step} (hst : st ∈ plan.steps)
    (hcalled : r.callsOf st.id ≠ []) {sid : String} (h : Relation.TransGen plan.DependsOn st.id sid) :
    sid ∈ plan.stepIds ∧ r.produced sid := by
  have hnext : ∀ t ∈ plan.steps, (r.callsOf t.id ≠ [] ∨ r.produced t.id) → ∀ dep, plan.DependsOn t.id dep →
      dep ∈ plan.stepIds ∧ r.produced dep := by
    intro t ht hran dep hdep
    unfold Plan.DependsOn at hdep
    rw [depsOf_mem hv.distinct ht] at hdep
    exact ⟨hv.known t ht dep hdep, (hr.steps t ht).depsProduced (.inr hran) dep hdep⟩
  induction h with
  | single hdep => exact hnext st hst (.inl hcalled) _ hdep
  | tail _ hdep ih =>
    obtain ⟨hmem, hproduced⟩ := ih
    obtain ⟨t, ht, rfl⟩ := mem_stepIds.1 hmem
    exact hnext t ht (.inr hproduced) _ hdep

/-! ## the main result -/

structure Scheduled (plan : Plan StepObservation) (cfg : Settings) (r : Round) : Prop where
  inPlace : ∀ act r' c, step plan cfg r act = some r' → r'.calls = r.calls ++ [c] → InPlace plan r c
  notDownstream : ∀ st ∈ plan.steps, r.callsOf st.id ≠ [] →
    ∀ sid, Relation.TransGen plan.DependsOn st.id sid → r.tasks sid ≠ .done none
  attempts : ∀ st ∈ plan.steps, (r.callsOf st.id).length ≤ st.retryPolicy.maxRetries.toNat + 1
  inFlight : (plan.steps.filter (fun st => (r.tasks st.id).isExecuting)).length ≤ cfg.limit
  goesOn : r.result = none ∨ (∃ st ∈ plan.steps, (r.tasks st.id).over = false) →
    ∃ act, act.own = true ∧ (step plan cfg r act).isSome
  report : ∀ failedStep, r.result = some (.returned failedStep) →
    (failedStep.isSome ↔ ∃ st ∈ plan.steps, ¬ (r.tasks st.id).observed)

theorem scheduled_of_inv (hv : plan.Valid) {r : Round} (hr : RoundInv plan cfg r) : Scheduled plan cfg r := by
  refine ⟨fun act r' c h hc => step_calls hv hr h hc, fun st hst hcalled sid hup => ?_, fun st hst => ?_, ?_,
    fun h => round_goes_on hv hr ?_, fun failedStep hres => ?_⟩
  · obtain ⟨hmem, hproduced⟩ := upstream_produced hv hr hst hcalled hup
    obtain ⟨t, ht, rfl⟩ := mem_stepIds.1 hmem
    rw [ne_eq, ← (hr.steps t ht).failedDone, hproduced.2]
    exact Bool.false_ne_true
  · exact callsOk_le (hr.steps st hst).calls
  · rw [← Tally.sum_toNat, ← hr.slots]
    exact hr.inFlight
  · refine h.imp_right (fun hopen => ?_)
    obtain ⟨st, hst, hover⟩ := hopen
    rw [← Bool.not_eq_true, allOver_iff]
    intro hall
    rw [hall st hst] at hover
    cases hover
  · rcases hr.report failedStep hres with ⟨rfl, hall⟩ | ⟨hf, st, hst, hend⟩
    · refine ⟨nofun, ?_⟩
      rintro ⟨st, hst, hnot⟩
      exact absurd (hall st hst) hnot
    · refine ⟨fun _ => ⟨st, hst, ?_⟩, fun _ => Option.ne_none_iff_isSome.1 hf⟩
      rintro ⟨obs, hobs⟩
      rw [hobs] at hend
      rcases hend with hend | hend <;> cases hend

/-- **Engine scheduling safety.**  In a round of a valid plan whose skipped steps have the observation they carry, for
every schedule of its tasks and every outcome of every call: `Scheduled` holds throughout, and the round has a bounded
number of steps. -/
theorem schedule_safe (plan : Plan StepObservation) (cfg : Settings) (seed : Observations) (hvalid : plan.validate = .ok ())
    (hcarried : Carried plan seed) :
    (∀ r, Reaches (step plan cfg) (startRound plan seed) r → Scheduled plan cfg r) ∧
      ∀ acts r, exec (step plan cfg) (startRound plan seed) acts = some r →
        acts.length ≤ (plan.steps.map (fun st => 3 * st.attempts + 3)).sum + 2 := by
  have hv := validate_spec hvalid
  refine ⟨fun r hreach => scheduled_of_inv hv (roundInv_run hv hcarried hreach), fun acts r hexec => ?_⟩
  have hle := exec_rank hv acts hexec (roundInv_start hcarried)
  have hstart : (startRound plan seed).rank plan = (plan.steps.map (fun st => 3 * st.attempts + 3)).sum + 2 := rfl
  omega

def readStep : Step := { id := "read", retryPolicy := { maxRetries := 1 } }
def writeStep : Step := { id := "write", dependencies := ["read"] }

def chainPlan : Plan StepObservation := { steps := [readStep, writeStep] }

theorem schedule_safe_chain :
    Scheduled chainPlan ⟨2, true, []⟩
      (play (step chainPlan ⟨2, true, []⟩) (startRound chainPlan (fun _ => none))
        [.task readStep .proceed, .task readStep .permitted, .task readStep .numbered, .task readStep .acquire]) :=
  (schedule_safe chainPlan ⟨2, true, []⟩ (fun _ => none) (by decide)
    (by unfold Carried; decide)).1 _ (reaches_play (by decide))

def uncarriedPlan : Plan StepObservation := { steps := [{ readStep with skip := true }, writeStep] }

def noRetryPlan : Plan StepObservation := { steps := [{ readStep with retryPolicy := { maxRetries := -1 } }] }

def earlier : Observations := fun sid => some { stepId := sid, output := "earlier" }

def readFails : List Act :=
  [.task readStep .proceed, .task readStep .numbered, .task readStep .acquire,
    .task readStep (.executed (.raises ⟨"503", false⟩)), .task readStep .recorded, .task writeStep .proceed, .collect]

/-- **Where a round does otherwise.**  A skipped step without an observation lets its dependent be executed with an empty
view; `max_concurrency = 0` still lets one step be executed; `max_retries = -1` still leaves one attempt; and a round
reports the step that failed although the map still holds the observation of an earlier round for every step. -/
theorem schedule_exceptions :
    (uncarriedPlan.validate = .ok () ∧
      ∃ r, Reaches (step uncarriedPlan ⟨0, false, []⟩) (startRound uncarriedPlan (fun _ => none)) r ∧
        r.calls = [⟨"write", 1, []⟩] ∧ uncarriedPlan.depsOf "write" = ["read"] ∧ r.observations "read" = none ∧
        ((uncarriedPlan.steps.filter (fun st => (r.tasks st.id).isExecuting)).length : Int) > 0) ∧
    (noRetryPlan.validate = .ok () ∧
      ∃ r, Reaches (step noRetryPlan ⟨1, false, []⟩) (startRound noRetryPlan (fun _ => none)) r ∧
        ((r.callsOf "read").length : Int) > -1 + 1) ∧
    (chainPlan.validate = .ok () ∧
      ∃ r, Reaches (step chainPlan ⟨1, false, []⟩) (startRound chainPlan earlier) r ∧
        r.result = some (.returned (some "write")) ∧ ∀ st ∈ chainPlan.steps, r.observations st.id ≠ none) := by
  refine ⟨⟨by decide, play (step uncarriedPlan ⟨0, false, []⟩) (startRound uncarriedPlan (fun _ => none))
      [.task { readStep with skip := true } .proceed, .task writeStep .proceed, .task writeStep .numbered,
        .task writeStep .acquire], reaches_play (by decide), by decide, by decide, by decide, by decide⟩,
    ⟨by decide, play (step noRetryPlan ⟨1, false, []⟩) (startRound noRetryPlan (fun _ => none))
      [.task { readStep with retryPolicy := { maxRetries := -1 } } .proceed,
        .task { readStep with retryPolicy := { maxRetries := -1 } } .numbered,
        .task { readStep with retryPolicy := { maxRetries := -1 } } .acquire], reaches_play (by decide), by decide⟩,
    ⟨by decide, play (step chainPlan ⟨1, false, []⟩) (startRound chainPlan earlier) readFails,
      reaches_play (by decide), by decide, by decide⟩⟩

end

end Workflow
end MyGpt
