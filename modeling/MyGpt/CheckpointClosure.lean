import MyGpt.Checkpoints
/-!
# CheckpointClosure — the greatest set of steps that a resume can reuse

The steps `apply_checkpoints` reuses stand on each other, or on steps that were skipped with an observation of theirs
before; there is no greater set of checkpointed steps that does (`applyCheckpoints_greatest`).  Every turn of the loop but
the last reuses a step, so it has no more turns than the plan has steps, and one.
-/
namespace MyGpt
namespace Workflow

variable {O : Type} {plan : Plan O}

/-- What `apply_checkpoints` begins with: the skipped steps whose observations the plan carries. -/
def Plan.carried (plan : Plan O) : List String :=
  (plan.steps.filter (fun s => s.skip && (plan.carryObservations s.id).isSome)).map (·.id)

def reusable (plan : Plan O) (checkpoints : String → Option O) : List String :=
  plan.stepIds.filter (fun sid => (checkpoints sid).isSome)

/-- **Checkpointed steps that stand together**: what a step depends on is one of them, or its observation is carried. -/
structure Together (plan : Plan O) (checkpoints : String → Option O) (steps : Set String) : Prop where
  stored : ∀ sid ∈ steps, sid ∈ reusable plan checkpoints
  closed : ∀ sid ∈ steps, ∀ dep ∈ plan.depsOf sid, dep ∈ steps ∨ dep ∈ plan.carried

/-! ## the loop -/

def readySteps (plan : Plan O) (pending done : List String) : List String :=
  (pending.filter (fun sid => (plan.depsOf sid).all (done.contains ·))).insertionSort (· ≤ ·)

theorem mem_readySteps {pending done : List String} {sid : String} :
    sid ∈ readySteps plan pending done ↔ sid ∈ pending ∧ ∀ dep ∈ plan.depsOf sid, dep ∈ done := by
  unfold readySteps
  rw [List.mem_insertionSort, List.mem_filter, List.all_eq_true]
  simp

theorem applyLoop_succ (fuel : Nat) (pending done reused : List String) :
    applyLoop plan (fuel + 1) pending done reused =
      if readySteps plan pending done = [] then reused
      else applyLoop plan fuel (pending.filter (fun sid => !(readySteps plan pending done).contains sid))
        (done ++ readySteps plan pending done) (reused ++ readySteps plan pending done) := rfl

theorem pending_shorter {pending done : List String} (h : readySteps plan pending done ≠ []) :
    (pending.filter (fun sid => !(readySteps plan pending done).contains sid)).length < pending.length := by
  obtain ⟨sid, hsid⟩ := List.exists_mem_of_ne_nil _ h
  refine List.length_filter_lt_length_iff_exists.2 ⟨sid, (mem_readySteps.1 hsid).1, ?_⟩
  simp [hsid]

theorem readySteps_nil (done : List String) : readySteps plan [] done = [] := rfl

/-- **The loop is over** after as many turns as there are steps: any more find nothing to reuse. -/
theorem applyLoop_fuel : ∀ (fuel fuel' : Nat) {pending done reused : List String}, pending.length ≤ fuel →
    pending.length ≤ fuel' → applyLoop plan fuel pending done reused = applyLoop plan fuel' pending done reused := by
  have hover : ∀ (fuel : Nat) (done reused : List String), applyLoop plan fuel [] done reused = reused := by
    intro fuel done reused
    cases fuel with
    | zero => rfl
    | succ fuel => rw [applyLoop_succ, readySteps_nil, if_pos rfl]
  intro fuel
  induction fuel with
  | zero =>
    intro fuel' pending done reused h _
    rw [List.eq_nil_of_length_eq_zero (Nat.le_zero.1 h), hover, hover]
  | succ fuel ih =>
    intro fuel' pending done reused h h'
    cases fuel' with
    | zero => rw [List.eq_nil_of_length_eq_zero (Nat.le_zero.1 h'), hover, hover]
    | succ fuel' =>
      rw [applyLoop_succ, applyLoop_succ]
      split
      · rfl
      · rename_i hready
        have hshorter := pending_shorter hready
        exact ih fuel' (by omega) (by omega)

theorem reused_subset : ∀ (fuel : Nat) {pending done reused : List String} {sid : String}, sid ∈ reused →
    sid ∈ applyLoop plan fuel pending done reused := by
  intro fuel
  induction fuel with
  | zero =>
    intro pending done reused sid h
    exact h
  | succ fuel ih =>
    intro pending done reused sid h
    rw [applyLoop_succ]
    split
    · exact h
    · exact ih (List.mem_append_left _ h)

theorem applyLoop_complete : ∀ (fuel : Nat) {pending done reused : List String} {sid : String},
    pending.length ≤ fuel → (∀ x ∈ reused, x ∈ done) → sid ∈ pending →
    (∀ dep ∈ plan.depsOf sid, dep ∈ applyLoop plan fuel pending done reused ∨ dep ∈ done) →
    sid ∈ applyLoop plan fuel pending done reused := by
  intro fuel
  induction fuel with
  | zero =>
    intro pending done reused sid hfuel _ hsid
    rw [List.eq_nil_of_length_eq_zero (Nat.le_zero.1 hfuel)] at hsid
    cases hsid
  | succ fuel ih =>
    intro pending done reused sid hfuel hreused hsid hdeps
    rw [applyLoop_succ] at hdeps ⊢
    split at hdeps
    · rename_i hnone
      -- everything reused is done, so the step was ready
      have hready : sid ∈ readySteps plan pending done :=
        mem_readySteps.2 ⟨hsid, fun dep hdep => (hdeps dep hdep).elim (hreused dep) id⟩
      rw [hnone] at hready
      cases hready
    · rename_i hsome
      rw [if_neg hsome]
      by_cases hready : sid ∈ readySteps plan pending done
      · exact reused_subset fuel (List.mem_append_right _ hready)
      · have hshorter := pending_shorter hsome
        refine ih (by omega) (fun x hx => ?_) (List.mem_filter.2 ⟨hsid, by simp [hready]⟩)
          (fun dep hdep => (hdeps dep hdep).imp_right (List.mem_append_left _))
        rcases List.mem_append.1 hx with hx | hx
        · exact List.mem_append_left _ (hreused x hx)
        · exact List.mem_append_right _ hx

/-! ## the set that is reused -/

theorem reusable_length (plan : Plan O) (checkpoints : String → Option O) :
    (reusable plan checkpoints).length ≤ plan.steps.length := by
  have hle := List.length_filter_le (fun sid => (checkpoints sid).isSome) plan.stepIds
  rwa [Plan.stepIds, List.length_map] at hle

theorem reusedSteps_together (plan : Plan O) (checkpoints : String → Option O) :
    Together plan checkpoints {sid | sid ∈ reusedSteps plan checkpoints} := by
  have hloop := applyLoop_spec plan (P := (· ∈ reusable plan checkpoints)) plan.carried plan.steps.length
    (fun _ hsid => .inr hsid) (fun _ hsid => hsid) (fun _ hsid => absurd hsid List.not_mem_nil)
  exact ⟨fun sid hsid => (hloop sid hsid).1, fun sid hsid => (hloop sid hsid).2⟩

theorem together_reused (hv : plan.Valid) {checkpoints : String → Option O} {steps : Set String}
    (h : Together plan checkpoints steps) : ∀ sid ∈ steps, sid ∈ reusedSteps plan checkpoints := by
  have hids : ∀ st ∈ plan.steps, st.id ∈ steps → st.id ∈ reusedSteps plan checkpoints := by
    refine hv.induct (fun st hst ih hsid => ?_)
    refine applyLoop_complete plan.steps.length (reusable_length plan checkpoints)
      (fun _ hx => absurd hx List.not_mem_nil) (h.stored _ hsid) ?_
    intro dep hdep
    refine (h.closed _ hsid dep hdep).imp_left (fun hmem => ?_)
    obtain ⟨d, hd, rfl⟩ := mem_stepIds.1 (List.mem_filter.1 (h.stored dep hmem)).1
    rw [depsOf_mem hv.distinct hst] at hdep
    exact ih d hd hdep hmem
  intro sid hsid
  obtain ⟨st, hst, rfl⟩ := mem_stepIds.1 (List.mem_filter.1 (h.stored sid hsid)).1
  exact hids st hst hsid

/-- **Checkpoint reuse is the greatest consistent subset** of the checkpointed steps, and the loop that finds it ends. -/
theorem applyCheckpoints_greatest (plan : Plan O) (hvalid : plan.validate = .ok ()) (checkpoints : String → Option O) :
    Together plan checkpoints {sid | sid ∈ (applyCheckpoints plan checkpoints).2} ∧
      (∀ steps : Set String, Together plan checkpoints steps → ∀ sid ∈ steps, sid ∈ (applyCheckpoints plan checkpoints).2) ∧
      ∀ turns, plan.steps.length ≤ turns →
        applyLoop plan turns (reusable plan checkpoints) plan.carried [] = (applyCheckpoints plan checkpoints).2 := by
  refine ⟨reusedSteps_together plan checkpoints, fun steps h => together_reused (validate_spec hvalid) h, ?_⟩
  intro turns hturns
  have hlength := reusable_length plan checkpoints
  exact applyLoop_fuel turns plan.steps.length (by omega) hlength

/-- `read` was skipped with its observation; `write` has a checkpoint. -/
def carriedPlan : Plan Nat :=
  { steps := [{ id := "read", skip := true }, { id := "write", dependencies := ["read"] }]
    carryObservations := fun sid => if sid = "read" then some 1 else none }

def writeOnly : String → Option Nat := fun sid => if sid = "write" then some 2 else none

theorem applyCheckpoints_greatest_carried :
    Together carriedPlan writeOnly {sid | sid ∈ (applyCheckpoints carriedPlan writeOnly).2} ∧
      ∀ steps : Set String, Together carriedPlan writeOnly steps →
        ∀ sid ∈ steps, sid ∈ (applyCheckpoints carriedPlan writeOnly).2 := by
  have h := applyCheckpoints_greatest carriedPlan (by decide) writeOnly
  exact ⟨h.1, h.2.1⟩

/-- A step is reused on a dependency that is not: its observation is carried already. -/
theorem carried_not_reused :
    ¬ ∀ (plan : Plan Nat) (checkpoints : String → Option Nat), plan.validate = .ok () →
      ∀ sid ∈ (applyCheckpoints plan checkpoints).2, ∀ dep ∈ plan.depsOf sid, dep ∈ (applyCheckpoints plan checkpoints).2 := by
  intro h
  exact absurd (h carriedPlan writeOnly (by decide) "write" (by decide) "read" (by decide)) (by decide)

end Workflow
end MyGpt
