import MyGpt.WorkflowPlan
import MyGpt.Continuation
import MyGpt.Lib.Worklist
/-!
# PlanRevision — a new version of a plan that reworks some steps

`revise_plan`: the flagged steps and everything downstream of them run again, and every other step is skipped with the
observation it has.  The steps that are kept depend only on steps that are kept (`kept_closed`).
-/
namespace MyGpt
namespace Workflow

variable {O : Type}

/-- The steps that name `sid` as a dependency, as often as they do. -/
def dependentsOf (steps : List Step) (sid : String) : List String :=
  steps.flatMap (fun s => (s.dependencies.filter (· == sid)).map (fun _ => s.id))

/-- `_downstream_closure`: every root and every step is taken off the stack once at most. -/
def downstreamClosure (steps : List Step) (roots : List String) : List String :=
  (Worklist.search (dependentsOf steps) (steps.length + roots.length) [] roots).filter (fun sid => !roots.contains sid)

/-- What `revise_plan` runs again. -/
def mustRerun (plan : Plan O) (reviseStepIds : List String) : List String :=
  reviseStepIds ++ downstreamClosure plan.steps reviseStepIds

def findingsText (findings : List String) : List String :=
  (findings.map (fun f => String.ofList (Chat.strip f.toList))).filter (· ≠ "")

def reviseStep (rerun : List String) (nextRound : Nat) (findings : List String) (st : Step) : Step :=
  if rerun.contains st.id then
    { st with skip := false, revisionRound := nextRound, reviewFindings := findingsText findings }
  else { st with skip := true }

def revisePlan (plan : Plan O) (reviseStepIds : List String) (observations : String → Option O)
    (findings : List String) : Except PlanValidationError (Plan O) :=
  let reviseSet := reviseStepIds.eraseDups
  let unknown := reviseSet.filter (fun sid => !plan.stepIds.contains sid)
  if unknown ≠ [] then .error (.unknownRevise (unknown.mergeSort (· ≤ ·)))
  else
    let rerun := mustRerun plan reviseSet
    let revised : Plan O :=
      { version := plan.version + 1
        steps := plan.steps.map (reviseStep rerun (plan.replanCount + 1) findings)
        replanCount := plan.replanCount + 1
        maxReplans := plan.maxReplans
        carryObservations := fun sid =>
          if plan.stepIds.contains sid && !rerun.contains sid then observations sid else none }
    revised.validate.map (fun _ => revised)

/-! ## what is kept -/

theorem mem_dependentsOf {steps : List Step} {sid child : String} :
    child ∈ dependentsOf steps sid ↔ ∃ s ∈ steps, s.id = child ∧ sid ∈ s.dependencies := by
  simp only [dependentsOf, List.mem_flatMap, List.mem_map, List.mem_filter, beq_iff_eq]
  constructor
  · rintro ⟨s, hs, d, ⟨hd, rfl⟩, rfl⟩
    exact ⟨s, hs, rfl, hd⟩
  · rintro ⟨s, hs, rfl, hd⟩
    exact ⟨s, hs, sid, ⟨hd, rfl⟩, rfl⟩

theorem mustRerun_closed {plan : Plan O} (hd : plan.stepIds.Nodup) {ids : List String} {st : Step}
    (hst : st ∈ plan.steps) {dep : String} (hdep : dep ∈ st.dependencies) (h : dep ∈ mustRerun plan ids) :
    st.id ∈ mustRerun plan ids := by
  have hnext : ∀ x, ∀ y ∈ dependentsOf plan.steps x, y ∈ plan.stepIds := by
    intro x y hy
    obtain ⟨s, hs, rfl, -⟩ := mem_dependentsOf.1 hy
    exact List.mem_map_of_mem hs
  have hfuel : Worklist.unseen plan.stepIds [] + ids.length ≤ plan.steps.length + ids.length := by
    simp [Worklist.unseen, Plan.stepIds]
  obtain ⟨-, hclosed⟩ := Worklist.search_closed hd hnext _ [] _ hfuel
  have hchild : st.id ∈ dependentsOf plan.steps dep := mem_dependentsOf.2 ⟨st, hst, rfl, hdep⟩
  have hfound : st.id ∈ Worklist.search (dependentsOf plan.steps) (plan.steps.length + ids.length) [] ids := by
    refine hclosed dep ?_ st.id hchild
    rcases List.mem_append.1 h with h | h
    · exact .inl h
    · exact .inr ⟨(List.mem_filter.1 h).1, List.not_mem_nil⟩
  by_cases hroot : st.id ∈ ids
  · exact List.mem_append_left _ hroot
  · exact List.mem_append_right _ (List.mem_filter.2 ⟨hfound, by simpa using hroot⟩)

/-- **What a revision is**: the same steps and dependencies, and the steps that do not run again are skipped. -/
structure Revises (plan revised : Plan O) (rerun : List String) : Prop where
  ids : revised.stepIds = plan.stepIds
  deps : ∀ sid, revised.depsOf sid = plan.depsOf sid
  get : ∀ sid, (revised.get sid).map (·.skip) = (plan.get sid).map (fun _ => !rerun.contains sid)
  kept : ∀ sid ∈ plan.stepIds, ∀ dep ∈ plan.depsOf sid, sid ∉ rerun → dep ∉ rerun

theorem reviseStep_id (rerun : List String) (n : Nat) (findings : List String) (st : Step) :
    (reviseStep rerun n findings st).id = st.id ∧
      (reviseStep rerun n findings st).dependencies = st.dependencies ∧
      (reviseStep rerun n findings st).skip = !rerun.contains st.id := by
  unfold reviseStep
  cases h : rerun.contains st.id with
  | true | false => exact ⟨rfl, rfl, rfl⟩

theorem revisePlan_counts {plan revised : Plan O} {ids : List String} {observations : String → Option O}
    {findings : List String} (h : revisePlan plan ids observations findings = .ok revised) :
    revised.version = plan.version + 1 ∧ revised.replanCount = plan.replanCount + 1 ∧
      revised.maxReplans = plan.maxReplans := by
  unfold revisePlan at h
  dsimp only at h
  split at h
  · cases h
  · cases hval : Plan.validate _ with
    | error e => rw [hval] at h; cases h
    | ok u =>
      rw [hval] at h
      rw [← Except.ok.inj h]
      exact ⟨rfl, rfl, rfl⟩

theorem revisePlan_spec {plan revised : Plan O} (hd : plan.stepIds.Nodup) {ids : List String}
    {observations : String → Option O} {findings : List String}
    (h : revisePlan plan ids observations findings = .ok revised) :
    Revises plan revised (mustRerun plan ids.eraseDups) := by
  unfold revisePlan at h
  dsimp only at h
  split at h
  · cases h
  obtain ⟨u, -, hrevised⟩ : ∃ u, _ ∧ _ = revised := by
    cases hval : Plan.validate _ with
    | error e => rw [hval] at h; cases h
    | ok u => rw [hval] at h; exact ⟨u, hval, Except.ok.inj h⟩
  have hsteps : revised.steps = plan.steps.map
      (reviseStep (mustRerun plan ids.eraseDups) (plan.replanCount + 1) findings) := by rw [← hrevised]
  have hget : ∀ sid, revised.get sid = (plan.get sid).map
      (reviseStep (mustRerun plan ids.eraseDups) (plan.replanCount + 1) findings) := by
    intro sid
    unfold Plan.get
    rw [hsteps, List.find?_map]
    congr 2
    funext st
    simp [(reviseStep_id _ _ findings st).1]
  refine ⟨?_, fun sid => ?_, fun sid => ?_, fun sid hsid dep hdep hkept hrerun => ?_⟩
  · unfold Plan.stepIds
    rw [hsteps, List.map_map]
    exact List.map_congr_left (fun st _ => (reviseStep_id _ _ findings st).1)
  · unfold Plan.depsOf
    rw [hget, Option.map_map]
    congr 2
    funext st
    exact (reviseStep_id _ _ findings st).2.1
  · rw [hget, Option.map_map]
    cases hst : plan.get sid with
    | none => rfl
    | some st =>
      simp [(reviseStep_id _ _ findings st).2.2, (Plan.get_some plan hst).2]
  · obtain ⟨st, hst, rfl⟩ := mem_stepIds.1 hsid
    rw [depsOf_mem hd hst] at hdep
    exact hkept (mustRerun_closed hd hst hdep hrerun)

end Workflow
end MyGpt
