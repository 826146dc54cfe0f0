import MyGpt.Lib.Dag
/-!
# WorkflowPlan — steps, plans and their validation

The part of `agents/workflow/schemas.py` the engine works on: a plan is a list of steps that name their dependencies,
validated by unique ids, known dependencies and Kahn's algorithm (`_toposort`).  `validate_spec` says what a validated
plan is: its ids are distinct, its dependencies are steps of it, and there is an order of its ids in which every step
follows its dependencies.
-/
namespace MyGpt
namespace Workflow

/-- What an executor raised: its message, and the flag a `StepError` carries. -/
structure StepFailure where
  message : String
  transient : Bool
  deriving DecidableEq

structure RetryPolicy where
  maxRetries : Int := 0
  transientErrors : List String := []
  deriving DecidableEq

def RetryPolicy.isTransient (policy : RetryPolicy) (error : StepFailure) : Bool :=
  error.transient || policy.transientErrors.any (fun token => decide (token.toList <:+: error.message.toList))

structure Step where
  id : String
  dependencies : List String := []
  retryPolicy : RetryPolicy := {}
  skip : Bool := false
  revisionRound : Nat := 0
  reviewFindings : List String := []
  deriving DecidableEq

structure StepObservation where
  stepId : String
  output : String := ""
  usage : Option (List (String × Nat)) := none
  attempts : Nat := 1
  deriving DecidableEq

structure Plan (O : Type) where
  version : Nat := 1
  steps : List Step := []
  replanCount : Nat := 0
  maxReplans : Int := 1
  carryObservations : String → Option O := fun _ => none

inductive PlanValidationError
  | duplicateId (sid : String)
  | unknownDependency (sid dep : String)
  | cycle (involving : List String)
  | unknownRevise (stepIds : List String)
  deriving DecidableEq

variable {O : Type} (plan : Plan O)

def Plan.stepIds : List String := plan.steps.map (·.id)

def Plan.get (stepId : String) : Option Step := plan.steps.find? (·.id = stepId)

def Plan.depsOf (stepId : String) : List String := ((plan.get stepId).map (·.dependencies)).getD []

/-- The loop of `_toposort`: it emits the steps whose dependencies are all emitted.  Every turn takes at least one step
out of `remaining`, so as many turns as there are steps are enough. -/
def toposortLoop : Nat → List String → List (String × List String) → Except PlanValidationError (List String)
  | _, order, [] => .ok order
  | 0, _, remaining => .error (.cycle ((remaining.map Prod.fst).mergeSort (· ≤ ·)))
  | fuel + 1, order, remaining =>
    let ready := (remaining.filter (fun node => node.2.all (order.contains ·))).map Prod.fst
    if ready.isEmpty then
      .error (.cycle ((remaining.map Prod.fst).mergeSort (· ≤ ·)))
    else
      -- in the order the plan declares them
      let readyInOrder := plan.stepIds.filter (ready.contains ·)
      toposortLoop fuel (order ++ readyInOrder) (remaining.filter (fun node => !ready.contains node.1))

def toposort : Except PlanValidationError (List String) :=
  toposortLoop plan plan.steps.length [] (plan.steps.map (fun s => (s.id, s.dependencies)))

def checkIds : List String → List String → Except PlanValidationError Unit
  | _, [] => .ok ()
  | seen, sid :: ids => if seen.contains sid then .error (.duplicateId sid) else checkIds (sid :: seen) ids

def checkDependencies (idSet : List String) : List Step → Except PlanValidationError Unit
  | [] => .ok ()
  | s :: steps =>
    match s.dependencies.find? (fun d => !idSet.contains d) with
    | some d => .error (.unknownDependency s.id d)
    | none => checkDependencies idSet steps

def Plan.validate : Except PlanValidationError Unit := do
  checkIds [] plan.stepIds
  checkDependencies plan.stepIds plan.steps
  let _ ← toposort plan
  return ()

/-- **What validation establishes.** -/
structure Plan.Valid : Prop where
  distinct : plan.stepIds.Nodup
  known : ∀ s ∈ plan.steps, ∀ d ∈ s.dependencies, d ∈ plan.stepIds
  ordered : ∃ order, Dag.Ordered plan.depsOf order ∧ ∀ sid ∈ plan.stepIds, sid ∈ order

/-! ## lookups -/

theorem Plan.get_some {sid : String} {st : Step} (h : plan.get sid = some st) : st ∈ plan.steps ∧ st.id = sid :=
  ⟨List.mem_of_find?_eq_some h, by simpa using List.find?_some h⟩

variable {plan}

theorem get_mem (hd : plan.stepIds.Nodup) {st : Step} (h : st ∈ plan.steps) : plan.get st.id = some st := by
  unfold Plan.get
  unfold Plan.stepIds at hd
  generalize plan.steps = steps at *
  induction steps with
  | nil => cases h
  | cons s steps ih =>
    simp only [List.map_cons, List.nodup_cons] at hd
    rcases List.mem_cons.1 h with rfl | h
    · simp
    · have hne : s.id ≠ st.id := by
        intro heq
        exact hd.1 (heq ▸ List.mem_map_of_mem h)
      rw [List.find?_cons_of_neg (by simpa using hne)]
      exact ih hd.2 h

theorem depsOf_mem (hd : plan.stepIds.Nodup) {st : Step} (h : st ∈ plan.steps) :
    plan.depsOf st.id = st.dependencies := by
  simp [Plan.depsOf, get_mem hd h]

theorem mem_stepIds {sid : String} : sid ∈ plan.stepIds ↔ ∃ st ∈ plan.steps, st.id = sid := by
  simp [Plan.stepIds]

/-! ## validation -/

theorem checkIds_ok : ∀ {ids seen : List String}, checkIds seen ids = .ok () →
    ids.Nodup ∧ ∀ sid ∈ ids, sid ∉ seen := by
  intro ids
  induction ids with
  | nil =>
    intro seen _
    exact ⟨List.nodup_nil, fun sid h => by cases h⟩
  | cons sid ids ih =>
    intro seen h
    unfold checkIds at h
    split at h
    · cases h
    · rename_i hseen
      obtain ⟨hnodup, hnew⟩ := ih h
      have hsid : sid ∉ ids := fun hmem => hnew sid hmem (List.mem_cons_self ..)
      refine ⟨List.nodup_cons.2 ⟨hsid, hnodup⟩, ?_⟩
      intro x hx
      rcases List.mem_cons.1 hx with rfl | hx
      · simpa using hseen
      · exact fun hmem => hnew x hx (List.mem_cons_of_mem _ hmem)

theorem checkDependencies_ok {idSet : List String} : ∀ {steps : List Step}, checkDependencies idSet steps = .ok () →
    ∀ s ∈ steps, ∀ d ∈ s.dependencies, d ∈ idSet := by
  intro steps
  induction steps with
  | nil =>
    intro _ s hs
    cases hs
  | cons s steps ih =>
    intro h
    unfold checkDependencies at h
    split at h
    · cases h
    · rename_i hnone
      intro t ht
      rcases List.mem_cons.1 ht with rfl | ht
      · intro d hd
        simpa using List.find?_eq_none.1 hnone d hd
      · exact ih h t ht

theorem mem_ready {order : List String} {remaining : List (String × List String)} {sid : String}
    (hdeps : ∀ node ∈ remaining, node.2 = plan.depsOf node.1)
    (h : sid ∈ (remaining.filter (fun node => node.2.all (order.contains ·))).map Prod.fst) :
    ∀ d ∈ plan.depsOf sid, d ∈ order := by
  obtain ⟨node, hnode, rfl⟩ := List.mem_map.1 h
  obtain ⟨hmem, hall⟩ := List.mem_filter.1 hnode
  rw [hdeps node hmem, List.all_eq_true] at hall
  intro d hd
  simpa using hall d hd

theorem toposortLoop_ok : ∀ {fuel : Nat} {order result : List String} {remaining : List (String × List String)},
    toposortLoop plan fuel order remaining = .ok result → Dag.Ordered plan.depsOf order →
    (∀ node ∈ remaining, node.2 = plan.depsOf node.1) →
    (∀ sid ∈ plan.stepIds, sid ∈ order ∨ sid ∈ remaining.map Prod.fst) →
    Dag.Ordered plan.depsOf result ∧ ∀ sid ∈ plan.stepIds, sid ∈ result := by
  intro fuel
  induction fuel with
  | zero =>
    intro order result remaining h hord _ hall
    cases remaining with
    | nil =>
      obtain rfl : order = result := by simpa [toposortLoop] using h
      exact ⟨hord, fun sid hsid => by simpa using hall sid hsid⟩
    | cons node remaining => simp [toposortLoop] at h
  | succ fuel ih =>
    intro order result remaining h hord hdeps hall
    cases remaining with
    | nil =>
      obtain rfl : order = result := by simpa [toposortLoop] using h
      exact ⟨hord, fun sid hsid => by simpa using hall sid hsid⟩
    | cons node rest =>
      unfold toposortLoop at h
      dsimp only at h
      split at h
      · cases h
      generalize hready : ((node :: rest).filter (fun node => node.2.all (order.contains ·))).map Prod.fst = ready at h
      refine ih h (hord.append (fun sid hsid => ?_)) (fun n hn => hdeps n (List.mem_filter.1 hn).1) (fun sid hsid => ?_)
      · have hmem : sid ∈ ready := by simpa using (List.mem_filter.1 hsid).2
        exact mem_ready hdeps (hready ▸ hmem)
      · rcases hall sid hsid with hemitted | hleft
        · exact .inl (List.mem_append_left _ hemitted)
        by_cases hmem : sid ∈ ready
        · exact .inl (List.mem_append_right _ (List.mem_filter.2 ⟨hsid, by simpa using hmem⟩))
        · obtain ⟨n, hn, rfl⟩ := List.mem_map.1 hleft
          exact .inr (List.mem_map_of_mem (List.mem_filter.2 ⟨hn, by simpa using hmem⟩))

theorem validate_ok (h : plan.validate = .ok ()) : checkIds [] plan.stepIds = .ok () ∧
    checkDependencies plan.stepIds plan.steps = .ok () ∧ ∃ order, toposort plan = .ok order := by
  unfold Plan.validate at h
  cases hids : checkIds [] plan.stepIds with
  | error e => simp [hids, bind, Except.bind] at h
  | ok u =>
    cases hdeps : checkDependencies plan.stepIds plan.steps with
    | error e => simp [hids, hdeps, bind, Except.bind] at h
    | ok u' =>
      cases htopo : toposort plan with
      | error e => simp [hids, hdeps, htopo, bind, Except.bind] at h
      | ok order => exact ⟨rfl, rfl, order, rfl⟩

theorem toposort_ok (hd : plan.stepIds.Nodup) {order : List String} (h : toposort plan = .ok order) :
    Dag.Ordered plan.depsOf order ∧ ∀ sid ∈ plan.stepIds, sid ∈ order := by
  refine toposortLoop_ok h .nil (fun node hnode => ?_) (fun sid hsid => .inr ?_)
  · obtain ⟨st, hst, rfl⟩ := List.mem_map.1 hnode
    exact (depsOf_mem hd hst).symm
  · simpa [Plan.stepIds, Function.comp_def] using hsid

/-- **A plan that validates is a DAG**: unique ids, known dependencies, an order in which steps follow theirs. -/
theorem validate_spec (h : plan.validate = .ok ()) : plan.Valid := by
  obtain ⟨hids, hdeps, order, htopo⟩ := validate_ok h
  have hdistinct := (checkIds_ok hids).1
  exact ⟨hdistinct, checkDependencies_ok hdeps, order, toposort_ok hdistinct htopo⟩

theorem Plan.Valid.induct (hv : plan.Valid) {P : Step → Prop}
    (hP : ∀ st ∈ plan.steps, (∀ dep ∈ plan.steps, dep.id ∈ st.dependencies → P dep) → P st) :
    ∀ st ∈ plan.steps, P st := by
  obtain ⟨order, hord, hall⟩ := hv.ordered
  have hids : ∀ sid ∈ order, ∀ st ∈ plan.steps, st.id = sid → P st := by
    refine hord.induct (fun sid ih st hst hid => ?_)
    refine hP st hst (fun dep hdep hmem => ih dep.id ?_ dep hdep rfl)
    rw [← hid, depsOf_mem hv.distinct hst]
    exact hmem
  intro st hst
  exact hids st.id (hall st.id (mem_stepIds.2 ⟨st, hst, rfl⟩)) st hst rfl

end Workflow
end MyGpt
