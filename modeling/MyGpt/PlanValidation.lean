import MyGpt.WorkflowPlan
/-!
# PlanValidation — a plan validates exactly when it is a DAG

The other half of `validate_spec`: Kahn's loop never gives up on an acyclic plan, because some step that is left depends
on no step that is left (`toposortLoop_total`), and it emits every step once.
-/
namespace MyGpt
namespace Workflow

variable {O : Type} {plan : Plan O}

/-- A step named `sid` lists `dep` as a dependency. -/
def Plan.NamesDependency (plan : Plan O) (sid dep : String) : Prop := ∃ s ∈ plan.steps, s.id = sid ∧ dep ∈ s.dependencies

theorem namesDependency_iff (hd : plan.stepIds.Nodup) {sid dep : String} :
    plan.NamesDependency sid dep ↔ dep ∈ plan.depsOf sid := by
  constructor
  · rintro ⟨s, hs, rfl, hdep⟩
    rw [depsOf_mem hd hs]
    exact hdep
  · intro h
    unfold Plan.depsOf at h
    cases hget : plan.get sid with
    | none =>
      rw [hget] at h
      cases h
    | some s =>
      rw [hget] at h
      obtain ⟨hs, rfl⟩ := plan.get_some hget
      exact ⟨s, hs, rfl, h⟩

theorem acyclic_iff (hd : plan.stepIds.Nodup) :
    Dag.Acyclic plan.depsOf ↔ ∀ sid, ¬ Relation.TransGen plan.NamesDependency sid sid := by
  have hrel : plan.NamesDependency = fun sid dep => dep ∈ plan.depsOf sid := by
    funext sid dep
    exact propext (namesDependency_iff hd)
  rw [hrel]
  rfl

/-! ## the checks, the other way -/

theorem checkIds_iff : ∀ {ids seen : List String},
    checkIds seen ids = .ok () ↔ ids.Nodup ∧ ∀ sid ∈ ids, sid ∉ seen := by
  intro ids
  induction ids with
  | nil => simp [checkIds]
  | cons sid ids ih =>
    intro seen
    constructor
    · exact checkIds_ok
    · rintro ⟨hnodup, hnew⟩
      obtain ⟨hsid, hrest⟩ := List.nodup_cons.1 hnodup
      unfold checkIds
      rw [if_neg (by simpa using hnew sid List.mem_cons_self)]
      refine ih.2 ⟨hrest, fun x hx => ?_⟩
      rw [List.mem_cons, not_or]
      exact ⟨fun h => hsid (h ▸ hx), hnew x (List.mem_cons_of_mem _ hx)⟩

theorem checkDependencies_iff {idSet : List String} : ∀ {steps : List Step},
    checkDependencies idSet steps = .ok () ↔ ∀ s ∈ steps, ∀ d ∈ s.dependencies, d ∈ idSet := by
  intro steps
  induction steps with
  | nil => simp [checkDependencies]
  | cons s steps ih =>
    constructor
    · exact checkDependencies_ok
    · intro h
      have hnone : s.dependencies.find? (fun d => !idSet.contains d) = none := by
        rw [List.find?_eq_none]
        intro d hd
        simpa using h s List.mem_cons_self d hd
      unfold checkDependencies
      rw [hnone]
      exact ih.2 (fun t ht => h t (List.mem_cons_of_mem _ ht))

/-! ## Kahn's loop -/

structure Sorting (plan : Plan O) (order : List String) (remaining : List (String × List String)) : Prop where
  perm : (order ++ remaining.map Prod.fst).Perm plan.stepIds
  deps : ∀ node ∈ remaining, node.2 = plan.depsOf node.1

theorem Sorting.start (hd : plan.stepIds.Nodup) :
    Sorting plan [] (plan.steps.map (fun s => (s.id, s.dependencies))) where
  perm := by simp [Plan.stepIds, Function.comp_def]
  deps := by
    intro node hnode
    obtain ⟨st, hst, rfl⟩ := List.mem_map.1 hnode
    exact (depsOf_mem hd hst).symm

theorem Sorting.turn (hd : plan.stepIds.Nodup) {order ready : List String} {remaining : List (String × List String)}
    (h : Sorting plan order remaining)
    (hready : (remaining.filter (fun node => node.2.all (order.contains ·))).map Prod.fst = ready) :
    Sorting plan (order ++ plan.stepIds.filter (ready.contains ·))
      (remaining.filter (fun node => !ready.contains node.1)) where
  perm := by
    have hall : (order ++ remaining.map Prod.fst).Nodup := h.perm.nodup_iff.2 hd
    have hsub : ∀ sid ∈ ready, sid ∈ remaining.map Prod.fst := by
      intro sid hsid
      rw [← hready] at hsid
      obtain ⟨node, hnode, rfl⟩ := List.mem_map.1 hsid
      exact List.mem_map_of_mem (List.mem_filter.1 hnode).1
    have hmap : (remaining.filter (fun node => !ready.contains node.1)).map Prod.fst =
        (remaining.map Prod.fst).filter (fun sid => !ready.contains sid) := by
      rw [List.filter_map]
      rfl
    -- the declared ready steps are the remaining ready steps
    have hemit : (plan.stepIds.filter (ready.contains ·)).Perm ((remaining.map Prod.fst).filter (ready.contains ·)) := by
      rw [List.perm_ext_iff_of_nodup (hd.filter _) (hall.of_append_right.filter _)]
      intro sid
      simp only [List.mem_filter, List.contains_iff_mem]
      constructor
      · exact fun hsid => ⟨hsub sid hsid.2, hsid.2⟩
      · exact fun hsid => ⟨h.perm.subset (List.mem_append_right _ hsid.1), hsid.2⟩
    rw [hmap, List.append_assoc]
    refine List.Perm.trans (List.Perm.append_left _ ?_) h.perm
    exact (hemit.append_right _).trans (List.filter_append_perm _ _)
  deps := fun node hnode => h.deps node (List.mem_filter.1 hnode).1

/-- **On an acyclic plan the loop never gives up**: some remaining step depends on no remaining step. -/
theorem Sorting.ready_ne_nil {order : List String} {remaining : List (String × List String)}
    (h : Sorting plan order remaining) (hne : remaining ≠ [])
    (hknown : ∀ sid, ∀ d ∈ plan.depsOf sid, d ∈ plan.stepIds) (hacyclic : Dag.Acyclic plan.depsOf) :
    (remaining.filter (fun node => node.2.all (order.contains ·))).map Prod.fst ≠ [] := by
  obtain ⟨sid, hsid, hfree⟩ := hacyclic.exists_free (l := remaining.map Prod.fst) (by simpa using hne)
  obtain ⟨node, hnode, rfl⟩ := List.mem_map.1 hsid
  refine List.ne_nil_of_mem (a := node.1) (List.mem_map_of_mem (List.mem_filter.2 ⟨hnode, ?_⟩))
  rw [h.deps node hnode, List.all_eq_true]
  intro d hd
  have hmem : d ∈ order ++ remaining.map Prod.fst := h.perm.symm.subset (hknown _ d hd)
  rcases List.mem_append.1 hmem with hmem | hmem
  · simpa using hmem
  · exact absurd hmem (hfree d hd)

theorem toposortLoop_total (hd : plan.stepIds.Nodup) (hknown : ∀ sid, ∀ d ∈ plan.depsOf sid, d ∈ plan.stepIds)
    (hacyclic : Dag.Acyclic plan.depsOf) : ∀ (fuel : Nat) (order : List String)
    (remaining : List (String × List String)), remaining.length ≤ fuel → Sorting plan order remaining →
    ∃ result, toposortLoop plan fuel order remaining = .ok result := by
  intro fuel
  induction fuel with
  | zero =>
    intro order remaining hfuel _
    obtain rfl := List.eq_nil_of_length_eq_zero (Nat.le_zero.1 hfuel)
    exact ⟨order, rfl⟩
  | succ fuel ih =>
    intro order remaining hfuel h
    cases remaining with
    | nil => exact ⟨order, rfl⟩
    | cons node rest =>
      have hready := h.ready_ne_nil (List.cons_ne_nil node rest) hknown hacyclic
      have hturn := h.turn hd rfl
      unfold toposortLoop
      dsimp only
      rw [if_neg (by simpa using hready)]
      refine ih _ _ ?_ hturn
      have hless : ((node :: rest).filter (fun n => !(((node :: rest).filter
          (fun n => n.2.all (order.contains ·))).map Prod.fst).contains n.1)).length < (node :: rest).length := by
        obtain ⟨sid, hsid⟩ := List.exists_mem_of_ne_nil _ hready
        obtain ⟨n, hn, -⟩ := List.mem_map.1 hsid
        refine List.length_filter_lt_length_iff_exists.2 ⟨n, (List.mem_filter.1 hn).1, ?_⟩
        simpa using List.mem_map_of_mem (f := Prod.fst) hn
      exact Nat.le_of_lt_succ (Nat.lt_of_lt_of_le hless hfuel)

theorem toposortLoop_perm (hd : plan.stepIds.Nodup) : ∀ (fuel : Nat) (order result : List String)
    (remaining : List (String × List String)), Sorting plan order remaining →
    toposortLoop plan fuel order remaining = .ok result → result.Perm plan.stepIds := by
  intro fuel
  induction fuel with
  | zero =>
    intro order result remaining h hrun
    cases remaining with
    | nil =>
      obtain rfl : order = result := by simpa [toposortLoop] using hrun
      simpa using h.perm
    | cons node rest => simp [toposortLoop] at hrun
  | succ fuel ih =>
    intro order result remaining h hrun
    cases remaining with
    | nil =>
      obtain rfl : order = result := by simpa [toposortLoop] using hrun
      simpa using h.perm
    | cons node rest =>
      unfold toposortLoop at hrun
      dsimp only at hrun
      split at hrun
      · cases hrun
      · exact ih _ _ _ (h.turn hd rfl) hrun

/-! ## validation -/

theorem depsOf_known (hknown : ∀ s ∈ plan.steps, ∀ d ∈ s.dependencies, d ∈ plan.stepIds) (sid : String) :
    ∀ d ∈ plan.depsOf sid, d ∈ plan.stepIds := by
  intro d hdep
  unfold Plan.depsOf at hdep
  cases hget : plan.get sid with
  | none =>
    rw [hget] at hdep
    cases hdep
  | some s =>
    rw [hget] at hdep
    exact hknown s (plan.get_some hget).1 d hdep

theorem toposort_total (hd : plan.stepIds.Nodup) (hknown : ∀ s ∈ plan.steps, ∀ d ∈ s.dependencies, d ∈ plan.stepIds)
    (hacyclic : Dag.Acyclic plan.depsOf) : ∃ order, toposort plan = .ok order :=
  toposortLoop_total hd (depsOf_known hknown) hacyclic _ [] _ (by simp) (.start hd)

theorem Plan.Valid.acyclic (hv : plan.Valid) : Dag.Acyclic plan.depsOf := by
  obtain ⟨order, hord, hall⟩ := hv.ordered
  refine hord.acyclic (fun sid hne => hall sid ?_)
  obtain ⟨dep, hdep⟩ := List.exists_mem_of_ne_nil _ hne
  obtain ⟨s, hs, rfl, -⟩ := (namesDependency_iff hv.distinct).2 hdep
  exact mem_stepIds.2 ⟨s, hs, rfl⟩

theorem validate_of_acyclic (hd : plan.stepIds.Nodup)
    (hknown : ∀ s ∈ plan.steps, ∀ d ∈ s.dependencies, d ∈ plan.stepIds) (hacyclic : Dag.Acyclic plan.depsOf) :
    plan.validate = .ok () := by
  obtain ⟨order, horder⟩ := toposort_total hd hknown hacyclic
  have hids : checkIds [] plan.stepIds = .ok () := checkIds_iff.2 ⟨hd, by simp⟩
  have hdeps : checkDependencies plan.stepIds plan.steps = .ok () := checkDependencies_iff.2 hknown
  unfold Plan.validate
  rw [hids, hdeps, horder]
  rfl

theorem Plan.Valid.validate (hv : plan.Valid) : plan.validate = .ok () :=
  validate_of_acyclic hv.distinct hv.known hv.acyclic

theorem Plan.Valid.of_same {O' : Type} {revised : Plan O'} (hv : plan.Valid) {f : Step → Step}
    (hsteps : revised.steps = plan.steps.map f) (hf : ∀ st, (f st).id = st.id ∧ (f st).dependencies = st.dependencies) :
    revised.Valid := by
  have hids : revised.stepIds = plan.stepIds := by
    unfold Plan.stepIds
    rw [hsteps, List.map_map]
    exact List.map_congr_left (fun st _ => (hf st).1)
  have hdeps : revised.depsOf = plan.depsOf := by
    funext sid
    unfold Plan.depsOf Plan.get
    rw [hsteps, List.find?_map, Option.map_map]
    congr 2
    · funext st
      exact (hf st).2
    · congr 1
      funext st
      simp [(hf st).1]
  refine ⟨hids ▸ hv.distinct, fun s hs d hd => ?_, ?_⟩
  · rw [hsteps] at hs
    obtain ⟨st, hst, rfl⟩ := List.mem_map.1 hs
    rw [(hf st).2] at hd
    exact hids ▸ hv.known st hst d hd
  · rw [hids, hdeps]
    exact hv.ordered

/-- **Validation accepts exactly the DAGs**, and orders the steps of an accepted plan along their dependencies. -/
theorem validate_iff_dag (plan : Plan O) :
    (plan.validate = .ok () ↔ plan.stepIds.Nodup ∧ (∀ s ∈ plan.steps, ∀ d ∈ s.dependencies, d ∈ plan.stepIds) ∧
      ∀ sid, ¬ Relation.TransGen plan.NamesDependency sid sid) ∧
    (plan.validate = .ok () → ∃ order, toposort plan = .ok order ∧ order.Perm plan.stepIds ∧
      ∀ pre sid post, order = pre ++ sid :: post → ∀ d, plan.NamesDependency sid d → d ∈ pre) := by
  refine ⟨⟨fun h => ?_, fun h => ?_⟩, fun h => ?_⟩
  · have hv := validate_spec h
    exact ⟨hv.distinct, hv.known, (acyclic_iff hv.distinct).1 hv.acyclic⟩
  · exact validate_of_acyclic h.1 h.2.1 ((acyclic_iff h.1).2 h.2.2)
  · obtain ⟨-, -, order, horder⟩ := validate_ok h
    have hv := validate_spec h
    refine ⟨order, horder, toposortLoop_perm hv.distinct _ _ _ _ (.start hv.distinct) horder, ?_⟩
    intro pre sid post hs d hdep
    exact (toposort_ok hv.distinct horder).1.before hs d ((namesDependency_iff hv.distinct).1 hdep)

/-- A step that names itself is a cycle. -/
example : Plan.validate (O := Unit) { steps := [{ id := "a", dependencies := ["a"] }] } = .error (.cycle ["a"]) := by
  decide +kernel

end Workflow
end MyGpt
