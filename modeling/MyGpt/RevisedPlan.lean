import MyGpt.PlanRevision
import MyGpt.PlanValidation
/-!
# RevisedPlan — what a revision runs again and what it keeps

`revise_plan` on a valid plan always returns a plan, and its steps and dependencies are those of the old one, so it
validates (`revisePlan_total`).  The worklist of `_downstream_closure` finds the steps that transitively depend on a
flagged one and no others (`mem_mustRerun`).
-/
namespace MyGpt
namespace Workflow

open Relation (TransGen)

variable {O : Type} {plan : Plan O}

def Downstream (plan : Plan O) (flagged : List String) (sid : String) : Prop :=
  ∃ root ∈ flagged, TransGen plan.NamesDependency sid root

/-! ## the steps that run again -/

theorem downstream_of_search {flagged : List String} {fuel : Nat} {sid : String}
    (h : sid ∈ Worklist.search (dependentsOf plan.steps) fuel [] flagged) (hnew : sid ∉ flagged) :
    Downstream plan flagged sid := by
  have hinherit : ∀ x, (x ∈ flagged ∨ Downstream plan flagged x) →
      ∀ y ∈ dependentsOf plan.steps x, y ∈ flagged ∨ Downstream plan flagged y := by
    intro x hx y hy
    obtain ⟨s, hs, rfl, hdep⟩ := mem_dependentsOf.1 hy
    have hstep : plan.NamesDependency s.id x := ⟨s, hs, rfl, hdep⟩
    rcases hx with hroot | ⟨root, hroot, hpath⟩
    · exact .inr ⟨x, hroot, .single hstep⟩
    · exact .inr ⟨root, hroot, .head hstep hpath⟩
  have hfound := Worklist.search_forall hinherit fuel [] flagged nofun (fun x hx => .inl hx) sid h
  exact hfound.resolve_left hnew

theorem mem_mustRerun (hd : plan.stepIds.Nodup) {flagged : List String} {sid : String} :
    sid ∈ mustRerun plan flagged ↔ sid ∈ flagged ∨ Downstream plan flagged sid := by
  constructor
  · intro h
    rcases List.mem_append.1 h with h | h
    · exact .inl h
    · obtain ⟨hfound, hnew⟩ := List.mem_filter.1 h
      exact .inr (downstream_of_search hfound (by simpa using hnew))
  · rintro (h | ⟨root, hroot, hpath⟩)
    · exact List.mem_append_left _ h
    · -- along the path, from the flagged step to its dependent
      induction hpath using TransGen.head_induction_on with
      | single hstep =>
        obtain ⟨s, hs, rfl, hdep⟩ := hstep
        exact mustRerun_closed hd hs hdep (List.mem_append_left _ hroot)
      | head hstep _ ih =>
        obtain ⟨s, hs, rfl, hdep⟩ := hstep
        exact mustRerun_closed hd hs hdep ih

/-! ## the new plan -/

theorem revisePlan_unknown {flagged : List String} {observations : String → Option O} {findings : List String}
    {sid : String} (h : sid ∈ flagged) (hunknown : sid ∉ plan.stepIds) :
    ∃ ids, revisePlan plan flagged observations findings = .error (.unknownRevise ids) := by
  have hne : flagged.eraseDups.filter (fun s => !plan.stepIds.contains s) ≠ [] :=
    List.ne_nil_of_mem (List.mem_filter.2 ⟨List.mem_eraseDups.2 h, by simpa using hunknown⟩)
  unfold revisePlan
  dsimp only
  rw [if_pos hne]
  exact ⟨_, rfl⟩

/-- **A revision that flags known steps returns a plan**, with every field as `revise_plan` sets it. -/
theorem revisePlan_total (hv : plan.Valid) {flagged : List String} (observations : String → Option O)
    (findings : List String) (hknown : ∀ sid ∈ flagged, sid ∈ plan.stepIds) :
    ∃ revised : Plan O, revisePlan plan flagged observations findings = .ok revised ∧ revised.Valid ∧
      revised.steps = plan.steps.map
        (reviseStep (mustRerun plan flagged.eraseDups) (plan.replanCount + 1) findings) ∧
      revised.carryObservations = fun sid =>
        if plan.stepIds.contains sid && !(mustRerun plan flagged.eraseDups).contains sid then observations sid
        else none := by
  have hnil : flagged.eraseDups.filter (fun s => !plan.stepIds.contains s) = [] := by
    rw [List.filter_eq_nil_iff]
    intro s hs
    simpa using hknown s (List.mem_eraseDups.1 hs)
  have hsame : ∀ st, (reviseStep (mustRerun plan flagged.eraseDups) (plan.replanCount + 1) findings st).id = st.id ∧
      (reviseStep (mustRerun plan flagged.eraseDups) (plan.replanCount + 1) findings st).dependencies =
        st.dependencies :=
    fun st => ⟨(reviseStep_id _ _ findings st).1, (reviseStep_id _ _ findings st).2.1⟩
  have hval : Plan.Valid
      { version := plan.version + 1
        steps := plan.steps.map (reviseStep (mustRerun plan flagged.eraseDups) (plan.replanCount + 1) findings)
        replanCount := plan.replanCount + 1
        maxReplans := plan.maxReplans
        carryObservations := fun sid =>
          if plan.stepIds.contains sid && !(mustRerun plan flagged.eraseDups).contains sid then observations sid
          else none } := hv.of_same rfl hsame
  refine ⟨_, ?_, hval, rfl, rfl⟩
  unfold revisePlan
  dsimp only
  rw [if_neg (by simpa using hnil), hval.validate]
  rfl

/-- **A revision reruns what is flagged and all that depends on it, and keeps the rest** with its observation; an id
that is no step of the plan is rejected. -/
theorem revisePlan_correct (plan : Plan O) (flagged : List String) (observations : String → Option O)
    (findings : List String) (hvalid : plan.validate = .ok ()) :
    ((∀ sid ∈ flagged, sid ∈ plan.stepIds) →
      ∃ revised : Plan O, revisePlan plan flagged observations findings = .ok revised ∧
        revised.validate = .ok () ∧ revised.steps.map (fun st => (st.id, st.dependencies)) =
          plan.steps.map (fun st => (st.id, st.dependencies)) ∧
        (∀ st ∈ revised.steps, st.skip = false ↔
          st.id ∈ flagged ∨ ∃ root ∈ flagged, TransGen plan.NamesDependency st.id root) ∧
        (∀ st ∈ revised.steps, st.skip = true →
          ∀ dep ∈ revised.steps, dep.id ∈ st.dependencies → dep.skip = true) ∧
        (∀ sid o, revised.carryObservations sid = some o →
          observations sid = some o ∧ ∃ st ∈ revised.steps, st.id = sid ∧ st.skip = true) ∧
        revised.version = plan.version + 1 ∧ revised.replanCount = plan.replanCount + 1) ∧
    ((∃ sid ∈ flagged, sid ∉ plan.stepIds) →
      ∃ ids, revisePlan plan flagged observations findings = .error (.unknownRevise ids)) := by
  have hv := validate_spec hvalid
  refine ⟨fun hknown => ?_, fun ⟨sid, hsid, hunknown⟩ => revisePlan_unknown hsid hunknown⟩
  obtain ⟨revised, hrun, hvalid', hsteps, hcarry⟩ := revisePlan_total hv observations findings hknown
  obtain ⟨hversion, hcount, -⟩ := revisePlan_counts hrun
  have hrerun : ∀ sid, sid ∈ mustRerun plan flagged.eraseDups ↔
      sid ∈ flagged ∨ ∃ root ∈ flagged, TransGen plan.NamesDependency sid root := by
    intro sid
    rw [mem_mustRerun hv.distinct]
    simp [Downstream]
  have hskip : ∀ st ∈ revised.steps, st.skip = !(mustRerun plan flagged.eraseDups).contains st.id := by
    intro st hst
    rw [hsteps] at hst
    obtain ⟨old, -, rfl⟩ := List.mem_map.1 hst
    rw [(reviseStep_id _ _ findings old).1]
    exact (reviseStep_id _ _ findings old).2.2
  refine ⟨revised, hrun, hvalid'.validate, ?_, ?_, ?_, ?_, hversion, hcount⟩
  · rw [hsteps, List.map_map]
    refine List.map_congr_left (fun st _ => ?_)
    simp [(reviseStep_id _ _ findings st).1, (reviseStep_id _ _ findings st).2.1]
  · intro st hst
    rw [← hrerun, hskip st hst]
    simp
  · intro st hst hkept dep hdep hmem
    rw [hskip st hst] at hkept
    rw [hskip dep hdep]
    rw [hsteps] at hst
    obtain ⟨old, hold, rfl⟩ := List.mem_map.1 hst
    rw [(reviseStep_id _ _ findings old).1] at hkept
    rw [(reviseStep_id _ _ findings old).2.1] at hmem
    have hnot : old.id ∉ mustRerun plan flagged.eraseDups := by simpa using hkept
    simpa using fun h => hnot (mustRerun_closed hv.distinct hold hmem h)
  · intro sid o ho
    rw [hcarry] at ho
    dsimp only at ho
    split at ho
    · rename_i hc
      obtain ⟨hmem, hkept⟩ : sid ∈ plan.stepIds ∧ sid ∉ mustRerun plan flagged.eraseDups := by simpa using hc
      obtain ⟨st, hst, rfl⟩ := mem_stepIds.1 hmem
      have hnew := List.mem_map_of_mem
        (f := reviseStep (mustRerun plan flagged.eraseDups) (plan.replanCount + 1) findings) hst
      rw [← hsteps] at hnew
      refine ⟨ho, _, hnew, (reviseStep_id _ _ findings st).1, ?_⟩
      rw [hskip _ hnew, (reviseStep_id _ _ findings st).1]
      simpa using hkept
    · cases ho

theorem revisePlan_correct_chain :
    ∃ revised, revisePlan ({ steps := [{ id := "a" }, { id := "b", dependencies := ["a"] }, { id := "c" }] } : Plan String)
      ["a"] (fun sid => some sid) [] = .ok revised ∧ revised.validate = .ok () ∧ revised.version = 2 := by
  obtain ⟨revised, hrun, hvalid, -, -, -, -, hversion, -⟩ :=
    (revisePlan_correct ({ steps := [{ id := "a" }, { id := "b", dependencies := ["a"] }, { id := "c" }] } : Plan String)
      ["a"] (fun sid => some sid) [] (by decide +kernel)).1 (by decide +kernel)
  exact ⟨revised, hrun, hvalid, hversion⟩

end Workflow
end MyGpt
