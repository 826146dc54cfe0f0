import MyGpt.EngineRun
/-!
# ReplanBound — how often a run revises its plan

A revision needs a unit of both budgets, and every count of revisions moves with it: the run's, the version of the plan
and the one the plan carries.  Each round but the last ends with a revision, so the rounds are bounded with them.
-/
namespace MyGpt
namespace Workflow

open Budget (Metered BudgetGuard)
open Trace (Reaches exec)

variable {O F : Type} [Metered F]

/-! ## the decision -/

theorem decideRevision_revise {verdict : ReviewVerdict} {budget : ReplanBudget}
    (h : (decideRevision verdict budget).action = .revise) :
    (budget.replansUsed : Int) < budget.planMax ∧ budget.guardRemaining.all (0 < ·) = true := by
  unfold decideRevision at h
  dsimp only at h
  split at h
  · cases h
  split at h
  · cases h
  split at h
  · cases h
  rename_i hplan
  split at h
  · cases h
  rename_i hguard
  exact ⟨by simpa [ReplanBudget.planAllows] using hplan, by simpa [ReplanBudget.guardAllows] using hguard⟩

theorem spendReplanUnit_within {guard spent : Option (BudgetGuard F)} {elapsed : F}
    (h : spendReplanUnit guard elapsed = (spent, none)) :
    ∀ g, guard = some g → g.replans < g.limits.maxReplanCount := by
  rintro g rfl
  have hnone : (g.enterReplan elapsed).2 = none := congrArg Prod.snd h
  unfold BudgetGuard.enterReplan BudgetGuard.exhaustionReason at hnone
  dsimp only at hnone
  split at hnone
  · cases hnone
  split at hnone
  · cases hnone
  split at hnone
  · cases hnone
  · omega

/-! ## one step -/

structure EngineRun.SameCounts (r r' : EngineRun O F) : Prop where
  current : r'.current = r.current
  replans : r'.replans = r.replans
  revisions : r'.revisions = r.revisions

structure EngineRun.Ended (r : EngineRun O F) : Prop where
  finished : r.phase.over = true
  reported : ∀ result, r.phase = .returned result → result.replans = r.replans

structure EngineRun.Revised (r r' : EngineRun O F) : Prop where
  version : r'.current.version = r.current.version + 1
  replanCount : r'.current.replanCount = r.current.replanCount + 1
  maxReplans : r'.current.maxReplans = r.current.maxReplans
  replans : r'.replans = r.replans + 1
  revisions : r'.revisions = r.revisions ++ [⟨r.current, r.guard⟩]
  phase : r'.phase = .executing
  planAllowed : (r.replans : Int) < r.current.maxReplans
  guardAllowed : ∀ g, r.guard = some g → g.replans < g.limits.maxReplanCount

theorem finish_ended (r : EngineRun O F) (status : RunStatus) (findings : List String) (error : Option String) :
    (r.finish status findings error).Ended := by
  refine ⟨rfl, fun result h => ?_⟩
  cases h
  rfl

theorem revise_cases (r : EngineRun O F) (spent : Option (BudgetGuard F)) (verdict : VerifierResult)
    (decision : RevisionDecision) (hplan : (r.replans : Int) < r.current.maxReplans)
    (hguard : ∀ g, r.guard = some g → g.replans < g.limits.maxReplanCount) :
    (r.SameCounts (r.revise spent verdict decision) ∧ (r.revise spent verdict decision).Ended) ∨
      r.Revised (r.revise spent verdict decision) := by
  unfold EngineRun.revise
  cases hrevised : revisePlan r.current verdict.reviseStepIds r.observations decision.findings with
  | error e => exact .inl ⟨⟨rfl, rfl, rfl⟩, rfl, nofun⟩
  | ok revised =>
    obtain ⟨hversion, hcount, hmax⟩ := revisePlan_counts hrevised
    exact .inr ⟨hversion, hcount, hmax, rfl, rfl, rfl, hplan, hguard⟩

theorem verified_cases (r : EngineRun O F) (verdict : VerifierResult) (reads : Bool) (elapsed : F) :
    (r.SameCounts (r.verified verdict reads elapsed) ∧ (r.verified verdict reads elapsed).Ended) ∨
      r.Revised (r.verified verdict reads elapsed) := by
  unfold EngineRun.verified
  dsimp only
  cases verdict.verdict with
  | pass | fail => exact .inl ⟨⟨rfl, rfl, rfl⟩, finish_ended _ _ _ _⟩
  | revise =>
    dsimp only
    split
    · exact .inl ⟨⟨rfl, rfl, rfl⟩, finish_ended _ _ _ _⟩
    split
    · exact .inl ⟨⟨rfl, rfl, rfl⟩, finish_ended _ _ _ _⟩
    rename_i hstops
    have haction : (r.decision verdict reads).action = .revise := by
      simpa [RevisionDecision.stops] using hstops
    split
    · exact .inl ⟨⟨rfl, rfl, rfl⟩, finish_ended _ _ _ _⟩
    · rename_i spent hspent
      have hplan := (decideRevision_revise haction).1
      rcases revise_cases { r with
          verifierHistory := r.verifierHistory ++ [verdict]
          reviewTrace := r.reviewTrace ++ [⟨r.replans, verdict, r.decision verdict reads, false⟩] }
        spent verdict (r.decision verdict reads) hplan (spendReplanUnit_within hspent) with h | h
      · exact .inl ⟨⟨h.1.current, h.1.replans, h.1.revisions⟩, h.2⟩
      · exact .inr { h with }

def RunPhase.left : RunPhase O → Nat
  | .executing => 2
  | .verifying => 1
  | .returned _ | .raised => 0

theorem RunPhase.left_over {phase : RunPhase O} : phase.left = 0 ↔ phase.over = true := by
  cases phase <;> simp [RunPhase.left, RunPhase.over]

structure EngineRun.Kept (act : EngineAct O F) (r r' : EngineRun O F) : Prop where
  counts : r.SameCounts r'
  less : act.ofEngine = true → r'.phase.left < r.phase.left
  le : r'.phase.left ≤ r.phase.left
  reported : ∀ result, r'.phase = .returned result → result.replans = r'.replans ∨ r'.phase = r.phase

theorem executed_kept {r : EngineRun O F} (hphase : r.phase = .executing) (stepObservations : String → Option O)
    (peak : Nat) (failedStep : Option String) :
    EngineRun.Kept (.executed stepObservations peak failedStep) r (r.executed stepObservations peak failedStep) := by
  have hnow : r.phase.left = 2 := by rw [hphase]; rfl
  cases failedStep with
  | some sid =>
    refine ⟨⟨rfl, rfl, rfl⟩, fun _ => ?_, ?_, fun result hres => ?_⟩
    · rw [hnow]; exact Nat.zero_lt_two
    · exact Nat.zero_le _
    · cases hres
      exact .inl rfl
  | none =>
    refine ⟨⟨rfl, rfl, rfl⟩, fun _ => ?_, ?_, nofun⟩
    · rw [hnow]; exact Nat.one_lt_two
    · rw [hnow]; exact Nat.le_succ 1

theorem engineStep_cases {r r' : EngineRun O F} {act : EngineAct O F} (h : engineStep r act = some r') :
    EngineRun.Kept act r r' ∨ (r.phase = .verifying ∧ r.Revised r') := by
  cases act with
  | executed stepObservations peak failedStep =>
    simp only [engineStep] at h
    split at h
    · rename_i hphase
      cases h
      exact .inl (executed_kept hphase stepObservations peak failedStep)
    · cases h
  | verified verdict reads elapsed =>
    simp only [engineStep] at h
    split at h
    · rename_i hphase
      cases h
      rcases verified_cases r verdict reads elapsed with ⟨hsame, hended⟩ | hrevised
      · have hleft : (r.verified verdict reads elapsed).phase.left = 0 := RunPhase.left_over.2 hended.finished
        have hnow : r.phase.left = 1 := by rw [hphase]; rfl
        refine .inl ⟨hsame, fun _ => ?_, ?_, fun result hres => .inl (hended.reported result hres)⟩
        · omega
        · omega
      · exact .inr ⟨hphase, hrevised⟩
    · cases h
  | raised =>
    simp only [engineStep] at h
    split at h
    · cases h
    · rename_i hover
      cases h
      have hpos : r.phase.left ≠ 0 := fun hzero => hover (RunPhase.left_over.1 hzero)
      exact .inl ⟨⟨rfl, rfl, rfl⟩, fun _ => Nat.pos_of_ne_zero hpos, Nat.zero_le _, nofun⟩
  | metered used =>
    obtain ⟨g, -, rfl⟩ := Option.map_eq_some_iff.1 h
    exact .inl ⟨⟨rfl, rfl, rfl⟩, nofun, le_refl _, fun _ _ => .inr rfl⟩

/-! ## every run -/

/-- **Bounded replanning**: no more revisions than the plan allows; all counts of them agree; and each was made with a
unit left in both budgets. -/
structure EngineRun.Bounded (plan : Plan O) (r : EngineRun O F) : Prop where
  atMost : (r.replans : Int) ≤ max 0 plan.maxReplans
  executed : r.revisions.length = r.replans
  version : r.current.version = plan.version + r.replans
  replanCount : r.current.replanCount = plan.replanCount + r.replans
  reported : ∀ result, r.phase = .returned result → result.replans = r.replans
  budgeted : ∀ (k : Nat) (revision : Revision O F), r.revisions[k]? = some revision →
    (k : Int) < plan.maxReplans ∧ ∀ g, revision.guard = some g → g.replans < g.limits.maxReplanCount

structure EngineInv (plan : Plan O) (r : EngineRun O F) : Prop where
  bounded : r.Bounded plan
  maxReplans : r.current.maxReplans = plan.maxReplans

theorem engineInv_start (plan : Plan O) (checkpoints : String → Option O) (guard : Option (BudgetGuard F)) :
    EngineInv plan (EngineRun.start plan checkpoints guard) := by
  refine ⟨⟨?_, rfl, rfl, rfl, fun result h => ?_, fun k revision h => ?_⟩, rfl⟩
  · exact le_max_left _ _
  · unfold EngineRun.start at h
    dsimp only at h
    split at h <;> cases h
  · cases h

theorem engineInv_step {plan : Plan O} {r r' : EngineRun O F} {act : EngineAct O F} (hr : EngineInv plan r)
    (h : engineStep r act = some r') : EngineInv plan r' := by
  obtain ⟨⟨hatMost, hexecuted, hversion, hcount, hreported, hbudgeted⟩, hmax⟩ := hr
  rcases engineStep_cases h with ⟨hsame, -, -, hend⟩ | ⟨-, hrev⟩
  · refine ⟨⟨?_, ?_, ?_, ?_, fun result hres => ?_, ?_⟩, ?_⟩
    · rw [hsame.replans]; exact hatMost
    · rw [hsame.revisions, hsame.replans]; exact hexecuted
    · rw [hsame.current, hsame.replans]; exact hversion
    · rw [hsame.current, hsame.replans]; exact hcount
    · rcases hend result hres with hrep | hphase
      · exact hrep
      · rw [hsame.replans]
        exact hreported result (hphase ▸ hres)
    · rw [hsame.revisions]; exact hbudgeted
    · rw [hsame.current]; exact hmax
  · have hallowed := hrev.planAllowed
    rw [hmax] at hallowed
    refine ⟨⟨?_, ?_, ?_, ?_, fun result hres => ?_, fun k revision hk => ?_⟩, hrev.maxReplans.trans hmax⟩
    · rw [hrev.replans]
      omega
    · rw [hrev.revisions, hrev.replans, List.length_append, hexecuted]
      rfl
    · rw [hrev.version, hrev.replans, hversion, Nat.add_assoc]
    · rw [hrev.replanCount, hrev.replans, hcount, Nat.add_assoc]
    · rw [hrev.phase] at hres
      cases hres
    · rw [hrev.revisions, List.getElem?_append] at hk
      split at hk
      · exact hbudgeted k revision hk
      · rename_i hlen
        obtain ⟨hzero, rfl⟩ : k - r.revisions.length = 0 ∧ revision = ⟨r.current, r.guard⟩ := by
          rw [List.getElem?_singleton] at hk
          split at hk
          · rename_i hzero
            exact ⟨hzero, (Option.some.inj hk).symm⟩
          · cases hk
        exact ⟨by omega, hrev.guardAllowed⟩

def roundsRank (plan : Plan O) (r : EngineRun O F) : Nat := 2 * (plan.maxReplans.toNat - r.replans) + r.phase.left

theorem roundsRank_step {plan : Plan O} {r r' : EngineRun O F} {act : EngineAct O F} (hr : EngineInv plan r)
    (h : engineStep r act = some r') : roundsRank plan r' + (if act.ofEngine then 1 else 0) ≤ roundsRank plan r := by
  unfold roundsRank
  rcases engineStep_cases h with ⟨hsame, hless, hle, -⟩ | ⟨hphase, hrev⟩
  · rw [hsame.replans]
    split
    · rename_i hengine
      have := hless hengine
      omega
    · omega
  · -- a revision pays for the next round
    have hallowed := hrev.planAllowed
    rw [hr.maxReplans] at hallowed
    have hnext : r'.phase.left = 2 := by rw [hrev.phase]; rfl
    have hnow : r.phase.left = 1 := by rw [hphase]; rfl
    rw [hrev.replans, hnext, hnow]
    split <;> omega

def EngineRun.Proceeds (r : EngineRun O F) : Prop :=
  (∀ stepObservations peak failedStep, (engineStep r (.executed stepObservations peak failedStep)).isSome) ∨
    ∀ verdict reads elapsed, (engineStep r (.verified verdict reads elapsed)).isSome

theorem proceeds_of_not_over {r : EngineRun O F} (h : r.phase.over = false) : r.Proceeds := by
  cases hphase : r.phase with
  | executing => exact .inl (fun _ _ _ => by simp [engineStep, hphase])
  | verifying => exact .inr (fun _ _ _ => by simp [engineStep, hphase])
  | returned | raised => simp [hphase, RunPhase.over] at h

/-- **Engine replanning is bounded.**  For every plan, checkpoints and guard, whatever the rounds and the verifier come
back with, whatever else the guard is used for and wherever the run raises: the revisions of every run are bounded and
counted, the engine takes two steps a round for one round more than the plan has revisions, and until the run is over it
has a next step. -/
theorem replanning_bounded (plan : Plan O) (checkpoints : String → Option O) (guard : Option (BudgetGuard F)) :
    (∀ r, Reaches engineStep (EngineRun.start plan checkpoints guard) r →
      r.Bounded plan ∧ (r.phase.over = false → r.Proceeds)) ∧
    ∀ acts r, exec engineStep (EngineRun.start plan checkpoints guard) acts = some r →
      acts.countP EngineAct.ofEngine ≤ 2 * (plan.maxReplans.toNat + 1) := by
  have hstart := engineInv_start plan checkpoints guard
  refine ⟨fun r hr => ⟨?_, proceeds_of_not_over⟩, fun acts r hacts => ?_⟩
  · exact (hr.invariant hstart (fun _ _ _ hs _ h => engineInv_step hs h)).bounded
  · have hcount := @Trace.countP_le_rank _ _ engineStep _ (roundsRank plan) EngineAct.ofEngine
      (fun _ _ _ hs h => engineInv_step hs h) (fun _ _ _ hs h => roundsRank_step hs h) acts _ _ hstart hacts
    have hrank : roundsRank plan (EngineRun.start plan checkpoints guard) ≤ 2 * plan.maxReplans.toNat + 2 := by
      have hleft : (EngineRun.start plan checkpoints guard).phase.left ≤ 2 := by
        unfold RunPhase.left
        split <;> omega
      unfold roundsRank
      have hzero : (EngineRun.start plan checkpoints guard).replans = 0 := rfl
      omega
    omega

end Workflow
end MyGpt
