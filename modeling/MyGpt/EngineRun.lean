import MyGpt.Checkpoints
import MyGpt.BudgetGuard
/-!
# EngineRun — execute, verify, revise

`WorkflowEngine.run`: a round of the current plan, a verdict on what it produced, and the decision what follows from the
verdict and the two replan budgets, the plan's own and the one of the run's guard.  A round and a verdict are whatever
the executor and the verifier make of them, and the guard is shared: other code meters on it while the engine waits.
-/
namespace MyGpt
namespace Workflow

open Budget (Metered BudgetGuard)

inductive VerificationVerdict
  | pass
  | revise
  | fail
  deriving DecidableEq

structure VerifierResult where
  verdict : VerificationVerdict
  findings : List String := []
  reviseStepIds : List String := []
  note : String := ""
  deriving DecidableEq

/-! ## the decision -/

structure ReviewVerdict where
  passed : Bool
  reviseStepIds : List String
  findings : List String
  roundIndex : Nat
  fatal : Bool

def ReviewVerdict.fromVerifierResult (verdict : VerifierResult) (roundIndex : Nat) : ReviewVerdict where
  passed := verdict.verdict = .pass
  reviseStepIds := verdict.reviseStepIds
  findings := verdict.findings
  roundIndex := roundIndex
  fatal := verdict.verdict = .fail

inductive DecisionAction
  | accept
  | revise
  | terminate
  | planLimit
  | budgetLimit
  deriving DecidableEq

def DecisionAction.message : DecisionAction → String
  | .accept => "验收通过"
  | .revise => "审阅发现问题，返修相关步骤"
  | .terminate => "审阅判定为不可接受，终止本轮"
  | .planLimit => "计划允许的返修轮次已用完"
  | .budgetLimit => "运行预算中的返修次数已用完"

structure RevisionDecision where
  action : DecisionAction
  reviseStepIds : List String := []
  findings : List String := []
  roundIndex : Nat := 0
  consumesBudget : Bool := false
  reason : String := ""
  planMaxReplans : Int := 0
  replansUsed : Nat := 0
  deriving DecidableEq

def RevisionDecision.stops (decision : RevisionDecision) : Bool := decision.action ≠ .revise

structure ReplanBudget where
  planMax : Int := 0
  replansUsed : Nat := 0
  /-- `none`: no guard. -/
  guardRemaining : Option Int := none

def ReplanBudget.guardAllows (budget : ReplanBudget) : Bool := budget.guardRemaining.all (0 < ·)

def ReplanBudget.planAllows (budget : ReplanBudget) : Bool := (budget.replansUsed : Int) < budget.planMax

def decideRevision (verdict : ReviewVerdict) (budget : ReplanBudget) : RevisionDecision :=
  if verdict.fatal then
    { action := .terminate, roundIndex := verdict.roundIndex, reason := DecisionAction.terminate.message
      findings := verdict.findings, planMaxReplans := budget.planMax, replansUsed := budget.replansUsed }
  else if verdict.passed then
    { action := .accept, roundIndex := verdict.roundIndex, reason := DecisionAction.accept.message
      planMaxReplans := budget.planMax, replansUsed := budget.replansUsed }
  else
    let planMax := max 0 budget.planMax
    if !budget.planAllows then
      { action := .planLimit, roundIndex := verdict.roundIndex, reason := DecisionAction.planLimit.message
        findings := verdict.findings, planMaxReplans := planMax, replansUsed := budget.replansUsed }
    else if !budget.guardAllows then
      { action := .budgetLimit, roundIndex := verdict.roundIndex, reason := DecisionAction.budgetLimit.message
        findings := verdict.findings, planMaxReplans := planMax, replansUsed := budget.replansUsed }
    else if verdict.reviseStepIds = [] then
      { action := .accept, roundIndex := verdict.roundIndex, reason := "审阅要求返修但未指定步骤，按当前产出收工"
        findings := verdict.findings, planMaxReplans := planMax, replansUsed := budget.replansUsed }
    else
      { action := .revise, reviseStepIds := verdict.reviseStepIds, findings := verdict.findings
        roundIndex := verdict.roundIndex + 1, consumesBudget := true, reason := DecisionAction.revise.message
        planMaxReplans := planMax, replansUsed := budget.replansUsed + 1 }

/-! ## the run -/

/-- A line of the `ReviewTrace`. -/
structure ReviewEntry where
  round : Nat
  verdict : VerifierResult
  decision : RevisionDecision
  budgetBlocked : Bool := false
  deriving DecidableEq

inductive RunStatus
  | completed
  | failed
  deriving DecidableEq

structure WorkflowResult (O : Type) where
  status : RunStatus
  replans : Nat
  maxConcurrency : Nat
  observations : String → Option O
  findings : List String := []
  verifierResults : List VerifierResult
  reviewLog : List ReviewEntry := []
  reusedSteps : List String := []
  error : Option String := none

inductive RunPhase (O : Type)
  /-- Inside `_execute_plan`. -/
  | executing
  /-- Inside `verify`. -/
  | verifying
  | returned (result : WorkflowResult O)
  | raised

def RunPhase.over {O : Type} : RunPhase O → Bool
  | .executing | .verifying => false
  | .returned _ | .raised => true

structure Revision (O F : Type) [Metered F] where
  plan : Plan O
  guard : Option (BudgetGuard F)

structure EngineRun (O F : Type) [Metered F] where
  current : Plan O
  observations : String → Option O
  replans : Nat
  peakConcurrency : Nat
  verifierHistory : List VerifierResult
  reviewTrace : List ReviewEntry
  reusedSteps : List String
  guard : Option (BudgetGuard F)
  phase : RunPhase O
  revisions : List (Revision O F)

variable {O F : Type} [Metered F]

/-- `run` up to its loop. -/
def EngineRun.start (plan : Plan O) (checkpoints : String → Option O) (guard : Option (BudgetGuard F)) :
    EngineRun O F :=
  let (applied, reused) := applyCheckpoints plan checkpoints
  { current := applied
    observations := applied.carryObservations
    replans := 0
    peakConcurrency := 0
    verifierHistory := []
    reviewTrace := []
    reusedSteps := reused
    guard := guard
    phase := match plan.validate with
      | .ok _ => .executing
      | .error _ => .raised
    revisions := [] }

/-- `_replan_units_left`; a reading that raises counts as no guard. -/
def replanUnitsLeft (guard : Option (BudgetGuard F)) (reads : Bool) : Option Int :=
  if reads then guard.map (fun g => max 0 (g.limits.maxReplanCount - g.replans)) else none

/-- `on_replan` -/
def spendReplanUnit (guard : Option (BudgetGuard F)) (elapsed : F) :
    Option (BudgetGuard F) × Option Budget.Reason :=
  match guard with
  | none => (none, none)
  | some g => ((g.enterReplan elapsed).1, (g.enterReplan elapsed).2)

def EngineRun.result (r : EngineRun O F) (status : RunStatus) (findings : List String) (error : Option String) :
    WorkflowResult O where
  status := status
  replans := r.replans
  maxConcurrency := r.peakConcurrency
  observations := r.observations
  findings := findings
  verifierResults := r.verifierHistory
  reviewLog := r.reviewTrace
  reusedSteps := match status with
    | .completed => r.reusedSteps
    | .failed => []
  error := error

def EngineRun.finish (r : EngineRun O F) (status : RunStatus) (findings : List String) (error : Option String) :
    EngineRun O F :=
  { r with phase := .returned (r.result status findings error) }

/-- `_execute_plan` returned. -/
def EngineRun.executed (r : EngineRun O F) (stepObservations : String → Option O) (peak : Nat)
    (failedStep : Option String) : EngineRun O F :=
  let r := { r with
    observations := fun sid => (stepObservations sid).or (r.observations sid)
    peakConcurrency := max r.peakConcurrency peak }
  match failedStep with
  | some sid => { r with phase := .returned { r.result .failed [] (some s!"step '{sid}' failed") with reviewLog := [] } }
  | none => { r with phase := .verifying }

def EngineRun.decision (r : EngineRun O F) (verdict : VerifierResult) (reads : Bool) : RevisionDecision :=
  decideRevision (.fromVerifierResult verdict r.replans)
    { planMax := r.current.maxReplans, replansUsed := r.replans, guardRemaining := replanUnitsLeft r.guard reads }

def EngineRun.revise (r : EngineRun O F) (spent : Option (BudgetGuard F)) (verdict : VerifierResult)
    (decision : RevisionDecision) : EngineRun O F :=
  match revisePlan r.current verdict.reviseStepIds r.observations decision.findings with
  | .error _ => { r with guard := spent, phase := .raised }
  | .ok revised =>
    { r with
      current := revised
      replans := r.replans + 1
      guard := spent
      phase := .executing
      revisions := r.revisions ++ [⟨r.current, r.guard⟩] }

/-- `verify` returned: everything up to the next `await` of the loop. -/
def EngineRun.verified (r : EngineRun O F) (verdict : VerifierResult) (reads : Bool) (elapsed : F) : EngineRun O F :=
  let decision := r.decision verdict reads
  let entry : ReviewEntry := ⟨r.replans, verdict, decision, false⟩
  let judged := { r with
    verifierHistory := r.verifierHistory ++ [verdict]
    reviewTrace := r.reviewTrace ++ [entry] }
  match verdict.verdict with
  | .pass => judged.finish .completed verdict.findings none
  | .fail =>
    judged.finish .failed verdict.findings (some (if verdict.note = "" then "verification failed" else verdict.note))
  | .revise =>
    if decision.action = .accept then judged.finish .completed verdict.findings none
    else if decision.stops then
      judged.finish .failed verdict.findings
        (some (if decision.reason = "" then "replan budget exhausted" else decision.reason))
    else
      match spendReplanUnit r.guard elapsed with
      | (guard, some reason) =>
        let blocked : ReviewEntry := { entry with budgetBlocked := true, decision := { decision with reason := reason } }
        { judged with guard := guard, reviewTrace := r.reviewTrace ++ [blocked] }.finish .failed verdict.findings
          (some reason)
      | (guard, none) => judged.revise guard verdict decision

inductive EngineAct (O F : Type) [Metered F]
  | executed (stepObservations : String → Option O) (peak : Nat) (failedStep : Option String)
  | verified (verdict : VerifierResult) (reads : Bool) (elapsed : F)
  | raised
  | metered (used : BudgetGuard F)

def EngineAct.ofEngine : EngineAct O F → Bool
  | .metered _ => false
  | _ => true

def engineStep (r : EngineRun O F) : EngineAct O F → Option (EngineRun O F)
  | .executed stepObservations peak failedStep =>
    match r.phase with
    | .executing => some (r.executed stepObservations peak failedStep)
    | _ => none
  | .verified verdict reads elapsed =>
    match r.phase with
    | .verifying => some (r.verified verdict reads elapsed)
    | _ => none
  | .raised => if r.phase.over then none else some { r with phase := .raised }
  | .metered used => r.guard.map (fun g => { r with guard := some { used with limits := g.limits } })

end Workflow
end MyGpt
