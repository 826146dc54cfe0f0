import MyGpt.EngineRun
import MyGpt.EventDrain
/-!
# EnginePath — a turn on the workflow engine

`ChatOrchestrator.stream` and `_run_engine_path`: a turn whose profile is on the roster is planned, waits at the plan
gate, and runs the engine beside the drain of its events; whatever raises on this path starts the fallback runtime.
-/
namespace MyGpt
namespace EnginePath

open Budget (Metered BudgetGuard)
open Workflow (Plan StepObservation EngineRun EngineAct engineStep RunStatus WorkflowResult toposort)

structure Settings where
  agentWorkflowEngine : String
  agentWorkflowEngineProfiles : String
  planRequireConfirmation : Bool

structure RuntimeSelection where
  multiAgentRequested : Bool
  agentProfile : String

def truthy (value : String) : Bool :=
  ["1", "true", "yes", "on"].contains (String.ofList ((Chat.strip value.toList).map Char.toLower))

def engineProfiles (settings : Settings) : List String :=
  ((settings.agentWorkflowEngineProfiles.toList.splitOn ',').map (fun p => String.ofList (Chat.strip p))).filter (· ≠ "")

def shouldRouteToEngine (settings : Settings) (selection : RuntimeSelection) : Bool :=
  truthy settings.agentWorkflowEngine && selection.multiAgentRequested &&
    (engineProfiles settings).contains selection.agentProfile

structure PlannedPlan where
  plan : Plan StepObservation
  nonempty : plan.steps ≠ []

inductive Stage
  | planning
  /-- Inside `await_plan_confirmation`. -/
  | gate
  | assembling
  | running
  | answered
  | fallback
  | cancelled
  deriving DecidableEq

inductive Failure
  | planning
  | assembly
  | engine
  deriving DecidableEq

structure Turn (F : Type) [Metered F] where
  stage : Stage
  plan : Option (Plan StepObservation) := none
  run : Option (EngineRun StepObservation F) := none
  drain : Drain.Run := {}
  content : String := ""
  doneEvents : Nat := 0
  failure : Option Failure := none

variable {F : Type} [Metered F]

/-- The turn when `stream` has selected a runtime. -/
def Turn.start (settings : Settings) (selection : RuntimeSelection) : Turn F where
  stage := if shouldRouteToEngine settings selection then .planning else .fallback

/-- What the `except` of `stream` does: the partial content goes. -/
def Turn.fallBack (t : Turn F) : Turn F := { t with stage := .fallback, content := "" }

def Turn.fails (t : Turn F) (failure : Failure) : Turn F := { t with failure := some failure }.fallBack

/-- `topological_order()[-1]` -/
def terminalStep (plan : Plan StepObservation) : Option String :=
  match toposort plan with
  | .ok order => order.getLast?
  | .error _ => none

/-- `result_holder.get("result")` -/
def returned (r : EngineRun StepObservation F) : Option (WorkflowResult StepObservation) :=
  match r.phase with
  | .returned result => some result
  | _ => none

def Turn.conclude (t : Turn F) : Turn F :=
  match t.plan, t.run.bind returned with
  | some plan, some result =>
    if result.status = .completed then
      match terminalStep plan with
      | some terminal =>
        { t with
          stage := .answered
          content := ((result.observations terminal).map (·.output)).getD ""
          doneEvents := t.doneEvents + 1 }
      | none => t.fallBack
    else t.fallBack
  | _, _ => t.fallBack

inductive GateAct
  | unrequested
  | polled (status : Option String)
  | timedOut

inductive TurnAct (F : Type) [Metered F]
  | planned (plan : PlannedPlan)
  | planningFailed
  | gate (act : GateAct)
  | assemblyFailed
  | assembled (checkpoints : String → Option StepObservation) (guard : Option (BudgetGuard F))
  | engine (act : EngineAct StepObservation F)
  | engineEnds
  | drain (act : Drain.Act)
  | concluded
  | cancelled

def succeeded (r : EngineRun StepObservation F) : Bool := (returned r).any (fun result => result.status = .completed)

def step (settings : Settings) (t : Turn F) : TurnAct F → Option (Turn F)
  | .planned planned =>
    match t.stage with
    | .planning =>
      -- the graph is built from the plan, which must be a DAG
      match planned.plan.validate with
      | .error _ => some (t.fails .planning)
      | .ok _ =>
        some { t with
          plan := some planned.plan
          stage := if settings.planRequireConfirmation then .gate else .assembling }
    | _ => none
  | .planningFailed => if t.stage = .planning then some (t.fails .planning) else none
  | .gate act =>
    match t.stage, act with
    | .gate, .polled status =>
      if status = some "confirmed" ∨ status = some "updated" then some { t with stage := .assembling } else some t
    | .gate, _ => some { t with stage := .assembling }
    | _, _ => none
  | .assemblyFailed => if t.stage = .assembling then some (t.fails .assembly) else none
  | .assembled checkpoints guard =>
    match t.stage, t.plan with
    | .assembling, some plan => some { t with stage := .running, run := some (.start plan checkpoints guard) }
    | _, _ => none
  | .engine act =>
    match t.stage, t.run with
    | .running, some r =>
      (engineStep r act).map (fun next => { t with
        run := some next
        failure := if next.phase.over && !succeeded next then some .engine else t.failure })
    | _, _ => none
  | .engineEnds =>
    match t.stage, t.run with
    | .running, some r =>
      if r.phase.over then (Drain.step t.drain .close).map (fun drain => { t with drain := drain }) else none
    | _, _ => none
  | .drain act =>
    match act with
    | .close => none
    | .get => if t.stage = .running then (Drain.step t.drain .get).map (fun drain => { t with drain := drain }) else none
    | act => (Drain.step t.drain act).map (fun drain => { t with drain := drain })
  | .concluded => if t.stage = .running ∧ t.drain.ended = true then some t.conclude else none
  | .cancelled =>
    if t.stage = .answered ∨ t.stage = .fallback ∨ t.stage = .cancelled then none
    else some { t with stage := .cancelled }

end EnginePath
end MyGpt
