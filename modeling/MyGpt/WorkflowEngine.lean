import MyGpt.Lib.Trace
import MyGpt.WorkflowPlan
/-!
# WorkflowEngine — one round of the workflow engine

`WorkflowEngine._execute_plan`: one task for each step of the plan (`run_step`, `_run_with_retries`), which share the
events, the semaphore, the set of failed steps and the observations, and `asyncio.gather`, which collects them.  A task
runs without interruption from one `await` to the next, so a step of the system is what one task does between two of
them; the scheduler may pick any task whose `await` is over.
-/
namespace MyGpt
namespace Workflow

abbrev Observations := String → Option StepObservation

/-- The observations an executor is given: those of the declared dependencies, in the order declared. -/
abbrev View := List (String × StepObservation)

def dependencyView (st : Step) (observations : Observations) : View :=
  st.dependencies.eraseDups.filterMap (fun dep => (observations dep).map (fun obs => (dep, obs)))

inductive Task
  | waiting
  /-- Inside `before_step`. -/
  | before
  /-- Inside `_next_attempt_number`. -/
  | numbering
  | opening (attempt : Nat) (upstream : View)
  | executing (attempt : Nat) (upstream : View)
  | closing (obs : StepObservation)
  | failing (attempt : Nat) (upstream : View) (transient : Bool)
  | replaying (carried : StepObservation)
  | done (result : Option StepObservation)
  | raised
  | cancelled
  deriving DecidableEq

def Task.over : Task → Bool
  | .done _ | .raised | .cancelled => true
  | _ => false

def Task.isExecuting : Task → Bool
  | .executing _ _ => true
  | _ => false

/-- The task awaits code that may itself raise a `CancelledError`. -/
def Task.awaitsOthers : Task → Bool
  | .waiting => false
  | task => !task.over

inductive Outcome
  | returns (obs : StepObservation)
  | raises (exc : StepFailure)

structure Settings where
  maxConcurrency : Int
  /-- Whether a `before_step` is injected. -/
  beforeStep : Bool
  /-- The steps `run` reused from checkpoints. -/
  reusedSteps : List String

def Settings.limit (cfg : Settings) : Nat := (max 1 cfg.maxConcurrency).toNat

structure Invocation where
  stepId : String
  attempt : Nat
  upstream : View
  deriving DecidableEq

inductive GatherEnd
  | raised
  | cancelled
  deriving DecidableEq

inductive RoundEnd
  | returned (failedStep : Option String)
  | cancelled
  deriving DecidableEq

structure Round where
  tasks : String → Task
  observations : Observations
  eventSet : String → Bool
  failed : String → Bool
  inFlight : Nat
  peak : Nat
  calls : List Invocation
  gathered : Option GatherEnd
  stopping : Bool
  result : Option RoundEnd

/-- `observations` as `_execute_plan` fills it before any step runs. -/
def startObservations (plan : Plan StepObservation) (seed : Observations) : Observations := fun sid =>
  match seed sid with
  | some obs => some obs
  | none => if plan.steps.any (fun s => s.id == sid && s.skip) then plan.carryObservations sid else none

def startRound (plan : Plan StepObservation) (seed : Observations) : Round where
  tasks := fun _ => .waiting
  observations := startObservations plan seed
  eventSet := fun _ => false
  failed := fun _ => false
  inFlight := 0
  peak := 0
  calls := []
  gathered := none
  stopping := false
  result := none

def Round.setTask (r : Round) (sid : String) (task : Task) : Round :=
  { r with tasks := Function.update r.tasks sid task }

/-- `failed.add` and `events[..].set()`, then `return step.id, None`. -/
def Round.failStep (r : Round) (sid : String) : Round :=
  { r.setTask sid (.done none) with
    failed := Function.update r.failed sid true
    eventSet := Function.update r.eventSet sid true }

/-- `observations[step.id] = obs` and `events[..].set()`, then `return step.id, obs`. -/
def Round.finishStep (r : Round) (sid : String) (obs : StepObservation) : Round :=
  { r.setTask sid (.done (some obs)) with
    observations := Function.update r.observations sid (some obs)
    eventSet := Function.update r.eventSet sid true }

/-- `run_step` after `before_step`. -/
def Round.begin (cfg : Settings) (st : Step) (r : Round) : Round :=
  if st.skip then
    let carried := r.observations st.id
    let task := match carried with
      | some obs => if st.id ∈ cfg.reusedSteps then Task.replaying obs else .done (some obs)
      | none => .done none
    { r.setTask st.id task with eventSet := Function.update r.eventSet st.id true }
  else
    r.setTask st.id .numbering

/-- The task ends with an exception: `gather` ends with the first one. -/
def Round.abort (r : Round) (sid : String) (task : Task) (how : GatherEnd) : Round :=
  { r.setTask sid task with
    inFlight := if (r.tasks sid).isExecuting then r.inFlight - 1 else r.inFlight
    gathered := r.gathered.or (some how) }

def StepObservation.counted (obs : StepObservation) (attempt : Nat) : StepObservation :=
  { obs with
    usage := some (match obs.usage with
      | none => [("attempts", attempt)]
      | some usage => usage.filter (fun entry => entry.1 != "attempts") ++ [("attempts", attempt)])
    attempts := attempt }

inductive TaskAct
  | proceed
  /-- `before_step` returned. -/
  | permitted
  /-- `before_step` raised an exception. -/
  | refused
  | numbered
  | acquire
  | executed (outcome : Outcome)
  | closed
  | recorded
  | replayed
  /-- Code the task awaits raised a `CancelledError`. -/
  | cancelled
  /-- The cancellation `gather` or `_execute_plan` sent arrives. -/
  | stopped

inductive Act
  | task (st : Step) (act : TaskAct)
  /-- The task that awaits `gather` is cancelled. -/
  | cancelRound
  /-- `gather` hands over to `_execute_plan`. -/
  | collect

def taskStep (cfg : Settings) (st : Step) (r : Round) : TaskAct → Option Round
  | .proceed =>
    match r.tasks st.id with
    | .waiting =>
      if st.dependencies.all r.eventSet then
        if st.dependencies.any r.failed then some (r.failStep st.id)
        else if cfg.beforeStep then some (r.setTask st.id .before)
        else some (r.begin cfg st)
      else none
    | _ => none
  | .permitted =>
    match r.tasks st.id with
    | .before => some (r.begin cfg st)
    | _ => none
  | .refused =>
    match r.tasks st.id with
    | .before => some (r.abort st.id .raised .raised)
    | _ => none
  | .numbered =>
    match r.tasks st.id with
    | .numbering => some (r.setTask st.id (.opening 1 (dependencyView st r.observations)))
    | _ => none
  | .acquire =>
    match r.tasks st.id with
    | .opening attempt upstream =>
      if r.inFlight < cfg.limit then
        some { r.setTask st.id (.executing attempt upstream) with
          inFlight := r.inFlight + 1
          peak := max r.peak (r.inFlight + 1)
          calls := r.calls ++ [⟨st.id, attempt, upstream⟩] }
      else none
    | _ => none
  | .executed outcome =>
    match r.tasks st.id with
    | .executing attempt upstream =>
      let task := match outcome with
        | .returns obs => Task.closing (obs.counted attempt)
        | .raises exc =>
          .failing attempt upstream
            (st.retryPolicy.isTransient exc && decide ((attempt : Int) ≤ st.retryPolicy.maxRetries))
      some { r.setTask st.id task with inFlight := r.inFlight - 1 }
    | _ => none
  | .closed =>
    match r.tasks st.id with
    | .closing obs => some (r.finishStep st.id obs)
    | _ => none
  | .recorded =>
    match r.tasks st.id with
    | .failing attempt upstream true => some (r.setTask st.id (.opening (attempt + 1) upstream))
    | .failing _ _ false => some (r.failStep st.id)
    | _ => none
  | .replayed =>
    match r.tasks st.id with
    | .replaying carried => some (r.setTask st.id (.done (some carried)))
    | _ => none
  | .cancelled => if (r.tasks st.id).awaitsOthers then some (r.abort st.id .cancelled .cancelled) else none
  | .stopped =>
    if r.stopping && !(r.tasks st.id).over then some (r.abort st.id .cancelled .cancelled) else none

def Round.lastFailed (plan : Plan StepObservation) (r : Round) : Option String :=
  ((plan.steps.filter (fun s => r.tasks s.id = .done none)).getLast?).map (·.id)

def Round.firstUnset (plan : Plan StepObservation) (r : Round) : Option String :=
  (plan.steps.find? (fun s => !r.eventSet s.id)).map (·.id)

def Round.allOver (plan : Plan StepObservation) (r : Round) : Bool := plan.steps.all (fun s => (r.tasks s.id).over)

def collect (plan : Plan StepObservation) (r : Round) : Option Round :=
  match r.result, r.gathered with
  | some _, _ => none
  | none, none => if r.allOver plan then some { r with result := some (.returned (r.lastFailed plan)) } else none
  | none, some .raised =>
    -- the tasks are cancelled, but not awaited
    some { r with stopping := true, result := some (.returned (r.firstUnset plan)) }
  | none, some .cancelled =>
    if !r.stopping then some { r with stopping := true }
    else if r.allOver plan then some { r with result := some .cancelled }
    else none

def step (plan : Plan StepObservation) (cfg : Settings) (r : Round) : Act → Option Round
  | .task st act => if st ∈ plan.steps then taskStep cfg st r act else none
  | .cancelRound =>
    if r.result = none ∧ r.gathered = none then
      some { r with stopping := true, gathered := some .cancelled }
    else none
  | .collect => collect plan r

end Workflow
end MyGpt
