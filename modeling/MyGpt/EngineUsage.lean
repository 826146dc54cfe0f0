import MyGpt.EngineRun
/-!
# EngineUsage — what an engine run charges to its guard

The steps of an engine run as the crew's stage runner executes them, with everything that meters on the guard of the run:
the model client, which charges each call as it returns; the failed attempts and the tools, through `record_usage`; and
`on_step_end`, which charges a step that is complete, and a step reused from a checkpoint, under one id for each step.
The steps run concurrently: an action is what one of them does between two `await`s, and the hook of a completed step
belongs to the action that completes it.
-/
namespace MyGpt
namespace Workflow

open Budget (Metered BudgetGuard BudgetLimits Usage UsageError)

variable {F : Type} [Metered F]

/-- `StageResult`, of which a step keeps everything but `usage_charged`. -/
structure StageResult (F : Type) where
  raw : String := ""
  usage : Option (Usage F) := none
  usageCharged : Bool := false

/-- `StepObservation`, with the usage as the guard reads it. -/
structure UsageObservation (F : Type) where
  stepId : String
  output : String := ""
  usage : Option (Usage F) := none
  attempts : Nat := 1

/-- What `StageAdapterExecutor.execute` makes of a result. -/
def StageResult.observation (result : StageResult F) (st : Step) : UsageObservation F where
  stepId := st.id
  output := result.raw
  usage := result.usage

/-- `{**usage, "attempts": attempt}`: no observation of the engine is without usage. -/
def UsageObservation.counted (obs : UsageObservation F) (attempt : Nat) : UsageObservation F :=
  { obs with usage := some (obs.usage.getD {}), attempts := attempt }

/-! ## usage ids -/

def stageUsageId (stepId : String) : String := "crewai:stage:" ++ stepId

def callUsageId (n : Nat) : String := "crewai:call:" ++ Nat.repr n

/-- The keys of `record_usage`. -/
inductive RecordKey
  | model (agentId uuid : String)
  | tool (callId : String)
  | aux (kind : String) (n : Nat)

def RecordKey.text : RecordKey → String
  | .model agentId uuid => "model:" ++ (agentId ++ (":" ++ uuid))
  | .tool callId => "tool:" ++ callId
  | .aux kind n => "aux:" ++ (kind ++ (":" ++ Nat.repr n))

def RecordKey.isModel : RecordKey → Bool
  | .model _ _ => true
  | _ => false

/-! ## the run -/

inductive StepTask
  | waiting
  | executing (attempt generation : Nat)
  | done
  | failed
  | stopped
  deriving DecidableEq

inductive AfterFailure
  | retries
  | fails
  | stops
  deriving DecidableEq

structure UsageRun (F : Type) [Metered F] where
  run : EngineRun (UsageObservation F) F
  tasks : String → StepTask
  results : String → Option (UsageObservation F)
  /-- The keys of `usage_records`. -/
  usageRecords : List String
  usageSequence : Nat
  usageChargeGeneration : Nat

def UsageRun.start (plan : Plan (UsageObservation F)) (checkpoints : String → Option (UsageObservation F))
    (limits : BudgetLimits F) : UsageRun F where
  run := .start plan checkpoints (some { limits := limits })
  tasks := fun _ => .waiting
  results := fun _ => none
  usageRecords := []
  usageSequence := 1
  usageChargeGeneration := 0

/-- `add_usage`; `false` when it raises, which leaves the guard as it is. -/
def UsageRun.addUsage (s : UsageRun F) (usage : Usage F) (cost : Option F) (usageId : String) : UsageRun F × Bool :=
  match s.run.guard with
  | none => (s, true)
  | some g =>
    match g.addUsage usage cost none (some usageId) with
    | .ok charged => ({ s with run := { s.run with guard := some charged } }, true)
    | .error _ => (s, false)

/-- `RunEnvironment.step_completed`; the engine swallows what it raises. -/
def UsageRun.stepCompleted (price : Usage F → Option F) (s : UsageRun F) (stepId : String) (usage : Option (Usage F))
    (usageCharged : Bool) : UsageRun F :=
  match usage with
  | none => s
  | some usage =>
    if usageCharged then s
    else (s.addUsage usage (usage.costUsd.or (price usage)) (stageUsageId stepId)).1

/-- The `on_step_end` of the engine path, a lambda without `usage_charged`. -/
def UsageRun.onStepEnd (price : Usage F → Option F) (s : UsageRun F) (stepId : String) (usage : Option (Usage F)) :
    UsageRun F :=
  s.stepCompleted price stepId usage false

def UsageRun.recordUsage (price : Usage F → Option F) (s : UsageRun F) (key : RecordKey) (usage : Usage F)
    (charge : Bool) : UsageRun F :=
  if s.usageRecords.contains key.text then s
  else
    let recorded := { s with usageRecords := s.usageRecords ++ [key.text] }
    if charge then
      (recorded.addUsage usage (usage.costUsd.or (if key.isModel then price usage else none)) key.text).1
    else recorded

/-- The `charge` of the model client, after a call that used something. -/
def UsageRun.chargeCall (price : Usage F → Option F) (s : UsageRun F) (delta : Usage F) : UsageRun F :=
  let (charged, ok) := s.addUsage delta (delta.costUsd.or (price delta)) (callUsageId s.usageSequence)
  { charged with
    usageSequence := s.usageSequence + 1
    usageChargeGeneration := if ok then s.usageChargeGeneration + 1 else s.usageChargeGeneration }

def UsageRun.setTask (s : UsageRun F) (stepId : String) (task : StepTask) : UsageRun F :=
  { s with tasks := Function.update s.tasks stepId task }

inductive UsageAct (F : Type)
  | started (st : Step)
  | called (delta : Usage F)
  /-- The attempt succeeded, its rows are written and `on_step_end` is called. -/
  | completed (st : Step) (raw : String) (usage : Option (Usage F))
  | failed (st : Step) (usage : Option (Usage F)) (uuid : String) (next : AfterFailure)
  | cut (st : Step)
  | skipped (st : Step)
  /-- `record_usage` of a tool, the planner or the verifier. -/
  | recorded (key : RecordKey) (usage : Usage F)
  | collected (peak : Nat) (failedStep : Option String)
  | verified (verdict : VerifierResult) (reads : Bool) (elapsed : F)
  | raised

def UsageRun.realtimeUsage (s : UsageRun F) (generation : Nat) : Bool := generation < s.usageChargeGeneration

def UsageRun.ready (s : UsageRun F) (st : Step) : Bool :=
  st ∈ s.run.current.steps ∧ s.tasks st.id = .waiting ∧ st.dependencies.all (fun dep => s.tasks dep = .done)

def UsageRun.complete (price : Usage F → Option F) (s : UsageRun F) (st : Step) (attempt generation : Nat) (raw : String)
    (usage : Option (Usage F)) : UsageRun F :=
  let result : StageResult F := ⟨raw, usage, s.realtimeUsage generation⟩
  let obs := (result.observation st).counted attempt
  { (s.setTask st.id .done).onStepEnd price st.id obs.usage with results := Function.update s.results st.id (some obs) }

/-- `_run_stage` records what a failed attempt used, and charges it unless the model client has. -/
def UsageRun.fail (price : Usage F → Option F) (s : UsageRun F) (st : Step) (attempt generation : Nat)
    (usage : Option (Usage F)) (uuid : String) (next : AfterFailure) : UsageRun F :=
  let recorded := match usage with
    | none => s
    | some usage => s.recordUsage price (.model st.id uuid) usage (!s.realtimeUsage generation)
  recorded.setTask st.id (match next with
    | .retries => .executing (attempt + 1) recorded.usageChargeGeneration
    | .fails => .failed
    | .stops => .stopped)

def UsageRun.skip (price : Usage F → Option F) (s : UsageRun F) (st : Step) : UsageRun F :=
  let ended := s.setTask st.id .done
  match s.run.observations st.id with
  | some carried => if s.run.reusedSteps.contains st.id then ended.onStepEnd price st.id carried.usage else ended
  | none => ended

def usageStep (price : Usage F → Option F) (s : UsageRun F) : UsageAct F → Option (UsageRun F)
  | .started st =>
    if s.run.phase.over = false ∧ s.ready st ∧ st.skip = false then
      some (s.setTask st.id (.executing 1 s.usageChargeGeneration))
    else none
  | .called delta => some (s.chargeCall price delta)
  | .completed st raw usage =>
    match s.tasks st.id with
    | .executing attempt generation =>
      if st ∈ s.run.current.steps then some (s.complete price st attempt generation raw usage) else none
    | _ => none
  | .failed st usage uuid next =>
    match s.tasks st.id with
    | .executing attempt generation =>
      -- `uuid4` makes a key that was not used before
      if st ∈ s.run.current.steps ∧ s.usageRecords.contains (RecordKey.model st.id uuid).text = false ∧
          (next = .retries → (attempt : Int) ≤ st.retryPolicy.maxRetries) then
        some (s.fail price st attempt generation usage uuid next)
      else none
    | _ => none
  | .cut st =>
    match s.tasks st.id with
    | .executing _ _ => some (s.setTask st.id .stopped)
    | _ => none
  | .skipped st => if s.run.phase.over = false ∧ s.ready st ∧ st.skip = true then some (s.skip price st) else none
  | .recorded key usage => if key.isModel then none else some (s.recordUsage price key usage true)
  | .collected peak failedStep =>
    match s.run.phase with
    | .executing =>
      if failedStep = none → s.run.current.steps.all (fun st => s.tasks st.id = .done) then
        some { s with run := s.run.executed s.results peak failedStep }
      else none
    | _ => none
  | .verified verdict reads elapsed =>
    match s.run.phase with
    | .verifying =>
      some { s with
        run := s.run.verified verdict reads elapsed
        tasks := fun _ => .waiting
        results := fun _ => none }
    | _ => none
  | .raised => if s.run.phase.over then none else some { s with run := { s.run with phase := .raised } }

end Workflow
end MyGpt
