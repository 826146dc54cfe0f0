import MyGpt.NativeRounds
import MyGpt.Lib.Raising
/-!
# StreamingWriter — the writer stage of a run, streamed

`_stream_writer` of `agents/streaming_writer.py`: rounds of at most two dispatches, a buffer that holds the overlap of a
continuation back, and five ways out of a dispatch, each of which flushes the buffer and records the usage.
-/
namespace MyGpt
namespace Writer

open Chat (Text ContinuationBuffer ContinuationPolicy PersistEnd CheckpointStatus strip)

/-! ## what the writer meets -/

inductive Exc
  | timeout
  | cancelled
  | provider
  /-- `BudgetExceeded` -/
  | budget
  /-- `add_usage` refuses the usage. -/
  | metering
  /-- the `AttributeError` of `guard.limits` without a guard -/
  | noGuard
  | other
  deriving DecidableEq

structure Delta (U : Type) where
  content : Text := []
  finishReason : String := ""
  usage : Option U := none

inductive Pause
  | resumed
  | cancelled
  | raises (e : Exc)
  deriving DecidableEq

inductive Signal
  | go
  | cancelled
  | paused (ends : Pause)
  deriving DecidableEq

inductive StreamEnd
  | exhausted
  | raises (e : Exc)
  deriving DecidableEq

/-- One call of `stream_chat`, and the guard around it. -/
structure Dispatch (U : Type) where
  /-- `enter_step` or `check` raises before the call. -/
  denied : Bool := false
  chunks : List (Delta U × Signal) := []
  ends : StreamEnd := .exhausted
  /-- `check` raises after the stream. -/
  overBudget : Bool := false
  refused : Bool := false
  /-- `check` raises after the usage. -/
  exhausted : Bool := false

structure Around where
  cancelledAtTop : Bool := false
  persistsAtTop : PersistEnd := .ok
  /-- in the handler of a `CancelledError` -/
  persistsInHandler : PersistEnd := .ok
  cancelledAfter : Bool := false
  persistsContinuing : PersistEnd := .ok
  cancelledThen : Bool := false
  persistsThen : PersistEnd := .ok
  persistsLast : PersistEnd := .ok

structure Env (U : Type) where
  hasGuard : Bool := true
  /-- what `admit_stage_dispatch` raises -/
  rejected : Option Exc := none
  dispatch : Nat → Dispatch U
  around : Nat → Around

structure Checkpoint where
  round : Nat
  maxRounds : Nat
  status : CheckpointStatus
  deriving DecidableEq

/-! ## what the writer holds -/

/-- The assistant message, the stage context and the variables of `_stream_writer`. -/
structure Turn (U : Type) where
  /-- `assistant_msg.content` -/
  content : Text
  /-- `assistant_msg.metadata_["continuation"]` -/
  metadata : Option Checkpoint := none
  tokens : List Text := []
  /-- `stage_ctx.usage_records` -/
  usageRecords : List (String × U) := []
  writerStreamed : Bool := false
  messages : List (String × Text) := []
  full : Text
  finishReason : String := "stop"
  checkpoint : Option Checkpoint := none
  usageRounds : List U := []
  modelDispatches : Nat := 0
  asked : List Nat := []
  rawParts : List Text := []
  roundUsage : Option U := none
  buffer : Option ContinuationBuffer := none

def Turn.start {U : Type} (content : Text) (metadata : Option Checkpoint) (usageRecords : List (String × U))
    (messages : List (String × Text)) : Turn U :=
  { content, metadata, usageRecords, messages, full := content }

structure StageResult (U : Type) where
  finishReason : String
  outputSummary : Text
  usage : Option U
  continuation : Option Checkpoint

/-! ## one dispatch -/

section
variable {U : Type}

abbrev Writing (U : Type) := Raising Exc (Turn U)

def say (novel : Text) : Writing U Unit :=
  modify fun t => { t with full := t.full ++ novel, content := t.full ++ novel, tokens := t.tokens ++ [novel] }

def sayNovel (novel : Text) : Writing U Unit := if novel = [] then pure () else say novel

def feed (content : Text) : Writing U Text := do
  let t ← get
  match t.buffer with
  | some buffer =>
    set { t with buffer := some (buffer.feed content).1 }
    return (buffer.feed content).2
  | none => return content

def flush : Writing U Unit := do
  let t ← get
  match t.buffer with
  | some buffer =>
    set { t with buffer := some { buffer with resolved := true } }
    sayNovel buffer.flush
  | none => return ()

def takeContent (content : Text) : Writing U Unit :=
  if content = [] then pure ()
  else do
    modify fun t => { t with rawParts := t.rawParts ++ [content] }
    let novel ← feed content
    sayNovel novel

def takeIn (delta : Delta U) : Writing U Unit := do
  takeContent delta.content
  modify fun t => { t with
    finishReason := if delta.finishReason = "" then t.finishReason else delta.finishReason
    roundUsage := delta.usage.or t.roundUsage }

def readChunks (ends : StreamEnd) : List (Delta U × Signal) → Writing U Unit
  | [] =>
    match ends with
    | .exhausted => pure ()
    | .raises e => throw e
  | (delta, signal) :: rest =>
    match signal with
    | .cancelled | .paused .cancelled => modify fun t => { t with finishReason := "cancelled" }
    | .paused (.raises e) => throw e
    | .go | .paused .resumed => do
      takeIn delta
      readChunks ends rest

variable (agentId : String) (env : Env U) (policy : ContinuationPolicy)

def usageKey (n : Nat) : String := "model:" ++ agentId ++ ":" ++ Nat.repr n

/-- `record_usage` under the key of the dispatch; what is retained stays retained when the guard refuses it. -/
def recordUsage (n : Nat) (usage : U) : Writing U Unit := do
  let t ← get
  if (t.usageRecords.map (·.1)).contains (usageKey agentId n) then return ()
  else
    set { t with usageRecords := t.usageRecords ++ [(usageKey agentId n, usage)] }
    if env.hasGuard && (env.dispatch n).refused then throw .metering else return ()

def recordFailedUsage (n : Nat) (current : Option U) : Writing U Unit :=
  match current with
  | some usage => recordUsage agentId env n usage
  | none => pure ()

def persist (ends : PersistEnd) : Writing U Unit :=
  match ends with
  | .ok => pure ()
  | .cancelled => throw .cancelled
  | .fails => throw .other

def setCheckpoint (round : Nat) (status : CheckpointStatus) : Writing U Unit :=
  modify fun t => { t with
    checkpoint := some { round, maxRounds := policy.maxRounds, status }
    metadata := some { round, maxRounds := policy.maxRounds, status } }

/-- `persist_cancelled_continuation`. -/
def persistCancelled (round : Nat) (ends : PersistEnd) : Writing U Unit := do
  setCheckpoint policy round .cancelled
  persist ends

/-- The `try` of a dispatch. -/
def openStream (n : Nat) : Writing U Unit := do
  if env.hasGuard && (env.dispatch n).denied then throw .budget
  else
    modify fun t => { t with asked := t.asked ++ [n] }
    readChunks (env.dispatch n).ends (env.dispatch n).chunks
    if env.hasGuard && (env.dispatch n).overBudget then throw .budget else return ()

/-- How an `except` clause ends: a time-out is the budget's, and a cancelled continuation gets its checkpoint. -/
def raiseOn (round : Nat) : Exc → Writing U Unit
  | .timeout => throw (if env.hasGuard then .budget else .noGuard)
  | .cancelled =>
    if round = 0 then throw .cancelled
    else do
      persistCancelled policy round (env.around round).persistsInHandler
      throw .cancelled
  | e => throw e

/-- The four `except` clauses, which flush and record alike. -/
def onExc (round n : Nat) (e : Exc) : Writing U Unit := do
  flush
  modify fun t => { t with writerStreamed := true }
  let t ← get
  recordFailedUsage agentId env n t.roundUsage
  raiseOn env policy round e

def settleUsage (n : Nat) (usage : U) : Writing U Unit := do
  modify fun t => { t with usageRounds := t.usageRounds ++ [usage] }
  recordUsage agentId env n usage
  if env.hasGuard && (env.dispatch n).exhausted then throw .budget else return ()

def settle (n : Nat) : Writing U Unit := do
  let t ← get
  match t.roundUsage with
  | some usage => settleUsage agentId env n usage
  | none => return ()

def openDispatch (round : Nat) : Writing U Nat := do
  modify fun t => { t with
    modelDispatches := t.modelDispatches + 1
    rawParts := []
    roundUsage := none
    finishReason := "stop"
    buffer := if round = 0 then none else some (ContinuationBuffer.open t.full policy.comparisonWindow) }
  let t ← get
  return t.modelDispatches

def attempt (round : Nat) : Writing U Bool := do
  let n ← openDispatch policy round
  tryCatch (openStream env n) (onExc agentId env policy round n)
  flush
  settle agentId env n
  let t ← get
  return t.rawParts.flatten ≠ [] || t.finishReason = "cancelled"

/-- `for attempt in (1, 2)`. -/
def attempts (round : Nat) : Writing U Unit := do
  let answered ← attempt agentId env policy round
  if answered then return ()
  else do
    let _ ← attempt agentId env policy round
    return ()

/-! ## the rounds -/

def continueInstruction : Text :=
  "Continue exactly where the answer stopped. Do not repeat any text already given.".toList

def conclude (round : Nat) : Writing U Unit := do
  modify fun t =>
    if round = 0 then t
    else
      let status : CheckpointStatus :=
        if t.finishReason = "length" then .maxed else if t.finishReason = "cancelled" then .cancelled else .completed
      { t with
        checkpoint := some { round, maxRounds := policy.maxRounds, status }
        metadata := some { round, maxRounds := policy.maxRounds, status } }
  let t ← get
  match t.checkpoint with
  | some ⟨_, _, .continuing⟩ | none => return ()
  | some _ => persist (env.around round).persistsLast

def followUp (round : Nat) : Writing U Bool := do
  modify fun t => { t with
    messages := t.messages ++ [("assistant", t.rawParts.flatten), ("user", continueInstruction)] }
  setCheckpoint policy (round + 1) .continuing
  match (env.around round).persistsContinuing with
  | .cancelled => do
    persistCancelled policy (round + 1) (env.around round).persistsThen
    throw .cancelled
  | .fails => throw .other
  | .ok =>
    if (env.around round).cancelledThen then do
      modify fun t => { t with finishReason := "cancelled" }
      persistCancelled policy (round + 1) (env.around round).persistsThen
      return false
    else return true

def noticeCancel (round : Nat) : Writing U Unit := do
  let t ← get
  if t.finishReason = "length" && (env.around round).cancelledAfter then do
    modify fun t => { t with finishReason := "cancelled" }
    setCheckpoint policy round .cancelled
  else return ()

/-- `while True`. -/
def rounds (round : Nat) : Writing U Unit := do
  if round ≠ 0 ∧ (env.around round).cancelledAtTop = true then
    modify fun t => { t with finishReason := "cancelled" }
    persistCancelled policy round (env.around round).persistsAtTop
  else
    attempts agentId env policy round
    noticeCancel env policy round
    let t ← get
    if h : policy.shouldContinue t.finishReason round false (t.finishReason = "cancelled") = true then
      let goesOn ← followUp env policy round
      if goesOn then rounds (round + 1) else return ()
    else conclude env policy round
termination_by policy.maxRounds - round
decreasing_by
  simp only [ContinuationPolicy.shouldContinue, Bool.and_eq_true, decide_eq_true_eq] at h
  omega

/-- `output_summary`. -/
def summaryOf (full : Text) : Text :=
  let summary := ((strip full).map (fun c => if c = '\n' then ' ' else c)).take 160
  if summary = [] then "（空回答）".toList else summary

def streamWriter (aggregateUsage : List U → Option U) : Writing U (StageResult U) := do
  match env.rejected with
  | some e => throw e
  | none => do
    rounds agentId env policy 0
    modify fun t => { t with writerStreamed := true, content := t.full }
    let t ← get
    return {
      finishReason := t.finishReason
      outputSummary := summaryOf t.full
      usage := aggregateUsage t.usageRounds
      continuation := t.checkpoint }

end

end Writer
end MyGpt
