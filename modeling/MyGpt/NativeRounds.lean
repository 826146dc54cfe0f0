import MyGpt.Continuation
/-!
# NativeRounds — what the native runtime does to the assistant message

The round loop of `NativeChatRuntime`, from what the provider, the tools, the run guard and the run control do in each
round.  What it says is streamed as token events and written onto the message object at the end of each round; tool rounds
commit the turn's session and automatic continuations checkpoint the text, both before the answer is complete.
-/
namespace MyGpt
namespace Chat

/-! ## what a runtime does -/

inductive RuntimeStep
  | token (delta : Text)
  | progress (kind : String)
  | write (content : Text)
  | commit
  /-- `_persist_continuation_checkpoint`: the text so far, on a session of its own -/
  | checkpoint
  deriving DecidableEq

/-- How a runtime ends; `stopped`: its process is gone. -/
inductive RuntimeEnd
  | done (finish : String)
  | error (code : String)
  | cancelled
  | stopped
  deriving DecidableEq

def writtenBy (steps : List RuntimeStep) : Text :=
  steps.foldl (fun held step => match step with | .write content => content | _ => held) []

theorem writtenBy_append (steps more : List RuntimeStep) :
    writtenBy (steps ++ more) =
      more.foldl (fun held step => match step with | .write content => content | _ => held) (writtenBy steps) := by
  unfold writtenBy
  rw [List.foldl_append]

/-! ## the rounds -/

structure ContinuationPolicy where
  maxRounds : Nat := 2
  comparisonWindow : Nat := 4096
  rounds_le : maxRounds ≤ 8 := by decide
  window_range : 64 ≤ comparisonWindow ∧ comparisonWindow ≤ 65536 := by decide

def ContinuationPolicy.shouldContinue (policy : ContinuationPolicy) (finish : String) (round : Nat)
    (pendingToolCalls cancelled : Bool) : Bool :=
  finish = "length" && decide (round < policy.maxRounds) && !pendingToolCalls && !cancelled

structure Delta where
  content : Text := []
  toolCalls : Nat := 0
  finish : Option String := none
  cancelled : Bool := false
  deriving DecidableEq

inductive StreamEnd
  | exhausted
  | budget
  | rejected (code : String)
  | cancelled
  | providerError (code : String)
  | otherError
  deriving DecidableEq

inductive ToolEnd
  | goOn | budget | cancelled | fails
  deriving DecidableEq

inductive PersistEnd
  | ok | cancelled | fails
  deriving DecidableEq

structure Round where
  cancelledAtTop : Bool := false
  stepDenied : Bool := false
  /-- the code of a `PromptAdmissionError` before the dispatch -/
  rejected : Option String := none
  deltas : List Delta := []
  ends : StreamEnd := .exhausted
  overBudget : Bool := false
  commits : Bool := true
  toolCommits : Nat := 0
  tools : ToolEnd := .goOn
  cancelledAfter : Bool := false
  persists : PersistEnd := .ok
  cancelledThen : Bool := false
  deriving DecidableEq

inductive CheckpointStatus
  | continuing | maxed | completed | cancelled
  deriving DecidableEq

structure LoopState where
  content : Text := []
  finish : String := "stop"
  round : Nat := 0
  continuing : Bool := false
  checkpoint : Option CheckpointStatus := none
  deriving DecidableEq

/-- Where a round leads: on, out of the loop, to an `ev_error`, or up with a `CancelledError`. -/
inductive Flow
  | next (st : LoopState)
  | leave (finish : String)
  | fails (code : String)
  | unwinds
  deriving DecidableEq

def Round.heard (r : Round) : List Delta := r.deltas.takeWhile (fun d => !d.cancelled)

def Round.broken (r : Round) : Bool := r.deltas.any (·.cancelled)

def Round.pieces (r : Round) (policy : ContinuationPolicy) (st : LoopState) : List Text :=
  let chunks := (r.heard.map (·.content)).filter (· ≠ [])
  (if st.continuing then (ContinuationBuffer.open st.content policy.comparisonWindow).stream chunks else chunks).filter
    (· ≠ [])

def Round.finishAfter (r : Round) (finish : String) : String :=
  if r.broken then "cancelled"
  else r.heard.foldl (fun finish d => match d.finish with
    | some f => if f = "" then finish else f
    | none => finish) finish

def Round.pending (r : Round) : Bool := r.heard.any (fun d => d.toolCalls != 0)

def finalCheckpoint (st : LoopState) (pending : Bool) : Option CheckpointStatus :=
  if st.finish = "length" ∧ pending = false then some .maxed
  else if st.round ≠ 0 then some (if st.finish = "cancelled" then .cancelled else .completed)
  else st.checkpoint

def continueOrFinish (policy : ContinuationPolicy) (st : LoopState) (r : Round) : List RuntimeStep × Flow :=
  if policy.shouldContinue st.finish st.round r.pending (st.finish = "cancelled") then
    let st := { st with round := st.round + 1, checkpoint := some .continuing }
    match r.persists with
    | .ok =>
      if r.cancelledThen then ([.checkpoint, .checkpoint], .leave "cancelled")
      else ([.checkpoint], .next { st with continuing := true })
    | .cancelled => ([.checkpoint], .unwinds)
    | .fails => ([], .fails "internal")
  else
    match finalCheckpoint st r.pending with
    | some .maxed | some .completed | some .cancelled =>
      match r.persists with
      | .ok => ([.checkpoint], .leave st.finish)
      | .cancelled => ([], .unwinds)
      | .fails => ([], .fails "internal")
    | _ => ([], .leave st.finish)

def afterStream (policy : ContinuationPolicy) (toolsEnabled : Bool) (st : LoopState) (r : Round) :
    List RuntimeStep × Flow :=
  if r.overBudget then ([], .leave "budget")
  else if toolsEnabled ∧ st.finish = "tool_calls" ∧ r.pending then
    if r.commits then
      (.progress "tool_call" :: .commit :: List.replicate r.toolCommits .commit,
        match r.tools with
        | .goOn => .next { st with finish := "stop", continuing := false }
        | .budget => .leave "budget"
        | .cancelled => .unwinds
        | .fails => .fails "internal")
    else ([.progress "tool_call"], .fails "internal")
  else
    let cancelled := st.finish = "length" ∧ r.cancelledAfter
    continueOrFinish policy
      (if cancelled then { st with finish := "cancelled", checkpoint := some .cancelled } else st) r

def nativeRound (policy : ContinuationPolicy) (toolsEnabled : Bool) (st : LoopState) (r : Round) :
    List RuntimeStep × Flow :=
  if r.cancelledAtTop then
    if st.round ≠ 0 ∧ st.checkpoint = some .continuing then
      match r.persists with
      | .ok => ([.checkpoint], .leave "cancelled")
      | .cancelled => ([], .unwinds)
      | .fails => ([], .fails "internal")
    else ([], .leave "cancelled")
  else if r.stepDenied then ([], .leave "budget")
  else
    match r.rejected with
    | some code => ([], .fails code)
    | none =>
      let content := st.content ++ (r.pieces policy st).flatten
      let steps := (r.pieces policy st).map .token ++ [.write content]
      let st := { st with content := content, finish := r.finishAfter st.finish }
      match if r.broken ∧ r.ends ≠ .budget then .exhausted else r.ends with
      | .exhausted =>
        let (more, flow) := afterStream policy toolsEnabled st r
        (steps ++ more, flow)
      | .budget => (steps, .leave "budget")
      | .rejected code => (steps, .fails code)
      | .cancelled =>
        if st.round ≠ 0 then
          match r.persists with
          | .ok => (steps ++ [.checkpoint], .unwinds)
          | .cancelled => (steps, .unwinds)
          | .fails => (steps, .fails "internal")
        else (steps, .unwinds)
      | .providerError code => (steps, .fails code)
      | .otherError => (steps, .fails "internal")

def nativeLoop (policy : ContinuationPolicy) (toolsEnabled : Bool) : LoopState → List Round → List RuntimeStep × RuntimeEnd
  | _, [] => ([], .stopped)
  | st, r :: rest =>
    match nativeRound policy toolsEnabled st r with
    | (steps, .next st) =>
      let (more, ending) := nativeLoop policy toolsEnabled st rest
      (steps ++ more, ending)
    | (steps, .leave finish) => (steps, if finish = "budget" then .error "agent_budget_exceeded" else .done finish)
    | (steps, .fails code) => (steps, .error code)
    | (steps, .unwinds) => (steps, .cancelled)

/-! ## what a round says -/

def Round.heardText (r : Round) : Text := (r.heard.map (·.content)).flatten

theorem flatten_filter_ne_nil (chunks : List Text) : (chunks.filter (· ≠ [])).flatten = chunks.flatten := by
  induction chunks with
  | nil => rfl
  | cons chunk rest ih =>
    rw [List.filter_cons]
    by_cases hnil : chunk = []
    · rw [if_neg (by simpa using hnil), List.flatten_cons, ih, hnil, List.nil_append]
    · rw [if_pos (by simpa using hnil), List.flatten_cons, List.flatten_cons, ih]

/-- **What a round adds to the message** is what the provider sent, without its overlap in a continuation. -/
theorem pieces_flatten (r : Round) (policy : ContinuationPolicy) (st : LoopState) :
    (r.pieces policy st).flatten =
      if st.continuing then continuedText policy.comparisonWindow st.content r.heardText else r.heardText := by
  have hwindow : max 1 policy.comparisonWindow = policy.comparisonWindow := by
    have := policy.window_range
    omega
  unfold Round.pieces Round.heardText
  rw [flatten_filter_ne_nil]
  cases st.continuing with
  | true => rw [if_pos rfl, if_pos rfl, stream_flatten, flatten_filter_ne_nil, hwindow]
  | false => rw [if_neg (by decide), if_neg (by decide), flatten_filter_ne_nil]

end Chat
end MyGpt
