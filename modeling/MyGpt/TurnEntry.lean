import MyGpt.ChatScope
import MyGpt.TurnHolds
import MyGpt.Lib.Raising
/-!
# TurnEntry — the two entries of a chat turn, and the hold they take

`ChatService.stream` and `create_and_enqueue_durable_run` as code that raises: every awaited call is given by how it
ends, and a call that writes to the credit ledger can be cut off before its commit or after it.  The state is the ledger,
the calls of `release_turn_hold`, and the locals that a `finally` reads.
-/
namespace MyGpt
namespace Entry

open Chat (Text strip)
open Credit (Db TurnHold CreditPolicy)
open Scope (Uuid User Rows AppException)
open Raising (await)

/-! ## what is raised -/

inductive Exit
  /-- An `AppException`, with the balance in its details where it has one. -/
  | app (e : AppException) (balance : Option Int)
  | credit (code message : String)
  | quotaExceeded (reason : String)
  | queueUnavailable
  /-- Any other `Exception`. -/
  | other
  /-- `CancelledError`, or `GeneratorExit`: no `Exception`. -/
  | cancelled
  deriving DecidableEq

def Exit.isException : Exit → Bool
  | .cancelled => false
  | _ => true

structure ErrorEvent where
  code : String
  message : String
  balance : Option Int
  deriving DecidableEq

structure Turn where
  db : Db
  /-- The calls of `release_turn_hold` with a hold. -/
  attempts : List TurnHold := []
  quotaTicket : Bool := false
  creditHold : Option TurnHold := none
  events : List ErrorEvent := []

abbrev Handler := Raising Exit Turn

/-- `except Exception: pass`. -/
def swallow (x : Handler Unit) : Handler Unit := tryCatch x (fun e => if e.isException then pure () else throw e)

def swallowed : Except Exit Unit → Except Exit Unit
  | .ok () => .ok ()
  | .error e => if e.isException then .ok () else .error e

/-- `if condition: raise e`. -/
def refuse (condition : Bool) (e : AppException) : Except Exit Unit :=
  if condition then .error (.app e none) else .ok ()

/-! ## the credit calls -/

structure Cut where
  committed : Bool
  exit : Exit
  deriving DecidableEq

def Exit.ofRaised : Credit.Raised → Exit
  | .creditError code message _ => .credit code message
  | .dataError => .other

def settle {α : Type} (cut : Option Cut) (db : Db) : Except Exit (Db × α) → Except Exit α × Db
  | .error e => (.error (match cut with | some cut => cut.exit | none => e), db)
  | .ok (db', result) =>
    match cut with
    | some cut => (.error cut.exit, if cut.committed then db' else db)
    | none => (.ok result, db')

def transact {α : Type} (cut : Option Cut) (op : Db → Except Exit (Db × α)) : Handler α := do
  let turn ← get
  let settled := settle cut turn.db (op turn.db)
  set { turn with db := settled.2 }
  await settled.1

/-- A call of `admit_turn`; no turn key is given, so the key is fresh. -/
structure AdmitCall where
  policy : CreditPolicy := {}
  now : Int := 0
  fresh : String
  cut : Option Cut := none

def admitTurn (a : AdmitCall) (user : User) : Handler (Option TurnHold) :=
  transact (if a.policy.enforced then a.cut else none)
    (fun db => (Credit.admitTurn a.policy a.now a.fresh db user.id none).mapError Exit.ofRaised)

structure ReleaseCall where
  now : Int := 0
  cut : Option Cut := none

def releaseTurnHold (r : ReleaseCall) (hold : TurnHold) : Handler Unit := do
  modify (fun turn => { turn with attempts := turn.attempts ++ [hold] })
  let _ ← transact r.cut (fun db => (Credit.releaseTurnHold r.now db (some hold)).mapError Exit.ofRaised)

/-! ## the inline path -/

/-- How the calls that `stream` awaits end. -/
structure StreamCalls where
  quotasEnabled : Bool := false
  admitRun : Except Exit Unit := .ok ()
  refreshToggles : Except Exit Unit := .ok ()
  admission : AdmitCall
  readAccount : Except Exit (Option Int) := .ok none
  /-- `_run`, to its last event. -/
  run : Except Exit Unit := .ok ()
  taken : Except Exit Unit := .ok ()
  releaseRun : Except Exit Unit := .ok ()
  release : ReleaseCall := {}

def yieldError (calls : StreamCalls) (event : ErrorEvent) : Handler Unit := do
  modify (fun turn => { turn with events := turn.events ++ [event] })
  await calls.taken

/-- The quota admission; `false` is its `return`. -/
def quotaAdmission (calls : StreamCalls) : Handler Bool :=
  if calls.quotasEnabled then
    tryCatch
      (do await calls.admitRun
          modify (fun turn => { turn with quotaTicket := true })
          pure true)
      (fun e => match e with
        | .quotaExceeded reason => do
          yieldError calls ⟨"quota_exceeded", reason, none⟩
          pure false
        | e => throw e)
  else pure true

/-- The credit admission; `false` is its `return`. -/
def creditAdmission (user : User) (calls : StreamCalls) : Handler Bool :=
  tryCatch
    (do let hold ← admitTurn calls.admission user
        modify (fun turn => { turn with creditHold := hold })
        pure true)
    (fun e => match e with
      | .credit code message => do
        let account ← await calls.readAccount
        yieldError calls ⟨code, message, some (account.getD 0)⟩
        pure false
      | e => throw e)

def streamBody (user : User) (calls : StreamCalls) : Handler Unit := do
  let goOn ← quotaAdmission calls
  if goOn then do
    await calls.refreshToggles
    let goOn ← creditAdmission user calls
    if goOn then await calls.run else pure ()
  else pure ()

def streamExcept (calls : StreamCalls) : Exit → Handler Unit
  | .cancelled => throw .cancelled
  | .app e _ => yieldError calls ⟨e.code, e.message, none⟩
  | _ => yieldError calls ⟨"internal", "Internal error", none⟩

def streamFinally (calls : StreamCalls) : Handler Unit := do
  let turn ← get
  if turn.quotaTicket then swallow (await calls.releaseRun) else pure ()
  match turn.creditHold with
  | some hold => swallow (releaseTurnHold calls.release hold)
  | none => pure ()

def stream (user : User) (calls : StreamCalls) : Handler Unit :=
  tryFinally (tryCatch (streamBody user calls) (streamExcept calls)) (streamFinally calls)

/-! ## the durable path -/

structure TurnRequest extends Scope.ChatRequest where
  conversationId : Option Uuid
  modelId : Option Uuid
  content : Text

structure Conversation where
  userId : Nat
  title : Text
  modelId : Option Uuid
  deriving DecidableEq

structure ModelConfig where
  userId : Option Nat
  deriving DecidableEq

/-- How the calls that `create_and_enqueue_durable_run` awaits end. -/
structure SubmitCalls where
  admission : AdmitCall
  readAccount : Except Exit (Option Int) := .ok none
  conversationRow : Except Exit (Option Conversation) := .ok none
  conversationFlush : Except Exit Unit := .ok ()
  inFlight : Except Exit Nat := .ok 0
  /-- `db.get(ModelConfig, cfg_id)`. -/
  modelRow : Except Exit (Option ModelConfig) := .ok none
  fallbackRow : Except Exit (Option ModelConfig) := .ok none
  mentionReads : Except Exit Unit := .ok ()
  userFlush : Except Exit Unit := .ok ()
  bindAttachments : Except Exit Unit := .ok ()
  assistantFlush : Except Exit Unit := .ok ()
  /-- `_resolve_turn_route`. -/
  route : Except Exit Unit := .ok ()
  runFlush : Except Exit Nat := .ok 0
  autotitle : Except Exit Unit := .ok ()
  commit : Except Exit Unit := .ok ()
  enqueue : Except Exit Unit := .ok ()
  release : ReleaseCall := {}

def defaultTitle : Text := "新对话".toList

def isDefaultTitle (title : Text) : Bool := strip title = [] || strip title = defaultTitle

def getOrCreateConversation (user : User) (request : TurnRequest) (calls : SubmitCalls) : Except Exit Conversation :=
  match request.conversationId with
  | some _ =>
    match calls.conversationRow with
    | .error e => .error e
    | .ok none => .error (.app ⟨404, "conversation_not_found", "Conversation not found"⟩ none)
    | .ok (some conv) =>
      if conv.userId = user.id then .ok conv else .error (.app ⟨403, "forbidden", "Not your conversation"⟩ none)
  | none =>
    let title := if strip request.content = [] then defaultTitle else (strip request.content).take 60
    calls.conversationFlush.map (fun _ => { userId := user.id, title := title, modelId := none })

def resolveModelConfig (request : TurnRequest) (conversation : Conversation) (calls : SubmitCalls) :
    Except Exit ModelConfig :=
  match request.modelId.or conversation.modelId with
  | some _ =>
    match calls.modelRow with
    | .error e => .error e
    | .ok none => .error (.app ⟨404, "model_not_found", "Model config not found"⟩ none)
    | .ok (some cfg) => .ok cfg
  | none =>
    match calls.fallbackRow with
    | .error e => .error e
    | .ok none => .error (.app ⟨400, "no_model_configured", "No model is configured yet"⟩ none)
    | .ok (some cfg) => .ok cfg

/-- The user message: only an `AppException` of the attachments is raised on. -/
def persistUserMessage (request : TurnRequest) (attachmentIds : List Uuid) (calls : SubmitCalls) : Except Exit Unit :=
  if strip request.content = [] then .ok ()
  else
    match calls.userFlush with
    | .error e => .error e
    | .ok () =>
      if attachmentIds = [] then .ok ()
      else
        match calls.bindAttachments with
        | .error (.app e balance) => .error (.app e balance)
        | bound => swallowed bound

def autoTitle (request : TurnRequest) (conversation : Conversation) (calls : SubmitCalls) : Except Exit Unit :=
  if isDefaultTitle conversation.title && strip request.content ≠ [] then swallowed calls.autotitle else .ok ()

def enqueueRun (calls : SubmitCalls) : Except Exit Unit :=
  match calls.enqueue with
  | .error .queueUnavailable => .error (.app ⟨503, "run_queue_unavailable", "服务繁忙，请求已排队稍后自动执行"⟩ none)
  | enqueued => enqueued

def submitRun (user : User) (rows : Rows) (request : TurnRequest) (calls : SubmitCalls) : Except Exit Nat := do
  let conversation ← getOrCreateConversation user request calls
  let inFlight ← calls.inFlight
  refuse (inFlight > 0) ⟨409, "turn_in_progress", "上一条回复还在生成中，请先停止或稍候再发送"⟩
  let cfg ← resolveModelConfig request conversation calls
  refuse (cfg.userId.any (· != user.id)) ⟨404, "model_not_found", "Model config not found"⟩
  calls.mentionReads
  let applied ← (Scope.applyMentions rows user request.toChatRequest request.knowledgeBaseIds.items).mapError (Exit.app · none)
  persistUserMessage request applied.attachmentIds calls
  calls.assistantFlush
  calls.route
  let runId ← calls.runFlush
  autoTitle request conversation calls
  calls.commit
  enqueueRun calls
  pure runId

def createAndEnqueueDurableRun (user : User) (rows : Rows) (request : TurnRequest) (calls : SubmitCalls) : Handler Nat := do
  let creditHold ← tryCatch (admitTurn calls.admission user) (fun e => match e with
    | .credit code message => do
      let account ← await calls.readAccount
      throw (.app ⟨402, code, message⟩ (some (account.getD 0)))
    | e => throw e)
  let runId ← await (submitRun user rows request calls)
  match creditHold with
  | some hold => swallow (releaseTurnHold calls.release hold)
  | none => pure ()
  pure runId

end Entry
end MyGpt
