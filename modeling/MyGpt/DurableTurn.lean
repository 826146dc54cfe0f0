import MyGpt.RunDb
/-!
# DurableTurn — the executor of a durable run

`run_durable_turn` around `ChatOrchestrator.stream` and a runtime, as a machine over the database.  The executor keeps
the run and message objects it loaded: their attributes stay as loaded or as it set them, whatever other processes
commit.  `out` holds the events it has yielded and the worker has not taken yet; it moves on only when they are taken.
-/
namespace MyGpt
namespace Run

/-- The terminal event of a turn; `unwinding` when it stands for a `CancelledError` that is raised again afterwards. -/
structure Ending where
  evt : RunEvent
  unwinding : Bool := false
  deriving DecidableEq

inductive Stage
  | start
  | loaded
  | streaming
  /-- `_finalize_run`, before the `SELECT` of `persist_terminal_run` -/
  | persisting (e : Ending)
  | selected (e : Ending) (output : Payload) (status : RunStatus)
  | appending (e : Ending)
  | settling (e : Ending)
  /-- the generator returns once `out` is taken -/
  | ended
  | raised
  /-- a `CancelledError` leaves the generator -/
  | killed
  deriving DecidableEq

structure Turn where
  stage : Stage := .start
  run : RunRow := {}
  msg : Message := {}
  out : List RunEvent := []
  deriving DecidableEq

/-- The errors `run_durable_turn` yields after loading the run and before the orchestrator. -/
inductive EarlyError
  | conversationNotFound | userNotFound | assistantMessageNotFound | modelConfigNotFound
  deriving DecidableEq

def EarlyError.code : EarlyError → String
  | .conversationNotFound => "conversation_not_found"
  | .userNotFound => "user_not_found"
  | .assistantMessageNotFound => "assistant_message_not_found"
  | .modelConfigNotFound => "model_config_not_found"

def errorEvent (code : String) : RunEvent := ⟨.error, [("code", .str code)]⟩

def doneEvent (finish : String) : RunEvent := ⟨.done, [("finish_reason", .str finish)]⟩

/-- What can happen next in the executor.  `ok = false`: the commit, or the statement, fails. -/
inductive TurnAct
  | load
  | earlyError (e : EarlyError)
  | setupFails
  | refuse (refusal : String) (ok : Bool)
  | startRun (runtime : String) (ok : Bool)
  | emit (name : String) (data : Payload)
  | checkpoint (content : String)
  | awaitApproval (ok : Bool)
  | resumeRunning (ok : Bool)
  | approvalCancelled (ok : Bool)
  | finish (e : Ending)
  | runOut
  | select (ok : Bool)
  | update (ok : Bool)
  | append (ok : Bool)
  | settle (answer : String) (ok : Bool)
  | gateFails
  | interrupt (usage ok : Bool)
  deriving DecidableEq

/-- `_set_run_status`: guarded by the held run object, written on its session; a failure is only logged. -/
def setRunStatus (db : Db) (t : Turn) (status : RunStatus) (ok : Bool) : Db × Turn :=
  if t.run.status.terminal || !ok then (db, t)
  else
    ({ db with run := db.run.map (fun row => { row with status := flushed t.run.status status row.status }) },
      { t with run := { t.run with status := status } })

@[simp] theorem setRunStatus_events (db : Db) (t : Turn) (status : RunStatus) (ok : Bool) :
    (setRunStatus db t status ok).1.events = db.events := by
  unfold setRunStatus
  split <;> rfl

@[simp] theorem setRunStatus_lease (db : Db) (t : Turn) (status : RunStatus) (ok : Bool) :
    (setRunStatus db t status ok).1.lease = db.lease := by
  unfold setRunStatus
  split <;> rfl

@[simp] theorem setRunStatus_stage (db : Db) (t : Turn) (status : RunStatus) (ok : Bool) :
    (setRunStatus db t status ok).2.stage = t.stage := by
  unfold setRunStatus
  split <;> rfl

def cancelledEnding : Ending := { evt := doneEvent "cancelled", unwinding := true }

/-- The finish reason a `done` event leaves on the message. -/
def doneFinish (evt : RunEvent) : String :=
  match finishReason evt with
  | some (.str s) => s
  | some _ => ""
  | none => "stop"

/-- The finish reason an `error` event leaves on the message. -/
def errorFinish (evt : RunEvent) : String :=
  match finishReason evt with
  | some (.str s) => if s = "" then finishForErrorCode (evt.data.get "code") else s
  | _ => finishForErrorCode (evt.data.get "code")

/-- The terminal events a runtime ends with, and the ending of a `CancelledError`. -/
def Ending.wellFormed (e : Ending) : Bool :=
  if e.unwinding then e == cancelledEnding else e.evt.kind == .done || e.evt.kind == .error

def settleTurn (db : Db) (t : Turn) (e : Ending) (answer : String) (ok : Bool) : Db × Turn :=
  if !ok then (db, { t with stage := .raised })
  else if e.evt.kind = .done then
    (db.settleMessage answer (doneFinish e.evt), { t with stage := .ended, out := [e.evt] })
  else (db.settleMessage t.msg.content (errorFinish e.evt), { t with stage := .ended, out := [e.evt] })

theorem settleTurn_cases (db : Db) (t : Turn) (e : Ending) (answer : String) (ok : Bool) :
    (settleTurn db t e answer ok).1 = db ∨
      ∃ content finish, (settleTurn db t e answer ok).1 = db.settleMessage content finish := by
  unfold settleTurn
  split
  · exact .inl rfl
  · split <;> exact .inr ⟨_, _, rfl⟩

@[simp] theorem settleTurn_run (db : Db) (t : Turn) (e : Ending) (answer : String) (ok : Bool) :
    (settleTurn db t e answer ok).1.run = db.run := by
  rcases settleTurn_cases db t e answer ok with h | ⟨_, _, h⟩ <;> rw [h] <;> rfl

@[simp] theorem settleTurn_events (db : Db) (t : Turn) (e : Ending) (answer : String) (ok : Bool) :
    (settleTurn db t e answer ok).1.events = db.events := by
  rcases settleTurn_cases db t e answer ok with h | ⟨_, _, h⟩ <;> rw [h] <;> rfl

@[simp] theorem settleTurn_lease (db : Db) (t : Turn) (e : Ending) (answer : String) (ok : Bool) :
    (settleTurn db t e answer ok).1.lease = db.lease := by
  rcases settleTurn_cases db t e answer ok with h | ⟨_, _, h⟩ <;> rw [h] <;> rfl

/-- One step of the executor, at time `now`. -/
def turnStep (now : Nat) (db : Db) (t : Turn) (a : TurnAct) : Option (Db × Turn) :=
  if t.out ≠ [] then none
  else
    match t.stage, a with
    | .start, .load =>
      match db.run with
      | none => some (db, { t with stage := .ended, out := [errorEvent "run_not_found"] })
      | some row => some (db, { t with stage := .loaded, run := row, msg := db.message })
    | .loaded, .earlyError e => some (db, { t with stage := .ended, out := [errorEvent e.code] })
    | .loaded, .setupFails => some (db, { t with stage := .raised })
    | .loaded, .refuse refusal ok =>
      if ok then
        some (db.settleMessage refusal "stop",
          { t with stage := .ended,
                   out := [⟨.other "validation", []⟩, ⟨.other "token", [("delta", .str refusal)]⟩, doneEvent "stop"] })
      else some (db, { t with stage := .raised })
    | .loaded, .startRun runtime ok =>
      -- the held object becomes `running`; the row's status is only written where that is a change
      if ok then
        some ({ db.flushMessage t.msg.content t.msg with
                run := db.run.map (fun row => { row with
                  status := flushed t.run.status .running row.status
                  runtime := flushed t.run.runtime runtime row.runtime }) },
          { t with stage := .streaming, run := { t.run with status := .running, runtime := runtime } })
      else some (db, { t with stage := .raised })
    | .streaming, .emit name data => some (db, { t with out := [⟨.other name, data⟩] })
    | .settling e, .emit name data =>
      if e.unwinding then none else some (db, { t with out := [⟨.other name, data⟩] })
    | .streaming, .checkpoint content =>
      let msg := { t.msg with content := content }
      some (db.flushMessage t.msg.content msg, { t with msg := msg })
    | .streaming, .awaitApproval ok => some (setRunStatus db t .waitingApproval ok)
    | .streaming, .resumeRunning ok => some (setRunStatus db t .running ok)
    | .streaming, .approvalCancelled ok =>
      let (db, t) := setRunStatus db t .cancelled ok
      some (db, { t with stage := .persisting cancelledEnding })
    | .streaming, .finish e => if e.wellFormed then some (db, { t with stage := .persisting e }) else none
    | .streaming, .runOut => some (db, { t with stage := .ended })
    | .persisting e, .select ok =>
      match ok, db.run with
      | true, some row => some (db, { t with stage := .selected e row.output row.status })
      | _, _ => some (db, { t with stage := .appending e })
    | .selected e output status, .update ok =>
      some (if ok then db.persistTerminalRun e.evt output status now else db, { t with stage := .appending e })
    | .appending e, .append ok =>
      some (if ok then db.append [terminalEvent e.evt t.run.status] else db, { t with stage := .settling e })
    | .settling e, .settle answer ok => if e.unwinding then none else some (settleTurn db t e answer ok)
    | .settling e, .gateFails => if e.unwinding then none else some (db, { t with stage := .raised })
    | .settling _, .interrupt usage ok =>
      some (if ok then db.persistPartial t.msg.content usage else db, { t with stage := .killed })
    | _, _ => none

end Run
end MyGpt
