/-!
# RunDb — one durable run in the database, and the writes every process makes to it

The row of one run, its lease, its event log and its assistant message.  Every write is a function of what its session
read earlier and of the database at its commit: the ORM's `UPDATE` names only the columns the session changed
(`flushed`), so what another process wrote in between stays where this session changed nothing.
-/
namespace MyGpt
namespace Run

abbrev Owner := Nat

inductive RunStatus
  | pending | running | waitingApproval | paused | completed | failed | cancelled
  deriving DecidableEq

def RunStatus.terminal : RunStatus → Bool
  | .completed | .failed | .cancelled => true
  | _ => false

/-- `_actively_executing` of the recovery scan. -/
def RunStatus.active : RunStatus → Bool
  | .running | .waitingApproval | .paused => true
  | _ => false

/-! ## event payloads -/

inductive Value
  | null
  | str (s : String)
  | num (n : Nat)
  deriving DecidableEq

abbrev Payload := List (String × Value)

def Payload.get (p : Payload) (key : String) : Option Value := (p.find? (fun kv => kv.1 == key)).map (·.2)

/-- `{**a, **b}`. -/
def Payload.merge (a b : Payload) : Payload := a.filter (fun kv => (b.get kv.1).isNone) ++ b

/-- `str(value)`. -/
def Value.toStr : Value → String
  | .null => "None"
  | .str s => s
  | .num n => toString n

inductive EventKind
  | runStarted | runCompleted | runFailed | runCancelled | recoveryRequeued | done | error
  | other (name : String)
  deriving DecidableEq

/-- `_TERMINAL_EVENT_TYPES`. -/
def EventKind.terminal : EventKind → Bool
  | .runCompleted | .runFailed | .runCancelled | .done | .error => true
  | _ => false

def EventKind.outcome : EventKind → Bool
  | .runCompleted | .runFailed | .runCancelled => true
  | _ => false

/-- A row of `run_events`, and an `AgentEvent` on its way to become one. -/
structure RunEvent where
  kind : EventKind
  data : Payload := []
  deriving DecidableEq

/-! ## the rows -/

structure RunRow where
  status : RunStatus := .pending
  runtime : String := "native"
  startedAt : Option Nat := none
  finishedAt : Option Nat := none
  errorMessage : Option String := none
  output : Payload := []
  deriving DecidableEq

structure RunLease where
  id : Nat
  owner : Owner
  version : Nat
  acquiredAt : Nat
  expiresAt : Nat
  deriving DecidableEq

def RunLease.isExpired (lease : RunLease) (now : Nat) : Bool := decide (lease.expiresAt ≤ now)

inductive MessageStatus
  | pending | complete | truncated | cancelled | error | interrupted
  deriving DecidableEq

/-- The assistant message: its text, `metadata.status`, `metadata.finish_reason`, and the text its usage was settled for. -/
structure Message where
  content : String := ""
  status : MessageStatus := .pending
  finishReason : Option String := none
  settled : Option String := none
  deriving DecidableEq

structure Db where
  run : Option RunRow := none
  lease : Option RunLease := none
  nextLease : Nat := 0
  events : List RunEvent := []
  message : Message := {}
  deriving DecidableEq

def flushed {α : Type} [DecidableEq α] (loaded new stored : α) : α := if new = loaded then stored else new

@[simp] theorem flushed_same {α : Type} [DecidableEq α] (loaded stored : α) : flushed loaded loaded stored = stored :=
  if_pos rfl

@[simp] theorem flushed_stored {α : Type} [DecidableEq α] (loaded new : α) : flushed loaded new loaded = new := by
  unfold flushed
  split
  · rename_i h; exact h.symm
  · rfl

@[simp] theorem map_flushed_same {α : Type} [DecidableEq α] (loaded : α) (o : Option α) :
    o.map (flushed loaded loaded) = o := by
  cases o <;> simp

theorem flushed_ne {α : Type} [DecidableEq α] {loaded new : α} (h : new ≠ loaded) :
    flushed loaded new = fun _ => new :=
  funext (fun _ => if_neg h)

def Db.status (db : Db) : Option RunStatus := db.run.map (·.status)

def Db.over (db : Db) : Bool := db.status.any RunStatus.terminal

def Db.append (db : Db) (evs : List RunEvent) : Db := { db with events := db.events ++ evs }

@[simp] theorem append_run (db : Db) (evs : List RunEvent) : (db.append evs).run = db.run := rfl
@[simp] theorem append_lease (db : Db) (evs : List RunEvent) : (db.append evs).lease = db.lease := rfl
@[simp] theorem append_message (db : Db) (evs : List RunEvent) : (db.append evs).message = db.message := rfl
@[simp] theorem append_events (db : Db) (evs : List RunEvent) : (db.append evs).events = db.events ++ evs := rfl

/-! ## LeaseStore -/

def RunLease.takenOver (row l : RunLease) (owner : Owner) (now ttl : Nat) : RunLease where
  id := row.id
  owner := flushed l.owner owner row.owner
  version := flushed l.version (l.version + 1) row.version
  acquiredAt := flushed l.acquiredAt now row.acquiredAt
  expiresAt := flushed l.expiresAt (now + ttl) row.expiresAt

def RunLease.renewed (row l : RunLease) (now ttl : Nat) : RunLease :=
  { row with expiresAt := flushed l.expiresAt (now + ttl) row.expiresAt
             version := flushed l.version (l.version + 1) row.version }

/-- The flush of `acquire` after its read of the lease row; `none` where it raises (the row appeared, or is gone). -/
def Db.acquire (db : Db) (read : Option RunLease) (owner : Owner) (now ttl : Nat) : Option Db :=
  match read, db.lease with
  | none, none =>
    some { db with
      lease := some { id := db.nextLease, owner := owner, version := 1, acquiredAt := now, expiresAt := now + ttl }
      nextLease := db.nextLease + 1 }
  | none, some _ => none
  | some _, none => none
  | some l, some row =>
    if row.id = l.id then some { db with lease := some (row.takenOver l owner now ttl) }
    else none

/-- The lease row that `renew` and `release` go on with: the caller's own. -/
def ownLease (read : Option RunLease) (owner : Owner) : Option RunLease :=
  read.filter (fun l => l.owner == owner)

/-- The flush of `renew`; `none` where the row it read is gone. -/
def Db.renew (db : Db) (l : RunLease) (now ttl : Nat) : Option Db :=
  match db.lease with
  | none => none
  | some row =>
    if row.id = l.id then some { db with lease := some (row.renewed l now ttl) }
    else none

/-- `DELETE` of a lease row by its id. -/
def Db.deleteLease (db : Db) (id : Option Nat) : Db :=
  { db with lease := db.lease.filter (fun row => some row.id != id) }

theorem acquire_none {db db' : Db} {owner : Owner} {now ttl : Nat} (h : db.acquire none owner now ttl = some db') :
    db.lease = none ∧ db' = { db with lease := some ⟨db.nextLease, owner, 1, now, now + ttl⟩,
                                      nextLease := db.nextLease + 1 } := by
  unfold Db.acquire at h
  cases hl : db.lease with
  | none => rw [hl] at h; cases h; exact ⟨rfl, rfl⟩
  | some row => rw [hl] at h; cases h

theorem acquire_some {db db' : Db} {l : RunLease} {owner : Owner} {now ttl : Nat}
    (h : db.acquire (some l) owner now ttl = some db') :
    ∃ row, db.lease = some row ∧ row.id = l.id ∧ db' = { db with lease := some (row.takenOver l owner now ttl) } := by
  unfold Db.acquire at h
  cases hl : db.lease with
  | none => rw [hl] at h; cases h
  | some row =>
    rw [hl] at h
    dsimp only at h
    split at h
    · rename_i hid; cases h; exact ⟨row, rfl, hid, rfl⟩
    · cases h

theorem acquire_frame {db db' : Db} {read : Option RunLease} {owner : Owner} {now ttl : Nat}
    (h : db.acquire read owner now ttl = some db') :
    db'.run = db.run ∧ db'.events = db.events ∧ db'.message = db.message := by
  cases read with
  | none => obtain ⟨-, rfl⟩ := acquire_none h; exact ⟨rfl, rfl, rfl⟩
  | some l => obtain ⟨row, -, -, rfl⟩ := acquire_some h; exact ⟨rfl, rfl, rfl⟩

theorem renew_spec {db db' : Db} {l : RunLease} {now ttl : Nat} (h : db.renew l now ttl = some db') :
    ∃ row, db.lease = some row ∧ row.id = l.id ∧ db' = { db with lease := some (row.renewed l now ttl) } := by
  unfold Db.renew at h
  cases hl : db.lease with
  | none => rw [hl] at h; cases h
  | some row =>
    rw [hl] at h
    dsimp only at h
    split at h
    · rename_i hid; cases h; exact ⟨row, rfl, hid, rfl⟩
    · cases h

@[simp] theorem deleteLease_run (db : Db) (id : Option Nat) : (db.deleteLease id).run = db.run := rfl

/-! ## the worker's writes -/

/-- The commit of a claim: the lease, `status = "running"`, `started_at`, and the `run.started` event where its savepoint
held. -/
def Db.claim (db : Db) (loaded : RunRow) (read : Option RunLease) (owner : Owner) (now ttl : Nat) (logged : Bool) :
    Option Db :=
  match db.acquire read owner now ttl, db.run with
  | some db', some row =>
    some { db' with
      run := some { row with
        status := flushed loaded.status .running row.status
        startedAt := flushed loaded.startedAt (some (loaded.startedAt.getD now)) row.startedAt }
      events := db'.events ++ if logged then [⟨.runStarted, [("owner", .num owner)]⟩] else [] }
  | _, _ => none

theorem claim_spec {db db' : Db} {loaded : RunRow} {read : Option RunLease} {owner : Owner} {now ttl : Nat}
    {logged : Bool} (h : db.claim loaded read owner now ttl logged = some db') :
    ∃ row acq, db.run = some row ∧ db.acquire read owner now ttl = some acq ∧ db' = { acq with
      run := some { row with
        status := flushed loaded.status .running row.status
        startedAt := flushed loaded.startedAt (some (loaded.startedAt.getD now)) row.startedAt }
      events := acq.events ++ if logged then [⟨.runStarted, [("owner", .num owner)]⟩] else [] } := by
  unfold Db.claim at h
  split at h
  · rename_i acq row ha hr
    cases h
    exact ⟨row, acq, hr, ha, rfl⟩
  · cases h

/-- The commit of `_finalize_success`: the lease it found its own is deleted, and after a terminal event a run that it
read as unfinished is completed. -/
def Db.finalizeSuccess (db : Db) (own : Option RunLease) (terminal : Bool) (loaded : Option RunRow) (now : Nat) : Db :=
  let db := db.deleteLease (own.map (·.id))
  match terminal, loaded with
  | true, some r =>
    if r.status.terminal then db
    else { db with run := db.run.map (fun row => { row with
      status := flushed r.status .completed row.status, finishedAt := some now }) }
  | _, _ => db

@[simp] theorem finalizeSuccess_events (db : Db) (own : Option RunLease) (terminal : Bool) (loaded : Option RunRow)
    (now : Nat) : (db.finalizeSuccess own terminal loaded now).events = db.events := by
  unfold Db.finalizeSuccess
  split
  · split <;> rfl
  · rfl

@[simp] theorem finalizeSuccess_message (db : Db) (own : Option RunLease) (terminal : Bool) (loaded : Option RunRow)
    (now : Nat) : (db.finalizeSuccess own terminal loaded now).message = db.message := by
  unfold Db.finalizeSuccess
  split
  · split <;> rfl
  · rfl

@[simp] theorem finalizeSuccess_lease (db : Db) (own : Option RunLease) (terminal : Bool) (loaded : Option RunRow)
    (now : Nat) : (db.finalizeSuccess own terminal loaded now).lease = (db.deleteLease (own.map (·.id))).lease := by
  unfold Db.finalizeSuccess
  split
  · split <;> rfl
  · rfl

theorem finalizeSuccess_status (db : Db) (own : Option RunLease) (terminal : Bool) (loaded : Option RunRow) (now : Nat) :
    (db.finalizeSuccess own terminal loaded now).status = db.status ∨
      terminal = true ∧ (∃ r, loaded = some r ∧ r.status.terminal = false) ∧
        (db.finalizeSuccess own terminal loaded now).status = db.status.map (fun _ => .completed) := by
  unfold Db.finalizeSuccess
  split
  · rename_i r
    split
    · exact .inl rfl
    · rename_i hr
      refine .inr ⟨rfl, ⟨r, rfl, by simpa using hr⟩, ?_⟩
      have hne : RunStatus.completed ≠ r.status := by rintro h; rw [← h] at hr; exact hr rfl
      simp only [Db.status, deleteLease_run, Option.map_map]
      congr 1
      funext row
      simp [flushed, hne]
  · exact .inl rfl

/-! ## recovery and cancel -/

def Db.countRetries (db : Db) : Nat := db.events.countP (fun e => e.kind == .recoveryRequeued)

/-- The commit of `_reconcile`: requeue while the budget lasts, then fail. -/
def Db.reconcile (db : Db) (loaded : RunRow) (retryCount maxRetries : Nat) (leaseId : Option Nat) (now : Nat) : Db :=
  if retryCount < maxRetries then
    { (db.append [⟨.recoveryRequeued, [("retry", .num (retryCount + 1)), ("reason", .str "lease expired")]⟩]).deleteLease
        leaseId with
      run := db.run.map (fun row => { row with
        status := flushed loaded.status .pending row.status
        errorMessage := flushed loaded.errorMessage none row.errorMessage }) }
  else
    { db.deleteLease leaseId with
      run := db.run.map (fun row => { row with
        status := .failed
        finishedAt := some now
        errorMessage := some ("lease expired; recovery exhausted retries (" ++ toString retryCount ++ "/" ++
          toString maxRetries ++ ")") }) }

/-- The commit of `cancel_run`. -/
def Db.cancelRun (db : Db) (now : Nat) : Db :=
  { db with run := db.run.map (fun row => { row with status := .cancelled, finishedAt := some now }) }

/-! ## the terminal persistence of a turn -/

def finishReason (evt : RunEvent) : Option Value := evt.data.get "finish_reason"

/-- The status `persist_terminal_run` writes, from the event and the status it selected. -/
def terminalStatus (evt : RunEvent) (selected : RunStatus) : RunStatus :=
  if evt.kind = .done then
    if finishReason evt = some (.str "cancelled") ∨ selected = .cancelled then .cancelled else .completed
  else .failed

/-- The `UPDATE` of `persist_terminal_run` after its `SELECT output, status`. -/
def Db.persistTerminalRun (db : Db) (evt : RunEvent) (output : Payload) (selected : RunStatus) (now : Nat) : Db :=
  { db with run := db.run.map (fun row => { row with
      finishedAt := some now
      output := output.merge evt.data
      status := terminalStatus evt selected
      errorMessage :=
        if evt.kind = .done then row.errorMessage
        else some (((evt.data.get "message").getD (.str "")).toStr) }) }

def terminalType (evt : RunEvent) (held : RunStatus) : EventKind :=
  if evt.kind = .done ∧ (finishReason evt = some (.str "cancelled") ∨ held = .cancelled) then .runCancelled
  else if evt.kind = .done then .runCompleted
  else .runFailed

/-- The event `_finalize_run` appends. -/
def terminalEvent (evt : RunEvent) (held : RunStatus) : RunEvent :=
  ⟨terminalType evt held,
    [("finish_reason", (finishReason evt).getD .null), ("message", (evt.data.get "message").getD (.str ""))]⟩

/-! ## the assistant message -/

def statusForFinish (finish : String) : MessageStatus :=
  match finish with
  | "" | "stop" | "tool_calls" => .complete
  | "length" | "budget" => .truncated
  | "cancelled" => .cancelled
  | "stream_disconnected" => .interrupted
  | _ => .error

def finishForErrorCode (code : Option Value) : String :=
  match code with
  | some (.str "agent_budget_exceeded") => "budget"
  | some (.str "provider_timeout") => "timeout"
  | some (.str "provider_error") => "provider_error"
  | some (.str "stream_disconnected") => "stream_disconnected"
  | _ => "error"

@[simp] theorem persistTerminalRun_status (db : Db) (evt : RunEvent) (output : Payload) (selected : RunStatus)
    (now : Nat) :
    (db.persistTerminalRun evt output selected now).status = db.status.map (fun _ => terminalStatus evt selected) := by
  simp only [Db.persistTerminalRun, Db.status, Option.map_map]
  rfl

def Db.flushMessage (db : Db) (loadedContent : String) (msg : Message) : Db :=
  { db with message := { db.message with
      content := flushed loadedContent msg.content db.message.content
      status := msg.status
      finishReason := msg.finishReason } }

def Db.settleMessage (db : Db) (content finish : String) : Db :=
  { db with message := { content := content, status := statusForFinish finish, finishReason := some finish,
                         settled := some content } }

def Db.persistPartial (db : Db) (content : String) (usage : Bool) : Db :=
  { db with message := { content := content, status := statusForFinish "stream_disconnected"
                         finishReason := some "stream_disconnected"
                         settled := if usage then some content else db.message.settled } }

def Message.finished (msg : Message) : Bool := msg.settled == some msg.content && msg.status != .pending

theorem statusForFinish_ne_pending (finish : String) : statusForFinish finish ≠ .pending := by
  unfold statusForFinish
  split <;> simp

@[simp] theorem settleMessage_finished (db : Db) (content finish : String) :
    (db.settleMessage content finish).message.finished = true := by
  simp [Db.settleMessage, Message.finished, statusForFinish_ne_pending]

end Run
end MyGpt
