import MyGpt.DurableTurn
/-!
# RunWorker — the worker loop around one run

The entries of one run in the Redis stream, `RedisStreamQueue` over the consumer group: entries no consumer has been given
yet, and the pending entries list (PEL) of those given and not acknowledged.  The group holds other runs' entries too; which
of this run's pending entries a scan reaches (`RUN_STREAM_PENDING_SCAN`, bodies trimmed away, a Redis error) comes with the
call.  Over them, `RunWorker._process` with its renewal task, one database statement or commit a step, so that another
process can act between any two of them.  A worker is past its claim from the commit of the claim until it is idle again.
-/
namespace MyGpt
namespace Run

structure Delivery where
  id : Nat
  consumer : Owner
  since : Nat
  deriving DecidableEq

structure Stream where
  nextId : Nat := 0
  waiting : List Nat := []
  pel : List Delivery := []
  deriving DecidableEq

def Stream.xadd (q : Stream) : Stream := { q with nextId := q.nextId + 1, waiting := q.waiting ++ [q.nextId] }

/-- `enqueue`: nothing while a live lease or a pending entry is seen. -/
def Stream.enqueue (q : Stream) (liveLease : Bool) : Stream :=
  if liveLease || !q.pel.isEmpty then q else q.xadd

/-- `XREADGROUP`: the oldest entry that no consumer has been given. -/
def Stream.dequeue (q : Stream) (owner : Owner) (now : Nat) : Option Stream :=
  match q.waiting with
  | [] => none
  | id :: rest => some { q with waiting := rest, pel := q.pel ++ [⟨id, owner, now⟩] }

/-- `ack(run_id, owner)`: every pending entry of the run that the scan reaches, whoever holds it. -/
def Stream.ack (q : Stream) (reached : Delivery → Bool) : Stream :=
  { q with pel := q.pel.filter (fun d => !reached d) }

/-- `reclaim_stale` on one entry idle for `claimIdle`: it moves to the reclaimer, and unless Redis fails there a fresh
entry is added and the claimed one acknowledged. -/
def Stream.reclaim (q : Stream) (d : Delivery) (reclaimer : Owner) (now claimIdle : Nat) (ok : Bool) : Option Stream :=
  if d ∈ q.pel ∧ d.since + claimIdle ≤ now then
    if ok then some { q.xadd with pel := q.pel.filter (fun e => e.id != d.id) }
    else some { q with pel := q.pel.map (fun e => if e.id = d.id then ⟨d.id, reclaimer, now⟩ else e) }
  else none

/-! ## the worker -/

structure Settings where
  /-- `RUN_LEASE_TTL_SECONDS` -/
  leaseTtl : Nat := 120
  /-- `RUN_STREAM_CLAIM_IDLE_SECONDS` -/
  claimIdle : Nat := 120
  /-- `RUN_MAX_RETRIES` -/
  maxRetries : Nat := 3
  deriving DecidableEq

inductive After
  | goOn
  | finalize (terminal : Bool)
  | abandon
  deriving DecidableEq

inductive Phase
  | idle
  | delivered
  | skipping
  | loaded (run : RunRow)
  | leaseRead (run : RunRow) (lease : Option RunLease) (now : Nat)
  | running
  | persisting (after : After)
  | abandoning
  | abandonRead (own : Option RunLease)
  | finalizing (terminal : Bool)
  | finLease (terminal : Bool) (own : Option RunLease)
  | finRun (terminal : Bool) (own : Option RunLease) (run : Option RunRow)
  | acking
  | dead
  deriving DecidableEq

def Phase.pastClaim : Phase → Bool
  | .running | .persisting _ | .abandoning | .abandonRead _ | .finalizing _ | .finLease .. | .finRun .. | .acking => true
  | _ => false

def Phase.claiming : Phase → Bool
  | .delivered | .loaded _ | .leaseRead .. => true
  | _ => false

def Phase.executing : Phase → Bool
  | .running | .persisting .goOn => true
  | _ => false

def Phase.inLoop : Phase → Bool
  | .running | .persisting _ | .abandoning | .abandonRead _ => true
  | _ => false

inductive Renewal
  | sleeping
  | read (lease : RunLease) (now : Nat)
  | stopped
  deriving DecidableEq

structure Worker where
  phase : Phase := .idle
  turn : Turn := {}
  renewal : Renewal := .stopped
  leaseLost : Bool := false
  batch : List RunEvent := []
  seen : Option RunEvent := none
  deriving DecidableEq

inductive WorkerAct
  | deliver
  | loadRun
  | skip (reached : Delivery → Bool)
  | readLease
  | claim (logged : Bool)
  | claimFails
  | renewRead
  | renewWrite
  | renewFails
  | turn (a : TurnAct)
  /-- the executor's next event reaches the loop; `due`: the batch is full or old enough -/
  | next (due : Bool)
  | exhausted
  | raised
  | persist (ok : Bool)
  | readOwnLease
  | loadForFinal
  | commitFinal (ok : Bool)
  | ack (reached : Delivery → Bool)
  | crash

structure Shared where
  clock : Nat := 0
  db : Db := {}
  queue : Stream := {}
  deriving DecidableEq

/-- `_persist_event_batch`: best effort. -/
def Shared.persist (s : Shared) (batch : List RunEvent) (ok : Bool) : Shared :=
  if ok then { s with db := s.db.append batch } else s

@[simp] theorem persist_status (s : Shared) (batch : List RunEvent) (ok : Bool) : (s.persist batch ok).db.status = s.db.status := by
  cases ok <;> rfl

def Worker.leave (w : Worker) (phase : Phase) : Worker := { w with phase := phase, renewal := .stopped }

def Worker.take (w : Worker) (evt : RunEvent) (rest : List RunEvent) (due : Bool) : Worker :=
  let w := { w with turn := { w.turn with out := rest } }
  if w.leaseLost then { w.leave .idle with batch := [] }
  else
    let w := { w with batch := w.batch ++ [evt] }
    if evt.kind.terminal then { w with phase := .persisting (.finalize true), seen := some evt }
    else if due then { w with phase := .persisting .goOn }
    else w

theorem take_phase (w : Worker) (evt : RunEvent) (rest : List RunEvent) (due : Bool) :
    (w.take evt rest due).phase =
      if w.leaseLost then .idle
      else if evt.kind.terminal then .persisting (.finalize true)
      else if due then .persisting .goOn
      else w.phase := by
  by_cases hl : w.leaseLost = true
  · simp [Worker.take, Worker.leave, hl]
  · by_cases ht : evt.kind.terminal = true
    · simp [Worker.take, hl, ht]
    · cases due <;> simp [Worker.take, hl, ht]

/-- One step of worker `me`. -/
def workerStep (cfg : Settings) (me : Owner) (s : Shared) (w : Worker) (a : WorkerAct) : Option (Shared × Worker) :=
  match w.phase, a with
  | .idle, .deliver => (s.queue.dequeue me s.clock).map (fun q => ({ s with queue := q }, { w with phase := .delivered }))
  | .delivered, .loadRun =>
    match s.db.run with
    | none => some (s, { w with phase := .skipping })
    | some row =>
      if row.status.terminal then some (s, { w with phase := .skipping }) else some (s, { w with phase := .loaded row })
  | .skipping, .skip reached => some ({ s with queue := s.queue.ack reached }, { w with phase := .idle })
  | .loaded row, .readLease => some (s, { w with phase := .leaseRead row s.db.lease s.clock })
  | .leaseRead row lease now, .claim logged =>
    match s.db.claim row lease me now cfg.leaseTtl logged with
    | none => some (s, { w with phase := .idle })
    | some db =>
      some ({ s with db := db },
        { phase := .running, turn := {}, renewal := .sleeping, leaseLost := false, batch := [], seen := none })
  | .leaseRead .., .claimFails => some (s, { w with phase := .idle })
  | .running, .turn ta =>
    (turnStep s.clock s.db w.turn ta).map (fun (db, t) => ({ s with db := db }, { w with turn := t }))
  | .running, .next due =>
    match w.turn.out with
    | [] => none
    | evt :: rest => some (s, w.take evt rest due)
  | .running, .exhausted =>
    if w.turn.out = [] ∧ w.turn.stage = .ended then some (s, w.leave (.persisting (.finalize false))) else none
  | .running, .raised =>
    match w.turn.stage with
    | .raised => some (s, { w with phase := .persisting .abandon })
    | .killed => some (s, w.leave .dead)
    | _ => none
  | .persisting after, .persist ok =>
    let s := s.persist w.batch ok
    match after with
    | .goOn => some (s, { w with batch := [], phase := .running })
    | .finalize terminal => some (s, { w.leave (.finalizing terminal) with batch := [] })
    | .abandon => some (s, { w with batch := [], phase := .abandoning })
  | .abandoning, .readOwnLease => some (s, { w with phase := .abandonRead (ownLease s.db.lease me) })
  | .abandonRead own, .commitFinal ok =>
    some (if ok then { s with db := s.db.deleteLease (own.map (·.id)) } else s, w.leave .idle)
  | .finalizing terminal, .readOwnLease => some (s, { w with phase := .finLease terminal (ownLease s.db.lease me) })
  | .finLease terminal own, .loadForFinal => some (s, { w with phase := .finRun terminal own s.db.run })
  | .finRun terminal own run, .commitFinal ok =>
    if ok then some ({ s with db := s.db.finalizeSuccess own terminal run s.clock }, { w with phase := .acking })
    else some (s, { w with phase := .idle })
  | .acking, .ack reached => some ({ s with queue := s.queue.ack reached }, { w with phase := .idle })
  | _, .renewRead =>
    match w.renewal with
    | .sleeping =>
      match ownLease s.db.lease me with
      | some l => some (s, { w with renewal := .read l s.clock })
      | none => some (s, { w with renewal := .stopped, leaseLost := true })
    | _ => none
  | _, .renewWrite =>
    match w.renewal with
    | .read l now =>
      match s.db.renew l now cfg.leaseTtl with
      | some db => some ({ s with db := db }, { w with renewal := .sleeping })
      -- the row is gone: the flush raises and ends the task without a word to the loop
      | none => some (s, { w with renewal := .stopped })
    | _ => none
  | _, .renewFails =>
    match w.renewal with
    | .stopped => none
    | _ => some (s, { w with renewal := .stopped })
  | .dead, _ => none
  | _, .crash => some (s, w.leave .dead)
  | _, _ => none

end Run
end MyGpt
