import MyGpt.Lib.Trace
import MyGpt.RunWorker
import Mathlib.Logic.Function.Basic
/-!
# RunSystem — all the processes that touch one run

Any number of workers, the recovery scan, any number of cancel requests, the API process that streams a turn itself, the
queue's reclaimer and the clock, interleaved statement by statement.
-/
namespace MyGpt
namespace Run

/-! ## the recovery scan -/

/-- `RecoveryScheduler.scan` on one run, between its statements. -/
inductive Scanner
  | idle
  /-- `_find_expired_leases` read the lease row; `some` when it was expired -/
  | readLease (expired : Option Nat)
  /-- then the run's status; `some` when that made it a candidate -/
  | readRun (candidate : Option Nat)
  /-- `_find_stale_running_no_lease` read the status -/
  | readActive (candidate : Option Nat) (active : Bool)
  | candidate (leaseId : Option Nat)
  | loaded (leaseId : Option Nat) (run : RunRow)
  | counted (leaseId : Option Nat) (run : RunRow) (retryCount : Nat)
  /-- committed as requeued; the `XADD` is next -/
  | requeueing
  deriving DecidableEq

inductive ScanAct
  | findLease | findRun | findActive | findNoLease | load | count | commit | fails
  | requeue (ok : Bool)
  deriving DecidableEq

/-- The lease that `_find_expired_leases` keeps. -/
def expiredLease (lease : Option RunLease) (now : Nat) : Option Nat :=
  (lease.filter (fun l => l.isExpired now)).map (·.id)

def scanStep (cfg : Settings) (s : Shared) (r : Scanner) (a : ScanAct) : Option (Shared × Scanner) :=
  match r, a with
  | .idle, .findLease => some (s, .readLease (expiredLease s.db.lease s.clock))
  | .readLease expired, .findRun =>
    some (s, .readRun (expired.filter (fun _ => s.db.run.any (fun row => !row.status.terminal))))
  | .readRun c, .findActive => some (s, .readActive c (s.db.run.any (·.status.active)))
  | .readActive c active, .findNoLease =>
    match c with
    | some id => some (s, .candidate (some id))
    | none => some (s, if active && s.db.lease.isNone then .candidate none else .idle)
  | .candidate leaseId, .load =>
    match s.db.run with
    | none => some (s, .idle)
    | some row => some (s, if row.status.terminal then .idle else .loaded leaseId row)
  | .loaded leaseId row, .count => some (s, .counted leaseId row s.db.countRetries)
  | .counted leaseId row n, .commit =>
    some ({ s with db := s.db.reconcile row n cfg.maxRetries leaseId s.clock },
      if n < cfg.maxRetries then .requeueing else .idle)
  | .requeueing, .requeue ok => some (if ok then { s with queue := s.queue.xadd } else s, .idle)
  | .idle, .fails => none
  | _, .fails => some (s, .idle)
  | _, _ => none

/-! ## cancel requests -/

inductive CancelReq
  | idle
  | loaded (run : RunRow)
  deriving DecidableEq

inductive CancelAct
  | load | commit | fails
  deriving DecidableEq

/-- `cancel_run`: refused on a run that is over, and otherwise a commit of its own. -/
def cancelStep (s : Shared) (c : CancelReq) (a : CancelAct) : Option (Shared × CancelReq) :=
  match c, a with
  | .idle, .load =>
    match s.db.run with
    | none => none
    | some row => some (s, if row.status.terminal then .idle else .loaded row)
  | .loaded _, .commit => some ({ s with db := s.db.cancelRun s.clock }, .idle)
  | .loaded _, .fails => some (s, .idle)
  | _, _ => none

/-! ## a turn streamed by the API process -/

inductive InlineAct
  | create (runtime : String)
  | turn (a : TurnAct)
  | send
  deriving DecidableEq

/-- `_create_run` with the start of the stream: the row is `running` from its first commit, and has no lease. -/
def createRun (now : Nat) (db : Db) (runtime : String) : Option (Db × Turn) :=
  match db.run with
  | some _ => none
  | none =>
    let row : RunRow := { status := .running, runtime := runtime, startedAt := some now }
    some ({ db.append [⟨.runStarted, [("runtime", .str runtime)]⟩] with run := some row },
      { stage := .streaming, run := row, msg := db.message })

def inlineStep (s : Shared) (t : Turn) (a : InlineAct) : Option (Shared × Turn) :=
  match a with
  | .create runtime =>
    if t.stage = .start then (createRun s.clock s.db runtime).map (fun (db, t) => ({ s with db := db }, t)) else none
  | .turn ta =>
    if t.stage = .start then none
    else (turnStep s.clock s.db t ta).map (fun (db, t) => ({ s with db := db }, t))
  | .send =>
    match t.out with
    | [] => none
    | _ :: rest => some (s, { t with out := rest })

def Turn.live (t : Turn) : Bool :=
  match t.stage with
  | .start | .ended | .raised | .killed => false
  | _ => true

/-! ## the system -/

structure World where
  shared : Shared := {}
  workers : Owner → Worker := fun _ => {}
  scanner : Scanner := .idle
  cancels : Nat → CancelReq := fun _ => .idle
  inline : Turn := {}
  lastClaim : Option Owner := none

inductive Act
  | tick (seconds : Nat)
  | enqueue
  | reclaim (d : Delivery) (reclaimer : Owner) (ok : Bool)
  | worker (w : Owner) (a : WorkerAct)
  | scan (a : ScanAct)
  | cancel (k : Nat) (a : CancelAct)
  | inline (a : InlineAct)

def Shared.liveLease (s : Shared) : Bool := s.db.lease.any (fun l => !l.isExpired s.clock)

def claims (w w' : Worker) : Bool := !w.phase.pastClaim && w'.phase.pastClaim

def step (cfg : Settings) (s : World) (a : Act) : Option World :=
  match a with
  | .tick seconds => some { s with shared := { s.shared with clock := s.shared.clock + seconds } }
  | .enqueue => some { s with shared := { s.shared with queue := s.shared.queue.enqueue s.shared.liveLease } }
  | .reclaim d reclaimer ok =>
    (s.shared.queue.reclaim d reclaimer s.shared.clock cfg.claimIdle ok).map
      (fun q => { s with shared := { s.shared with queue := q } })
  | .worker me wa =>
    (workerStep cfg me s.shared (s.workers me) wa).map (fun (sh, w) =>
      { s with shared := sh
               workers := Function.update s.workers me w
               lastClaim := if claims (s.workers me) w then some me else s.lastClaim })
  | .scan sa => (scanStep cfg s.shared s.scanner sa).map (fun (sh, r) => { s with shared := sh, scanner := r })
  | .cancel k ca =>
    (cancelStep s.shared (s.cancels k) ca).map (fun (sh, c) =>
      { s with shared := sh, cancels := Function.update s.cancels k c })
  | .inline ia => (inlineStep s.shared s.inline ia).map (fun (sh, t) => { s with shared := sh, inline := t })

def World.durable : World := { shared := { db := { run := some {} } } }

def World.streamed : World := {}

inductive World.Initial : World → Prop
  | durable : World.Initial World.durable
  | streamed : World.Initial World.streamed

def World.status (s : World) : Option RunStatus := s.shared.db.status

end Run
end MyGpt
