import MyGpt.Lib.Trace
/-!
# RedisStream — the run queue of all processes on one Redis stream

`RedisStreamQueue` with each Redis command a step of its own, so that other processes can act between any two of them.  The
entries are numbered in the order of their `XADD`: `log` is the runs of all entries ever added, the stream holds the entries
from `trimmed` on, and the consumer group has been given those before `delivered`.
-/
namespace MyGpt
namespace RedisQueue

abbrev RunId := Nat

abbrev Owner := Nat

structure Settings where
  /-- `RUN_STREAM_MAXLEN` -/
  streamMaxlen : Int := 100000
  /-- `RUN_STREAM_CLAIM_IDLE_SECONDS` -/
  claimIdleSeconds : Int := 120
  /-- `RUN_STREAM_PENDING_SCAN` -/
  pendingScan : Int := 1000
  /-- From Redis 7 on `XAUTOCLAIM` itself drops an entry whose body is gone. -/
  dropsDeleted : Bool := true

def Settings.maxlen (cfg : Settings) : Nat := (max cfg.streamMaxlen 1000).toNat

def Settings.claimIdle (cfg : Settings) : Nat := (max cfg.claimIdleSeconds 1).toNat

def Settings.scan (cfg : Settings) : Nat := (max cfg.pendingScan 1).toNat

/-! ## the commands -/

structure Delivery where
  id : Nat
  consumer : Owner
  since : Nat
  deriving DecidableEq

structure Stream where
  log : List RunId := []
  trimmed : Nat := 0
  group : Bool := false
  delivered : Nat := 0
  pel : List Delivery := []
  deriving DecidableEq

def Stream.body (q : Stream) (id : Nat) : Option RunId := if q.trimmed ≤ id then q.log[id]? else none

def Stream.pelIds (q : Stream) : List Nat := q.pel.map (·.id)

/-- `XADD` with `MAXLEN ~`: the oldest entries go, as many as Redis likes, but never below the maximum. -/
def Stream.xadd (q : Stream) (maxlen : Nat) (run : RunId) (trim : Nat) : Stream :=
  { q with log := q.log ++ [run], trimmed := q.trimmed + min trim (q.log.length + 1 - q.trimmed - maxlen) }

/-- `XPENDING`, in ascending order; without the group it fails. -/
def Stream.xpendingRange (q : Stream) (count : Nat) : List Nat := if q.group then q.pelIds.take count else []

def Stream.xrange (q : Stream) (first last : Nat) : List (Nat × RunId) :=
  (List.range q.log.length).filterMap (fun id => if first ≤ id ∧ id ≤ last then (q.body id).map (fun run => (id, run)) else none)

/-- `XREADGROUP … >`: the oldest entry that no consumer has been given. -/
def Stream.xreadgroup (q : Stream) (owner : Owner) (now : Nat) : Stream :=
  let id := max q.delivered q.trimmed
  if q.group = true ∧ id < q.log.length then { q with delivered := id + 1, pel := q.pel ++ [⟨id, owner, now⟩] } else q

def Stream.xack (q : Stream) (ids : List Nat) : Stream := { q with pel := q.pel.filter (fun d => !ids.contains d.id) }

/-- The entries that `XAUTOCLAIM` hands over: idle, of the first `10 * count`. -/
def Stream.claimable (cfg : Settings) (q : Stream) (now count : Nat) : List Delivery :=
  ((q.pel.take (10 * count)).filter (fun d =>
    decide (d.since + cfg.claimIdle ≤ now) && ((q.body d.id).isSome || !cfg.dropsDeleted))).take count

/-- `XAUTOCLAIM`: what it hands over, with the bodies. -/
def Stream.xautoclaim (cfg : Settings) (q : Stream) (owner : Owner) (now count : Nat) : Stream × List (Nat × Option RunId) :=
  let claimed := q.claimable cfg now count
  let kept := q.pel.filter (fun d => !(cfg.dropsDeleted && (q.pel.take (10 * count)).contains d && (q.body d.id).isNone))
  ({ q with pel := kept.map (fun d => if claimed.contains d then ⟨d.id, owner, now⟩ else d) },
    claimed.map (fun d => (d.id, q.body d.id)))

/-! ## the coroutines -/

/-- What `_pending_entries` is read for. -/
inductive Use
  | enqueue (run : RunId)
  | ack (run : RunId)
  deriving DecidableEq

inductive Await
  /-- `xgroup_create` in `_ensure_group`, and what comes after it -/
  | group (next : Await)
  /-- `xpending_range` in `_pending_entries` -/
  | pending (use : Use)
  /-- `xrange` in `_pending_entries` -/
  | range (use : Use) (pending : List Nat)
  /-- `xadd` in `enqueue` and `requeue` -/
  | add (run : RunId)
  /-- `xack` in `ack` -/
  | acknowledge (run : RunId) (matching : List Nat)
  /-- `xreadgroup` in `dequeue` -/
  | read (owner : Owner)
  /-- `xautoclaim` in `reclaim_stale`; then `xadd` and `xack` for each claimed entry, or `_drop_claim` -/
  | claim (owner : Owner) (limit : Nat)
  | readd (run : RunId) (msg : Nat) (rest : List (Nat × Option RunId))
  | confirm (run : RunId) (msg : Nat) (rest : List (Nat × Option RunId))
  | drop (msg : Nat) (rest : List (Nat × Option RunId))
  deriving DecidableEq

inductive Op
  | enqueue (run : RunId) (liveLease : Bool)
  | dequeue (owner : Owner)
  | ack (run : RunId)
  | requeue (run : RunId)
  | reclaimStale (owner : Owner) (limit : Nat)
  deriving DecidableEq

def ensureGroup (initialized : Bool) (next : Await) : Await := if initialized then next else .group next

/-- The first command of a call; `none` when it returns without one. -/
def Op.start (initialized : Bool) : Op → Option Await
  | .enqueue _ true => none
  | .enqueue run false => some (ensureGroup initialized (.pending (.enqueue run)))
  | .dequeue owner => some (ensureGroup initialized (.read owner))
  | .ack run => some (ensureGroup initialized (.pending (.ack run)))
  | .requeue run => some (.add run)
  | .reclaimStale owner limit => some (ensureGroup initialized (.claim owner limit))

/-- What becomes of a command: it succeeds, it fails, or it takes effect and its reply is lost. -/
inductive Fault
  | none | failed | lost
  deriving DecidableEq

/-- `enqueue` and `ack` with the entries found. -/
def afterScan (found : List (Nat × RunId)) : Use → Option Await
  | .enqueue run => if found.any (fun e => e.2 == run) then none else some (.add run)
  | .ack run =>
    let matching := (found.filter (fun e => e.2 == run)).map (·.1)
    if matching = [] then none else some (.acknowledge run matching)

/-- The `for` loop of `reclaim_stale`. -/
def reclaimNext : List (Nat × Option RunId) → Option Await
  | [] => none
  | (msg, some run) :: rest => some (.readd run msg rest)
  | (msg, none) :: rest => some (.drop msg rest)

def Await.exec (cfg : Settings) (q : Stream) (now : Nat) (fault : Fault) (trim : Nat) : Await → Stream × Option Await
  | .group next => (if fault = .failed then q else { q with group := true }, some next)
  | .pending use =>
    let ids := if fault = .none then q.xpendingRange cfg.scan else []
    (q, if ids = [] then afterScan [] use else some (.range use ids))
  | .range use ids =>
    let rows := if fault = .none then q.xrange (ids.headD 0) (ids.getLastD 0) else []
    (q, afterScan (rows.filter (fun e => ids.contains e.1)) use)
  | .add run => (if fault = .failed then q else q.xadd cfg.maxlen run trim, none)
  | .acknowledge _ matching => (if fault = .failed then q else q.xack matching, none)
  | .read owner => (if fault = .failed then q else q.xreadgroup owner now, none)
  | .claim owner limit =>
    let claimed := q.xautoclaim cfg owner now limit
    (if fault = .failed then q else claimed.1, if fault = .none then reclaimNext claimed.2 else none)
  | .readd run msg rest =>
    (if fault = .failed then q else q.xadd cfg.maxlen run trim,
      if fault = .none then some (.confirm run msg rest) else reclaimNext rest)
  | .confirm _ msg rest => (if fault = .failed then q else q.xack [msg], reclaimNext rest)
  | .drop msg rest => (if fault = .failed then q else q.xack [msg], reclaimNext rest)

def Op.submits : Op → Option RunId
  | .enqueue run _ => some run
  | .requeue run => some run
  | _ => none

def Await.submits : Await → Option RunId
  | .group next => next.submits
  | .pending (.enqueue run) => some run
  | .range (.enqueue run) _ => some run
  | .add run => some run
  | _ => none

/-! ## the system -/

/-- A call: the command it awaits, `none` when it is over; how many acknowledgements there were when it began. -/
structure Call where
  await : Option Await
  since : Nat
  deriving DecidableEq

/-- The stream and all calls.  `acks` are the runs of the `XACK`s of `ack`, `promises` the submissions that have returned. -/
structure World where
  stream : Stream := {}
  now : Nat := 0
  calls : List Call := []
  acks : List RunId := []
  promises : List (RunId × Nat) := []
  deriving DecidableEq

inductive Action
  | begin (op : Op) (initialized : Bool)
  | resume (i : Nat) (fault : Fault) (trim : Nat)
  | crash (i : Nat)
  | wait
  deriving DecidableEq

/-- The run that a command acknowledges for `ack`. -/
def Await.acks (q : Stream) (fault : Fault) : Await → List RunId
  | .acknowledge run matching => if fault ≠ .failed ∧ matching.any (q.pelIds.contains ·) then [run] else []
  | _ => []

def promise (submits : Option RunId) (since : Nat) (next : Option Await) : List (RunId × Nat) :=
  if next.isNone then submits.toList.map (fun run => (run, since)) else []

def step (cfg : Settings) (w : World) : Action → Option World
  | .begin op initialized =>
    let next := op.start initialized
    let since := w.acks.length
    some { w with calls := w.calls ++ [⟨next, since⟩], promises := w.promises ++ promise op.submits since next }
  | .resume i fault trim =>
    match w.calls[i]? with
    | some ⟨some await, since⟩ =>
      let (stream, next) := await.exec cfg w.stream w.now fault trim
      some { w with
        stream := stream
        calls := w.calls.set i ⟨next, since⟩
        acks := w.acks ++ await.acks w.stream fault
        promises := w.promises ++ promise await.submits since next }
    | _ => none
  | .crash i =>
    match w.calls[i]? with
    | some c => some { w with calls := w.calls.set i { c with await := none } }
    | none => none
  | .wait => some { w with now := w.now + 1 }

end RedisQueue
end MyGpt
