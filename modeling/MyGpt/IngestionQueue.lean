import MyGpt.Lib.Trace
import Mathlib.Algebra.Group.Int.Defs
import Mathlib.Data.Option.Basic
/-!
# IngestionQueue — the document row as a job

`services/ingestion_queue.py`: the row of a document is its job, and every operation of the queue is one conditional
UPDATE of it; `document_service.index_document` writes its progress under the claim version.  `step` is one such write,
or one read of `finish`, by any of the workers.
-/
namespace MyGpt
namespace Ingest

/-! ## the row -/

inductive DocStatus
  | pending | parsing | chunking | embedding | indexed | failed
  deriving DecidableEq

def claimableStatuses : List DocStatus := [.pending, .parsing, .chunking, .embedding]

structure Settings where
  leaseTtl : Int := 300
  maxAttempts : Int := 4
  backoffBase : Int := 30

/-! The floors of `_knobs`. -/

def Settings.ttl (cfg : Settings) : Int := max 1 cfg.leaseTtl
def Settings.attemptCap (cfg : Settings) : Int := max 1 cfg.maxAttempts
def Settings.backoff (cfg : Settings) : Int := max 1 cfg.backoffBase

structure Document where
  status : DocStatus := .pending
  errorMessage : Option String := none
  attempts : Nat := 0
  nextRetryAt : Option Int := none
  leaseExpiresAt : Option Int := none
  claimedBy : Option String := none
  claimVersion : Nat := 0
  deriving DecidableEq

def updateWhere (row : Option Document) (cond : Document → Bool) (set : Document → Document) : Option Document × Bool :=
  match row with
  | some d => if cond d then (some (set d), true) else (some d, false)
  | none => (none, false)

def freeLease (now : Int) (d : Document) : Bool := d.leaseExpiresAt.all (· ≤ now)

def claimable (now : Int) (d : Document) : Bool :=
  claimableStatuses.contains d.status && freeLease now d && d.nextRetryAt.all (· ≤ now)

/-! ## the operations -/

/-- The values of `enqueue`: the version is not touched. -/
def Document.queued (d : Document) (resetAttempts : Bool) : Document :=
  { d with
    status := .pending, errorMessage := none, nextRetryAt := none, leaseExpiresAt := none, claimedBy := none
    attempts := if resetAttempts then 0 else d.attempts }

def enqueue (row : Option Document) (now : Int) (resetAttempts : Bool) : Option Document × Bool :=
  updateWhere row (freeLease now) (·.queued resetAttempts)

/-- The values of `claim_job`. -/
def Document.claimed (d : Document) (workerId : String) (expiresAt : Int) : Document :=
  { d with
    status := .parsing, leaseExpiresAt := some expiresAt, claimedBy := some workerId
    attempts := d.attempts + 1, claimVersion := d.claimVersion + 1 }

/-- The UPDATE of `claim_job`; the lease counts from when the call `began`. -/
def claimJob (cfg : Settings) (row : Option Document) (workerId : String) (began now : Int) :
    Option Document × Option Nat :=
  let (row', matched) := updateWhere row (claimable now) (·.claimed workerId (began + cfg.ttl))
  (row', if matched then row'.map (·.claimVersion) else none)

def renew (cfg : Settings) (row : Option Document) (workerId : String) (claimVersion : Option Nat) (now : Int) :
    Option Document × Bool :=
  updateWhere row
    (fun d => d.claimedBy == some workerId && d.leaseExpiresAt.any (now < ·) && claimVersion.all (d.claimVersion == ·))
    (fun d => { d with leaseExpiresAt := some (now + cfg.ttl) })

structure IngestionOutcome where
  ok : Bool
  error : Option String := none
  retryable : Bool := true
  deriving DecidableEq

inductive Verdict
  | done | retry | failed | lost | gone
  deriving DecidableEq

/-- The SELECT of `finish`: the attempts it read, or its verdict. -/
def finishRead (row : Option Document) (workerId : String) (claimVersion : Option Nat) : Except Verdict Nat :=
  match row with
  | none => .error .gone
  | some d =>
    match claimVersion with
    | some v => if d.claimVersion ≠ v then .error .lost else .ok d.attempts
    | none => if d.claimedBy ≠ some workerId then .error .lost else .ok d.attempts

def backoffCapSeconds : Int := 1800

def backoffSeconds (attempts : Nat) (baseSeconds : Int) : Int :=
  if attempts < 1 then baseSeconds else min (baseSeconds * 2 ^ (attempts - 1)) backoffCapSeconds

/-- `(outcome.error or "摄取失败")[:500]` -/
def IngestionOutcome.message (outcome : IngestionOutcome) : String :=
  String.ofList (((outcome.error.filter (· ≠ "")).getD "摄取失败").toList.take 500)

/-- What `finish` writes, from the attempts it read. -/
def finishValues (cfg : Settings) (attempts : Nat) (outcome : IngestionOutcome) (now : Int) (d : Document) : Document :=
  let released := { d with leaseExpiresAt := none, claimedBy := none }
  if outcome.ok then { released with nextRetryAt := none }
  else if outcome.retryable ∧ (attempts : Int) < cfg.attemptCap then
    { released with
      status := .pending, errorMessage := some outcome.message
      nextRetryAt := some (now + backoffSeconds attempts cfg.backoff) }
  else { released with status := .failed, errorMessage := some outcome.message, nextRetryAt := none }

def finishWrite (cfg : Settings) (row : Option Document) (workerId : String) (claimVersion : Option Nat) (attempts : Nat)
    (outcome : IngestionOutcome) (now : Int) : Option Document × Verdict :=
  let (row', matched) := updateWhere row
    (fun d => match claimVersion with
      | some v => d.claimVersion == v
      | none => d.claimedBy == some workerId)
    (finishValues cfg attempts outcome now)
  (row',
    if !matched then .lost
    else if outcome.ok then .done
    else if outcome.retryable ∧ (attempts : Int) < cfg.attemptCap then .retry
    else .failed)

/-- `_write_progress` under a claim version. -/
def writeProgress (row : Option Document) (claimVersion : Nat) (set : Document → Document) : Option Document × Bool :=
  updateWhere row (·.claimVersion == claimVersion) set

/-! ## the workers -/

/-- What `index_document` writes next. -/
inductive Stage
  | parsing | chunking | embedding | indexed
  deriving DecidableEq

def Stage.write : Stage → Document → Document
  | .parsing, d => { d with status := .parsing, errorMessage := none }
  | .chunking, d => { d with status := .chunking }
  | .embedding, d => { d with status := .embedding }
  | .indexed, d => { d with status := .indexed, errorMessage := none }

inductive WorkerState
  | idle
  | running (version : Nat) (next : Stage)
  | executed (version : Nat) (outcome : IngestionOutcome)
  /-- `finish` has read the row. -/
  | finishing (version : Nat) (attempts : Nat) (outcome : IngestionOutcome)
  deriving DecidableEq

def WorkerState.version : WorkerState → Option Nat
  | .idle => none
  | .running v _ => some v
  | .executed v _ => some v
  | .finishing v _ _ => some v

def Stage.wrote (version : Nat) : Stage → WorkerState
  | .parsing => .running version .chunking
  | .chunking => .running version .embedding
  | .embedding => .running version .indexed
  | .indexed => .executed version { ok := true }

structure Claim where
  owner : String
  version : Nat
  deriving DecidableEq

structure Queue where
  row : Option Document
  workers : Nat → WorkerState
  taken : List Claim
  claims : Nat

def Queue.setWorker (s : Queue) (w : Nat) (state : WorkerState) : Queue :=
  { s with workers := Function.update s.workers w state }

inductive Act
  | enqueue (now : Int) (resetAttempts : Bool)
  | claim (w : Nat) (began now : Int)
  | renew (w : Nat) (now : Int)
  | advance (w : Nat)
  | fails (w : Nat) (error : String) (retryable : Bool)
  | returns (w : Nat) (error : String) (retryable : Bool)
  | finishRead (w : Nat)
  | finishWrite (w : Nat) (now : Int)
  | crash (w : Nat)
  | delete

def claimLost : IngestionOutcome := { ok := false, error := some "本次领取已被其他 worker 接管", retryable := false }

/-- One step of the queue; `name w` is the worker id of process `w`, and processes may share one. -/
def step (cfg : Settings) (name : Nat → String) (s : Queue) : Act → Option Queue
  | .enqueue now resetAttempts =>
    let (row, queued) := enqueue s.row now resetAttempts
    some { s with row := row, claims := if queued && resetAttempts then 0 else s.claims }
  | .claim w began now =>
    match s.workers w with
    | .idle =>
      match claimJob cfg s.row (name w) began now with
      | (row, some v) =>
        some { ({ s with row := row } : Queue).setWorker w (.running v .parsing) with
          taken := ⟨name w, v⟩ :: s.taken, claims := s.claims + 1 }
      | (_, none) => some s
    | _ => none
  | .renew w now =>
    (s.workers w).version.map (fun v => { s with row := (renew cfg s.row (name w) (some v) now).1 })
  | .advance w =>
    match s.workers w with
    | .running v next =>
      match writeProgress s.row v next.write with
      | (row, true) => some (({ s with row := row } : Queue).setWorker w (next.wrote v))
      | (_, false) => some (s.setWorker w (.executed v claimLost))
    | _ => none
  | .fails w error retryable =>
    match s.workers w with
    | .running v _ =>
      match writeProgress s.row v (fun d =>
        { d with status := .failed, errorMessage := some (String.ofList (error.toList.take 500)) }) with
      | (row, true) =>
        some (({ s with row := row } : Queue).setWorker w (.executed v ⟨false, some error, retryable⟩))
      | (_, false) => some (s.setWorker w (.executed v ⟨false, some error, false⟩))
    | _ => none
  | .returns w error retryable =>
    match s.workers w with
    | .running v _ => some (s.setWorker w (.executed v ⟨false, some error, retryable⟩))
    | _ => none
  | .finishRead w =>
    match s.workers w with
    | .executed v outcome =>
      match finishRead s.row (name w) (some v) with
      | .ok attempts => some (s.setWorker w (.finishing v attempts outcome))
      | .error _ => some (s.setWorker w .idle)
    | _ => none
  | .finishWrite w now =>
    match s.workers w with
    | .finishing v attempts outcome =>
      some (({ s with row := (finishWrite cfg s.row (name w) (some v) attempts outcome now).1 } : Queue).setWorker w .idle)
    | _ => none
  | .crash w => some (s.setWorker w .idle)
  | .delete => some { s with row := none }

def Queue.start (status : DocStatus) : Queue := ⟨some { status := status }, fun _ => .idle, [], 0⟩

def Queue.claimOf (name : Nat → String) (s : Queue) (w : Nat) : Option Claim :=
  (s.workers w).version.map (fun v => ⟨name w, v⟩)

/-! ## what a step does -/

theorem updateWhere_cases (row : Option Document) (cond : Document → Bool) (set : Document → Document) :
    updateWhere row cond set = (row, false) ∨
      ∃ d, row = some d ∧ cond d = true ∧ updateWhere row cond set = (some (set d), true) := by
  unfold updateWhere
  cases row with
  | none => exact .inl rfl
  | some d =>
    dsimp only
    by_cases hcond : cond d = true
    · rw [if_pos hcond]
      exact .inr ⟨d, rfl, hcond, rfl⟩
    · rw [if_neg hcond]
      exact .inl rfl

def WorkerState.succeeded : WorkerState → Option Nat
  | .executed v outcome => if outcome.ok then some v else none
  | .finishing v _ outcome => if outcome.ok then some v else none
  | _ => none

/-- The attempts `finish` read under this version. -/
def WorkerState.readAttempts (v : Nat) : WorkerState → Option Nat
  | .finishing u attempts _ => if u = v then some attempts else none
  | _ => none

structure Document.SameJob (d d' : Document) : Prop where
  attempts : d'.attempts = d.attempts
  claimedBy : d'.claimedBy = d.claimedBy
  version : d'.claimVersion = d.claimVersion

/-- **What a step does**: the row of the document and the state of one worker, each by one of the queue's operations. -/
inductive Move (cfg : Settings) (name : Nat → String) (s : Queue) : Act → Queue → Prop
  | same {act : Act} : Move cfg name s act s
  | queued {now : Int} {resetAttempts : Bool} {d : Document} : s.row = some d → freeLease now d = true →
      Move cfg name s (.enqueue now resetAttempts)
        { s with row := some (d.queued resetAttempts), claims := if resetAttempts then 0 else s.claims }
  | claimed {w : Nat} {began now : Int} {d : Document} : s.workers w = .idle → s.row = some d → claimable now d = true →
      Move cfg name s (.claim w began now)
        { row := some (d.claimed (name w) (began + cfg.ttl))
          workers := Function.update s.workers w (.running (d.claimVersion + 1) .parsing)
          taken := ⟨name w, d.claimVersion + 1⟩ :: s.taken, claims := s.claims + 1 }
  | renewed {w : Nat} {now : Int} {d : Document} : (s.workers w).version = some d.claimVersion → s.row = some d →
      d.claimedBy = some (name w) →
      Move cfg name s (.renew w now) { s with row := some { d with leaseExpiresAt := some (now + cfg.ttl) } }
  | progress {act : Act} {w : Nat} {d d' : Document} {state : WorkerState} :
      (s.workers w).version = some d.claimVersion → s.row = some d → d.SameJob d' →
      state.version = some d.claimVersion → state.readAttempts d.claimVersion = none →
      (state.succeeded = some d.claimVersion → d'.status = .indexed) →
      Move cfg name s act (({ s with row := some d' } : Queue).setWorker w state)
  | worker {act : Act} {w : Nat} {state : WorkerState} :
      (∀ v, state.version = some v → (s.workers w).version = some v) →
      (∀ v, state.succeeded = some v → (s.workers w).succeeded = some v) →
      (∀ d, s.row = some d → ∀ n, state.readAttempts d.claimVersion = some n → n = d.attempts) →
      Move cfg name s act (s.setWorker w state)
  | finished {w : Nat} {now : Int} {d : Document} {attempts : Nat} {outcome : IngestionOutcome} :
      s.workers w = .finishing d.claimVersion attempts outcome → s.row = some d →
      Move cfg name s (.finishWrite w now)
        (({ s with row := some (finishValues cfg attempts outcome now d) } : Queue).setWorker w .idle)
  | deleted : Move cfg name s .delete { s with row := none }

theorem writeProgress_cases (row : Option Document) (v : Nat) (set : Document → Document) :
    writeProgress row v set = (row, false) ∨
      ∃ d, row = some d ∧ d.claimVersion = v ∧ writeProgress row v set = (some (set d), true) := by
  rcases updateWhere_cases row (·.claimVersion == v) set with hsame | ⟨d, hd, hcond, hnew⟩
  · exact .inl hsame
  · exact .inr ⟨d, hd, beq_iff_eq.1 hcond, hnew⟩

theorem stage_sameJob (stage : Stage) (d : Document) : d.SameJob (stage.write d) := by
  cases stage <;> exact ⟨rfl, rfl, rfl⟩

theorem Move.goesIdle {cfg : Settings} {name : Nat → String} {s : Queue} {act : Act} {w : Nat} :
    Move cfg name s act (s.setWorker w .idle) := by
  refine .worker (fun v hv => ?_) (fun v hv => ?_) (fun d _ n hn => ?_)
  · cases hv
  · cases hv
  · cases hn

theorem stage_wrote (stage : Stage) (v : Nat) (d : Document) :
    (stage.wrote v).version = some v ∧ (stage.wrote v).readAttempts v = none ∧
      ((stage.wrote v).succeeded = some v → (stage.write d).status = .indexed) := by
  cases stage <;> exact ⟨rfl, rfl, fun h => by first | rfl | cases h⟩

theorem enqueue_cases (row : Option Document) (now : Int) (resetAttempts : Bool) :
    enqueue row now resetAttempts = (row, false) ∨
      ∃ d, row = some d ∧ freeLease now d = true ∧ enqueue row now resetAttempts = (some (d.queued resetAttempts), true) :=
  updateWhere_cases row (freeLease now) (·.queued resetAttempts)

theorem claimJob_cases (cfg : Settings) (row : Option Document) (workerId : String) (began now : Int) :
    claimJob cfg row workerId began now = (row, none) ∨ ∃ d, row = some d ∧ claimable now d = true ∧
      claimJob cfg row workerId began now = (some (d.claimed workerId (began + cfg.ttl)), some (d.claimVersion + 1)) := by
  unfold claimJob
  rcases updateWhere_cases row (claimable now) (·.claimed workerId (began + cfg.ttl)) with hsame | ⟨d, hd, hfree, hnew⟩
  · rw [hsame]
    exact .inl rfl
  · rw [hnew]
    exact .inr ⟨d, hd, hfree, rfl⟩

theorem renew_cases (cfg : Settings) (row : Option Document) (workerId : String) (v : Nat) (now : Int) :
    renew cfg row workerId (some v) now = (row, false) ∨
      ∃ d, row = some d ∧ d.claimVersion = v ∧ d.claimedBy = some workerId ∧
        renew cfg row workerId (some v) now = (some { d with leaseExpiresAt := some (now + cfg.ttl) }, true) := by
  rcases updateWhere_cases row (fun d => d.claimedBy == some workerId && d.leaseExpiresAt.any (now < ·) &&
      (some v).all (d.claimVersion == ·)) (fun d => { d with leaseExpiresAt := some (now + cfg.ttl) })
    with hsame | ⟨d, hd, hcond, hnew⟩
  · exact .inl hsame
  · simp only [Bool.and_eq_true, beq_iff_eq, Option.all_some] at hcond
    exact .inr ⟨d, hd, hcond.2, hcond.1.1, hnew⟩

theorem finishWrite_cases (cfg : Settings) (row : Option Document) (workerId : String) (v attempts : Nat)
    (outcome : IngestionOutcome) (now : Int) :
    (finishWrite cfg row workerId (some v) attempts outcome now).1 = row ∨
      ∃ d, row = some d ∧ d.claimVersion = v ∧
        (finishWrite cfg row workerId (some v) attempts outcome now).1 = some (finishValues cfg attempts outcome now d) := by
  unfold finishWrite
  rcases updateWhere_cases row (·.claimVersion == v) (finishValues cfg attempts outcome now)
    with hsame | ⟨d, hd, hcond, hnew⟩
  · rw [hsame]
    exact .inl rfl
  · rw [hnew]
    exact .inr ⟨d, hd, beq_iff_eq.1 hcond, rfl⟩

theorem step_move {cfg : Settings} {name : Nat → String} {s s' : Queue} {act : Act}
    (h : step cfg name s act = some s') : Move cfg name s act s' := by
  cases act with
  | enqueue now resetAttempts =>
    simp only [step] at h
    rcases enqueue_cases s.row now resetAttempts with hsame | ⟨d, hd, hfree, hnew⟩
    · rw [hsame] at h
      cases h
      exact .same
    · rw [hnew] at h
      cases h
      exact .queued hd hfree
  | claim w began now =>
    simp only [step] at h
    cases hw : s.workers w with
    | idle =>
      simp only [hw] at h
      rcases claimJob_cases cfg s.row (name w) began now with hsame | ⟨d, hd, hfree, hnew⟩
      · rw [hsame] at h
        cases h
        exact .same
      · rw [hnew] at h
        cases h
        exact .claimed hw hd hfree
    | _ => simp [hw] at h
  | renew w now =>
    obtain ⟨v, hv, rfl⟩ := Option.map_eq_some_iff.1 h
    rcases renew_cases cfg s.row (name w) v now with hsame | ⟨d, hd, rfl, howner, hnew⟩
    · rw [hsame]
      exact .same
    · rw [hnew]
      exact .renewed hv hd howner
  | advance w =>
    simp only [step] at h
    split at h
    · rename_i v next hw
      rcases writeProgress_cases s.row v next.write with hlost | ⟨d, hd, rfl, hwrote⟩
      · rw [hlost] at h
        cases h
        exact .worker (fun u hu => by rw [hw]; exact hu) (fun u hu => by cases hu) (fun d hd n hn => by cases hn)
      · rw [hwrote] at h
        cases h
        obtain ⟨hversion, hread, hsucceeded⟩ := stage_wrote next d.claimVersion d
        exact .progress (by rw [hw]; rfl) hd (stage_sameJob next d) hversion hread hsucceeded
    · cases h
  | fails w error retryable =>
    simp only [step] at h
    split at h
    · rename_i v _ hw
      rcases writeProgress_cases s.row v (fun d =>
          { d with status := .failed, errorMessage := some (String.ofList (error.toList.take 500)) })
        with hlost | ⟨d, hd, rfl, hwrote⟩
      · rw [hlost] at h
        cases h
        exact .worker (fun u hu => by rw [hw]; exact hu) (fun u hu => by cases hu) (fun d hd n hn => by cases hn)
      · rw [hwrote] at h
        cases h
        exact .progress (by rw [hw]; rfl) hd ⟨rfl, rfl, rfl⟩ rfl rfl (fun hsucceeded => by cases hsucceeded)
    · cases h
  | returns w error retryable =>
    simp only [step] at h
    split at h
    · rename_i v _ hw
      cases h
      exact .worker (fun u hu => by rw [hw]; exact hu) (fun u hu => by cases hu) (fun d hd n hn => by cases hn)
    · cases h
  | finishRead w =>
    simp only [step] at h
    split at h
    · rename_i v outcome hw
      split at h
      · rename_i attempts hread
        cases h
        refine .worker (fun u hu => by rw [hw]; exact hu) (fun u hu => by rw [hw]; exact hu) (fun d hd n hn => ?_)
        have hattempts : n = attempts := by
          simp only [WorkerState.readAttempts] at hn
          split at hn
          · exact (Option.some.inj hn).symm
          · cases hn
        rw [hd] at hread
        simp only [finishRead] at hread
        split at hread
        · cases hread
        · rw [hattempts]
          exact (Except.ok.inj hread).symm
      · cases h
        exact .goesIdle
    · cases h
  | finishWrite w now =>
    simp only [step] at h
    split at h
    · rename_i v attempts outcome hw
      cases h
      rcases finishWrite_cases cfg s.row (name w) v attempts outcome now with hsame | ⟨d, hd, rfl, hnew⟩
      · rw [hsame]
        exact .goesIdle
      · rw [hnew]
        exact .finished hw hd
    · cases h
  | crash w =>
    cases h
    exact .goesIdle
  | delete =>
    cases h
    exact .deleted


end Ingest
end MyGpt
