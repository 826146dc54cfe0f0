import MyGpt.Lib.Trace
import Mathlib.Logic.Function.Basic
/-!
# ApprovalWait — a tool call that waits for a human decision

The decision is a database row, the wake-up is an in-process `WaitingRun` with a Redis broadcast, and the runtime, the
endpoints and the broadcast set them one after the other.  Every step between two awaits is one step here, so a decision
can fall before the waiter is registered, after the wait, or beside another decision.  What users are told, what the
runtime observes and what it executes agree in every run in which no step meets a decision it does not look at
(`decisions_agree`).
-/
namespace MyGpt
namespace Approval

/-! ## the row, the waiter and the requests -/

inductive Status
  | pending | approved | rejected
  deriving DecidableEq

structure ToolApproval where
  status : Status
  reason : String
  expiresAt : Nat
  deriving DecidableEq

inductive Decision
  | pending | approved | rejected | cancelled | timedOut
  deriving DecidableEq

structure WaitingRun where
  decision : Decision
  reason : String
  event : Bool
  deriving DecidableEq

inductive Kind
  | approve
  | reject (reason : String)
  deriving DecidableEq

def Kind.status : Kind → Status
  | .approve => .approved
  | .reject _ => .rejected

/-- `body.reason or "rejected by user"`. -/
def orRejected (reason : String) : String := if reason = "" then "rejected by user" else reason

def Kind.recorded : Kind → Kind
  | .approve => .approve
  | .reject reason => .reject (orRejected reason)

def WaitingRun.approve (wr : WaitingRun) : WaitingRun :=
  if wr.decision ≠ .pending then wr else { wr with decision := .approved, event := true }

def WaitingRun.reject (wr : WaitingRun) (reason : String) : WaitingRun :=
  if wr.decision ≠ .pending then wr
  else { wr with decision := .rejected, reason := orRejected reason, event := true }

/-- `ApprovalCoordinator.cancel_run`. -/
def WaitingRun.cancel (wr : WaitingRun) : WaitingRun :=
  if wr.decision ≠ .pending then wr else { wr with decision := .cancelled, event := true }

/-- `_signal_local`: nothing where nobody waits. -/
def signalLocal (waiter : Option WaitingRun) : Kind → Option WaitingRun
  | .approve => waiter.map WaitingRun.approve
  | .reject reason => waiter.map (fun wr => wr.reject reason)

inductive Answer
  | notFound
  | alreadyDecided (status : Status)
  | ok (kind : Kind)
  | error
  deriving DecidableEq

/-- `approve_run` and `reject_run`, from one await to the next. -/
inductive Request
  | idle
  | loaded (kind : Kind)
  | committed (kind : Kind)
  | signalled (kind : Kind)
  | published (kind : Kind)
  | answered (answer : Answer)
  deriving DecidableEq

inductive Outcome
  | ran | refused (reason : String) | timedOut | budget | denied | cancelled | unwound
  deriving DecidableEq

inductive Phase
  | start
  | created
  | announced
  | shown
  | waiting (since : Nat)
  | ended (wr : WaitingRun)
  | resumed
  | finished (outcome : Outcome)
  deriving DecidableEq

/-- One approval: the runtime that asks for it, its row, its waiter, its requests and the messages on the bus.  The last two
fields record what users have been told, and what they had been told when the wait ended. -/
structure World where
  clock : Nat
  phase : Phase
  uncommitted : Option ToolApproval
  row : Option ToolApproval
  waiter : Option WaitingRun
  requests : Nat → Request
  inFlight : List Kind
  answered : List (Nat × Kind)
  waitEnd : Option (Option Decision × List (Nat × Kind))

def World.start (now : Nat) : World :=
  ⟨now, .start, none, none, none, fun _ => .idle, [], [], none⟩

/-- `APPROVAL_TTL`, in seconds. -/
def approvalTtl : Nat := 900

/-- `DEFAULT_WAIT_TIMEOUT`. -/
def waitTimeout : Nat := 300

def World.commit (s : World) : World :=
  match s.uncommitted with
  | none => s
  | some ap => { s with row := some ap, uncommitted := none }

/-- `_set_run_status`: it commits when the run is not over and the database takes it. -/
def World.setRunStatus (s : World) (ok : Bool) : World := if ok then s.commit else s

def World.findValidApproval (s : World) : Option ToolApproval :=
  s.row.filter (fun ap => ap.status = .approved ∧ ¬ ap.expiresAt ≤ s.clock)

def World.release (s : World) (observed : Option Decision) (phase : Phase) : World :=
  { s with phase := phase, waiter := none, waitEnd := some (observed, s.answered) }

/-! ## the runtime -/

inductive RuntimeAct
  | create (ok : Bool) | announce | setWaiting (ok : Bool) | register | wake | timeout | budget | flip (ok : Bool) | execute | unwind
  | settle (ok : Bool)
  deriving DecidableEq

/-- `ApprovalCoordinator.wait` after its event. -/
def observe (wr : WaitingRun) : WaitingRun :=
  if wr.decision = .pending then { wr with decision := .timedOut } else wr

/-- What follows the flip of the run's status back to `running`, or to `cancelled`. -/
def afterFlip (wr : WaitingRun) : Phase :=
  match wr.decision with
  | .approved => .resumed
  | .rejected => .finished (.refused (orRejected wr.reason))
  | .cancelled => .finished .cancelled
  | .pending | .timedOut => .finished .timedOut

def runtimeStep (s : World) : RuntimeAct → Option World
  | .create ok =>
    if s.phase = .start then
      -- the flush of the audit rows rolls the new row back when it fails
      some { s with phase := .created, uncommitted := if ok then some ⟨.pending, "", s.clock + approvalTtl⟩ else none }
    else none
  | .announce => if s.phase = .created then some { s with phase := .announced } else none
  | .setWaiting ok => if s.phase = .announced then some { s.setRunStatus ok with phase := .shown } else none
  | .register =>
    if s.phase = .shown then some { s with phase := .waiting s.clock, waiter := some ⟨.pending, "", false⟩ } else none
  | .wake =>
    match s.phase, s.waiter with
    | .waiting _, some wr =>
      if wr.event then some (s.release (some (observe wr).decision) (.ended (observe wr))) else none
    | _, _ => none
  | .timeout =>
    match s.phase, s.waiter with
    | .waiting since, some wr =>
      -- an event set in the same turn of the loop does not stop the timeout
      if since + waitTimeout ≤ s.clock then
        some (s.release (some .timedOut) (.ended { wr with decision := .timedOut }))
      else none
    | _, _ => none
  | .budget =>
    match s.phase with
    | .waiting _ => some (s.release none (.finished .budget))
    | .start | .created | .resumed => some { s with phase := .finished .budget }
    | _ => none
  | .flip ok =>
    match s.phase with
    | .ended wr => some { s.setRunStatus ok with phase := afterFlip wr }
    | _ => none
  | .execute =>
    if s.phase = .resumed then
      some { s with phase := .finished (if s.findValidApproval.isSome then .ran else .denied) }
    else none
  | .unwind =>
    match s.phase with
    | .waiting _ => some (s.release none (.finished .unwound))
    | .finished _ => none
    | _ => some { s with phase := .finished .unwound }
  | .settle ok =>
    match s.phase with
    | .finished _ => some (if ok then s.commit else { s with uncommitted := none })
    | _ => none

/-! ## the endpoints and the bus -/

inductive RequestAct
  | load (kind : Kind) | commit | signal | publish (ok : Bool) | answer | die
  deriving DecidableEq

def World.setRequest (s : World) (k : Nat) (r : Request) : World :=
  { s with requests := Function.update s.requests k r }

@[simp] theorem setRequest_self (s : World) (k : Nat) (r : Request) : (s.setRequest k r).requests k = r :=
  Function.update_self ..

theorem setRequest_ne (s : World) {j k : Nat} (r : Request) (h : j ≠ k) :
    (s.setRequest k r).requests j = s.requests j :=
  Function.update_of_ne h ..

/-- `ap.status = ..`, on the row as it is by then: no condition on the update. -/
def ToolApproval.decide (ap : ToolApproval) : Kind → ToolApproval
  | .approve => { ap with status := .approved }
  | .reject reason => { ap with status := .rejected, reason := reason }

def requestStep (served : Nat → Bool) (s : World) (k : Nat) : RequestAct → Option World
  | .load kind =>
    if s.requests k = .idle then
      match s.row with
      | none => some (s.setRequest k (.answered .notFound))
      | some ap =>
        if ap.status ≠ .pending then some (s.setRequest k (.answered (.alreadyDecided ap.status)))
        else some (s.setRequest k (.loaded kind))
    else none
  | .commit =>
    match s.requests k with
    | .loaded kind =>
      some { s.setRequest k (.committed kind.recorded) with row := s.row.map (fun ap => ap.decide kind.recorded) }
    | _ => none
  | .signal =>
    match s.requests k with
    | .committed kind =>
      some { s.setRequest k (.signalled kind) with
        waiter := if served k then signalLocal s.waiter kind else s.waiter }
    | _ => none
  | .publish ok =>
    match s.requests k with
    | .signalled kind =>
      some { s.setRequest k (.published kind) with inFlight := if ok then s.inFlight ++ [kind] else s.inFlight }
    | _ => none
  | .answer =>
    match s.requests k with
    | .published kind => some { s.setRequest k (.answered (.ok kind)) with answered := s.answered ++ [(k, kind)] }
    | _ => none
  | .die =>
    match s.requests k with
    | .idle | .answered _ => none
    | _ => some (s.setRequest k (.answered .error))

inductive Act
  | tick (seconds : Nat)
  | runtime (a : RuntimeAct)
  | request (k : Nat) (a : RequestAct)
  | deliver
  | lose
  | stop
  deriving DecidableEq

/-- One step of the system; `served` says which requests the runtime's own process serves. -/
def step (served : Nat → Bool) (s : World) : Act → Option World
  | .tick seconds => some { s with clock := s.clock + seconds }
  | .runtime a => runtimeStep s a
  | .request k a => requestStep served s k a
  | .deliver =>
    match s.inFlight with
    | [] => none
    | kind :: rest => some { s with inFlight := rest, waiter := signalLocal s.waiter kind }
  | .lose =>
    match s.inFlight with
    | [] => none
    | _ :: rest => some { s with inFlight := rest }
  | .stop => some { s with waiter := s.waiter.map WaitingRun.cancel }

/-! ## what must agree, and when it does -/

def World.recorded (s : World) : Option Status := s.row.map (·.status)

/-- **At most one decision is answered ok, the wait observes it, and the tool runs exactly on an approval.** -/
structure Agreed (s : World) : Prop where
  one : s.answered.length ≤ 1
  observed : ∀ d told, s.waitEnd = some (d, told) → (∃ k, (k, Kind.approve) ∈ told) → d = some .approved
  executed : ∀ o, s.phase = .finished o → (o = .ran ↔ s.recorded = some .approved)

def Phase.undecided : Phase → Bool
  | .start | .created | .announced | .shown | .waiting _ => true
  | _ => false

/-- A decision is written onto a pending row, an approval while the tool call still waits for it and no stop has been
signalled; the wait ends otherwise, and the call is given up, only without an approval on record; and the approved call is
made before the approval expires. -/
def DecisionOk (s : World) : Act → Prop
  | .request k .commit =>
    s.recorded = some .pending ∧
      (s.requests k = .loaded .approve → s.phase.undecided = true ∧ s.waiter.map (·.decision) ≠ some .cancelled)
  | .runtime .timeout | .runtime .budget | .runtime .unwind => s.recorded ≠ some .approved
  | .runtime .execute => ∀ ap, s.row = some ap → s.clock < ap.expiresAt
  | .stop => s.waiter.map (·.decision) = some .pending → s.recorded ≠ some .approved
  | _ => True

/-! ## the row backs every decision in the system -/

def Request.decided : Request → Option Kind
  | .committed kind | .signalled kind | .published kind | .answered (.ok kind) => some kind
  | _ => none

def Phase.verdict : Phase → Option Bool
  | .ended wr => some (wr.decision = .approved)
  | .resumed => some true
  | .finished o => some (o = .ran)
  | _ => none

theorem verdict_of_undecided {p : Phase} (h : p.undecided = true) : p.verdict = none := by
  cases p with
  | ended | resumed | finished => cases h
  | _ => rfl

def WaitingRun.Backed (wr : WaitingRun) (recorded : Option Status) : Prop :=
  match wr.decision with
  | .pending => wr.event = false
  | .approved => recorded = some .approved
  | .rejected => recorded = some .rejected
  | .cancelled => recorded ≠ some .approved
  | .timedOut => False

structure Consistent (s : World) : Prop where
  fresh : s.phase = .start → s.row = none ∧ s.uncommitted = none
  flushed : ∀ ap, s.uncommitted = some ap → ap.status = .pending ∧ s.row = none
  decided : ∀ k kind, (s.requests k).decided = some kind → s.recorded = some kind.status
  alone : ∀ j k a b, (s.requests j).decided = some a → (s.requests k).decided = some b → j = k
  inFlight : ∀ kind ∈ s.inFlight, s.recorded = some kind.status
  waiter : ∀ wr, s.waiter = some wr → wr.Backed s.recorded
  verdict : ∀ b, s.phase.verdict = some b → (b = true ↔ s.recorded = some .approved)
  told : ∀ e ∈ s.answered, s.requests e.1 = .answered (.ok e.2)
  one : s.answered.length ≤ 1
  observed : ∀ d told, s.waitEnd = some (d, told) → (∃ k, (k, Kind.approve) ∈ told) → d = some .approved

theorem Consistent.agreed {s : World} (hc : Consistent s) : Agreed s := by
  refine ⟨hc.one, hc.observed, fun o ho => ?_⟩
  have hv := hc.verdict (o = .ran) (by rw [ho]; rfl)
  rwa [decide_eq_true_eq] at hv

theorem consistent_start (now : Nat) : Consistent (World.start now) := by
  constructor <;> simp [World.start, Request.decided, Phase.verdict]

theorem Kind.status_ne_pending (kind : Kind) : kind.status ≠ .pending := by
  cases kind <;> simp [Kind.status]

theorem Consistent.approved_of_told {s : World} (hc : Consistent s) (h : ∃ k, (k, Kind.approve) ∈ s.answered) :
    s.recorded = some .approved := by
  obtain ⟨k, hk⟩ := h
  have hreq := hc.told _ hk
  exact hc.decided k .approve (by rw [hreq]; rfl)

theorem Consistent.quiet {s : World} (hc : Consistent s) (h : s.recorded = none ∨ s.recorded = some .pending) :
    (∀ k, (s.requests k).decided = none) ∧ s.inFlight = [] ∧ s.answered = [] := by
  have hno : ∀ kind : Kind, s.recorded ≠ some kind.status := by
    intro kind heq
    rcases h with h | h
    · rw [h] at heq
      cases heq
    · rw [h] at heq
      exact kind.status_ne_pending (Option.some.inj heq).symm
  have hreq : ∀ k, (s.requests k).decided = none := by
    intro k
    cases hd : (s.requests k).decided with
    | none => rfl
    | some kind => exact absurd (hc.decided k kind hd) (hno kind)
  refine ⟨hreq, List.eq_nil_iff_forall_not_mem.2 fun kind hk => hno kind (hc.inFlight kind hk),
    List.eq_nil_iff_forall_not_mem.2 fun e he => ?_⟩
  have hnone := hreq e.1
  rw [hc.told e he] at hnone
  cases hnone

/-! ## the runtime keeps it -/

theorem Consistent.phase {s : World} (hc : Consistent s) (p : Phase) (hstart : p ≠ .start)
    (hp : ∀ b, p.verdict = some b → (b = true ↔ s.recorded = some .approved)) : Consistent { s with phase := p } :=
  { hc with fresh := fun h => absurd h hstart, verdict := hp }

theorem Consistent.release {s : World} (hc : Consistent s) (d : Option Decision) (p : Phase) (hstart : p ≠ .start)
    (hp : ∀ b, p.verdict = some b → (b = true ↔ s.recorded = some .approved))
    (hd : s.recorded = some .approved → d = some .approved) : Consistent (s.release d p) := by
  refine { hc with fresh := fun h => absurd h hstart, waiter := ?_, verdict := hp, observed := ?_ }
  · rintro wr ⟨⟩
  · rintro d' told ⟨⟩ htold
    exact hd (hc.approved_of_told htold)

theorem WaitingRun.Backed.of_undecided {wr : WaitingRun} {r r' : Option Status} (h : wr.Backed r)
    (hr : r = none ∨ r = some .pending) (hr' : wr.decision = .cancelled → r' ≠ some .approved) : wr.Backed r' := by
  unfold WaitingRun.Backed at h ⊢
  cases hd : wr.decision with
  | pending => rwa [hd] at h
  | timedOut => rwa [hd] at h
  | approved | rejected => rw [hd] at h; rcases hr with rfl | rfl <;> cases h
  | cancelled => exact hr' hd

theorem Consistent.commit {s : World} (hc : Consistent s) : Consistent s.commit := by
  unfold World.commit
  split
  · exact hc
  · rename_i ap hu
    obtain ⟨hst, hrow⟩ := hc.flushed ap hu
    have hnone : s.recorded = none := by rw [World.recorded, hrow]; rfl
    obtain ⟨hreq, hfly, htold⟩ := hc.quiet (.inl hnone)
    refine ⟨fun h => ?_, ?_, ?_, hc.alone, ?_, ?_, ?_, hc.told, hc.one, hc.observed⟩
    · rw [(hc.fresh h).2] at hu
      cases hu
    · rintro _ ⟨⟩
    · intro k kind hk
      rw [hreq k] at hk
      cases hk
    · intro kind hk
      rw [hfly] at hk
      cases hk
    · intro wr hwr
      refine (hc.waiter wr hwr).of_undecided (.inl hnone) (fun _ => ?_)
      simp [World.recorded, hst]
    · intro b hb
      have hv := hc.verdict b hb
      rw [hnone] at hv
      simpa [World.recorded, hst] using hv

theorem Consistent.setRunStatus {s : World} (hc : Consistent s) (ok : Bool) : Consistent (s.setRunStatus ok) := by
  cases ok
  · exact hc
  · exact hc.commit

@[simp] theorem setRunStatus_phase (s : World) (ok : Bool) : (s.setRunStatus ok).phase = s.phase := by
  unfold World.setRunStatus World.commit
  split
  · split <;> rfl
  · rfl

theorem afterFlip_verdict (wr : WaitingRun) : (afterFlip wr).verdict = (Phase.ended wr).verdict := by
  unfold afterFlip
  cases h : wr.decision <;> simp [Phase.verdict, h]

theorem observe_backed {wr : WaitingRun} {r : Option Status} (h : wr.Backed r) (he : wr.event = true) :
    (observe wr).decision = .approved ↔ r = some .approved := by
  unfold WaitingRun.Backed at h
  unfold observe
  cases hd : wr.decision with
  | pending => rw [hd] at h; rw [h] at he; cases he
  | approved | cancelled => rw [hd] at h; simpa [hd] using h
  | rejected => rw [hd] at h; simp [hd, h]
  | timedOut => rw [hd] at h; exact h.elim

theorem runtime_consistent {s s' : World} {a : RuntimeAct} (hc : Consistent s) (hok : DecisionOk s (.runtime a))
    (h : runtimeStep s a = some s') : Consistent s' := by
  have hgivenUp : s.recorded ≠ some .approved → ∀ o, o ≠ Outcome.ran → ∀ b, (Phase.finished o).verdict = some b →
      (b = true ↔ s.recorded = some .approved) := by
    rintro hrec o ho b ⟨⟩
    simp [ho, hrec]
  cases a with
  | create ok =>
    obtain ⟨hp, ⟨⟩⟩ := Option.ite_none_right_eq_some.1 h
    obtain ⟨hrow, -⟩ := hc.fresh hp
    refine { hc with fresh := nofun, flushed := ?_, verdict := nofun }
    intro ap hap
    cases ok
    · cases hap
    · cases hap
      exact ⟨rfl, hrow⟩
  | announce =>
    obtain ⟨-, ⟨⟩⟩ := Option.ite_none_right_eq_some.1 h
    exact hc.phase _ nofun nofun
  | setWaiting ok =>
    obtain ⟨-, ⟨⟩⟩ := Option.ite_none_right_eq_some.1 h
    exact (hc.setRunStatus ok).phase _ nofun nofun
  | register =>
    obtain ⟨-, ⟨⟩⟩ := Option.ite_none_right_eq_some.1 h
    refine { hc with fresh := nofun, waiter := ?_, verdict := nofun }
    rintro wr ⟨⟩
    rfl
  | wake =>
    simp only [runtimeStep] at h
    split at h
    · rename_i since wr hp hw
      obtain ⟨he, ⟨⟩⟩ := Option.ite_none_right_eq_some.1 h
      have hobs := observe_backed (hc.waiter wr hw) he
      refine hc.release _ _ nofun ?_ (fun hrec => congrArg some (hobs.2 hrec))
      rintro b ⟨⟩
      rw [decide_eq_true_eq]
      exact hobs
    · cases h
  | timeout =>
    simp only [runtimeStep] at h
    split at h
    · obtain ⟨-, ⟨⟩⟩ := Option.ite_none_right_eq_some.1 h
      refine hc.release _ _ nofun ?_ (fun hrec => absurd hrec hok)
      rintro b ⟨⟩
      exact iff_of_false nofun hok
    · cases h
  | budget =>
    simp only [runtimeStep] at h
    split at h
    · cases h
      exact hc.release _ _ nofun (hgivenUp hok _ nofun) (fun hrec => absurd hrec hok)
    · cases h
      exact hc.phase _ nofun (hgivenUp hok _ nofun)
    · cases h
      exact hc.phase _ nofun (hgivenUp hok _ nofun)
    · cases h
      exact hc.phase _ nofun (hgivenUp hok _ nofun)
    · cases h
  | flip ok =>
    simp only [runtimeStep] at h
    split at h
    · rename_i wr hp
      cases h
      have hc' := hc.setRunStatus ok
      refine hc'.phase _ ?_ (fun b hb => hc'.verdict b ?_)
      · unfold afterFlip
        split <;> nofun
      · rw [setRunStatus_phase, hp, ← afterFlip_verdict]
        exact hb
    · cases h
  | execute =>
    obtain ⟨hp, ⟨⟩⟩ := Option.ite_none_right_eq_some.1 h
    have hrec : s.recorded = some .approved := (hc.verdict true (by rw [hp]; rfl)).1 rfl
    obtain ⟨ap, hrow, hst⟩ := Option.map_eq_some_iff.1 hrec
    have hvalid : s.findValidApproval.isSome := by
      have hlive := hok ap hrow
      simp [World.findValidApproval, hrow, hst, hlive]
    refine hc.phase _ nofun ?_
    rw [if_pos hvalid]
    rintro b ⟨⟩
    simp [hrec]
  | unwind =>
    simp only [runtimeStep] at h
    split at h
    · cases h
      exact hc.release _ _ nofun (hgivenUp hok _ nofun) (fun hrec => absurd hrec hok)
    · cases h
    · cases h
      exact hc.phase _ nofun (hgivenUp hok _ nofun)
  | settle ok =>
    simp only [runtimeStep] at h
    split at h
    · rename_i o hp
      cases h
      cases ok
      · refine { hc with fresh := fun hs => ?_, flushed := nofun }
        exact ⟨(hc.fresh hs).1, rfl⟩
      · exact hc.commit
    · cases h

/-! ## the endpoints and the bus keep it -/

theorem Consistent.setRequest {s : World} (hc : Consistent s) (k : Nat) (r : Request)
    (hold : ∀ kind, s.requests k ≠ .answered (.ok kind))
    (hdec : ∀ kind, r.decided = some kind → (s.requests k).decided = some kind) : Consistent (s.setRequest k r) := by
  have hback : ∀ j kind, ((s.setRequest k r).requests j).decided = some kind → (s.requests j).decided = some kind := by
    intro j kind hj
    by_cases hjk : j = k
    · subst hjk
      refine hdec kind ?_
      rwa [setRequest_self] at hj
    · rwa [setRequest_ne s r hjk] at hj
  refine ⟨hc.fresh, hc.flushed, fun j kind hj => hc.decided j kind (hback j kind hj), fun i j a b hi hj => ?_, hc.inFlight,
    hc.waiter, hc.verdict, fun e he => ?_, hc.one, hc.observed⟩
  · exact hc.alone i j a b (hback i a hi) (hback j b hj)
  · have hne : e.1 ≠ k := by
      intro hek
      exact hold e.2 (hek ▸ hc.told e he)
    rw [setRequest_ne s r hne]
    exact hc.told e he

theorem Consistent.setWaiter {s : World} (hc : Consistent s) (w : Option WaitingRun)
    (hw : ∀ wr, w = some wr → wr.Backed s.recorded) : Consistent { s with waiter := w } :=
  { hc with waiter := hw }

theorem Consistent.setInFlight {s : World} (hc : Consistent s) (fly : List Kind)
    (hfly : ∀ kind ∈ fly, s.recorded = some kind.status) : Consistent { s with inFlight := fly } :=
  { hc with inFlight := hfly }

theorem signalLocal_backed {waiter : Option WaitingRun} {kind : Kind} {r : Option Status} (hr : r = some kind.status)
    (hw : ∀ wr, waiter = some wr → wr.Backed r) : ∀ wr, signalLocal waiter kind = some wr → wr.Backed r := by
  intro wr' hwr'
  cases kind with
  | approve =>
    obtain ⟨wr, hwr, rfl⟩ := Option.map_eq_some_iff.1 hwr'
    unfold WaitingRun.approve
    split
    · exact hw wr hwr
    · exact hr
  | reject reason =>
    obtain ⟨wr, hwr, rfl⟩ := Option.map_eq_some_iff.1 hwr'
    unfold WaitingRun.reject
    split
    · exact hw wr hwr
    · exact hr

theorem cancel_backed {waiter : Option WaitingRun} {r : Option Status}
    (hr : waiter.map (·.decision) = some .pending → r ≠ some .approved)
    (hw : ∀ wr, waiter = some wr → wr.Backed r) : ∀ wr, waiter.map WaitingRun.cancel = some wr → wr.Backed r := by
  intro wr' hwr'
  obtain ⟨wr, hwr, rfl⟩ := Option.map_eq_some_iff.1 hwr'
  unfold WaitingRun.cancel
  split
  · exact hw wr hwr
  · rename_i hp
    refine hr ?_
    rw [hwr, Option.map_some, not_not.1 hp]

theorem decide_status (ap : ToolApproval) (kind : Kind) : (ap.decide kind).status = kind.status := by
  cases kind <;> rfl

theorem commit_consistent {s : World} (hc : Consistent s) {k : Nat} {kind : Kind} (hk : s.requests k = .loaded kind)
    (hok : DecisionOk s (.request k .commit)) :
    Consistent { s.setRequest k (.committed kind.recorded) with row := s.row.map (fun ap => ap.decide kind.recorded) } := by
  obtain ⟨hrec, hopen⟩ := hok
  obtain ⟨ap, hrow, hst⟩ := Option.map_eq_some_iff.1 hrec
  obtain ⟨hreq, hfly, htold⟩ := hc.quiet (.inr hrec)
  have hnew : (s.row.map (fun ap => ap.decide kind.recorded)).map (·.status) = some kind.recorded.status := by
    rw [hrow, Option.map_some, Option.map_some, decide_status]
  have honly : ∀ j a, ((s.setRequest k (.committed kind.recorded)).requests j).decided = some a →
      j = k ∧ a = kind.recorded := by
    intro j a hj
    by_cases hjk : j = k
    · subst hjk
      rw [setRequest_self] at hj
      exact ⟨rfl, (Option.some.inj hj).symm⟩
    · rw [setRequest_ne s _ hjk, hreq j] at hj
      cases hj
  have hundecided : kind.recorded.status = .approved → kind = .approve := by
    cases kind
    · exact fun _ => rfl
    · nofun
  refine ⟨fun hs => ?_, fun u hu => ?_, ?_, ?_, ?_, ?_, ?_, ?_, hc.one, hc.observed⟩
  · rw [(hc.fresh hs).1] at hrow
    cases hrow
  · rw [(hc.flushed u hu).2] at hrow
    cases hrow
  · intro j a hj
    obtain ⟨-, rfl⟩ := honly j a hj
    exact hnew
  · intro i j a b hi hj
    rw [(honly i a hi).1, (honly j b hj).1]
  · intro m (hm : m ∈ s.inFlight)
    rw [hfly] at hm
    cases hm
  · intro wr (hwr : s.waiter = some wr)
    refine (hc.waiter wr hwr).of_undecided (.inr hrec) (fun hcan happ => ?_)
    have hkind := hundecided (Option.some.inj (hnew.symm.trans happ))
    refine (hopen (hkind ▸ hk)).2 ?_
    rw [hwr, Option.map_some, hcan]
  · intro b (hb : s.phase.verdict = some b)
    have hno : b ≠ true := by
      intro hbt
      have happ := (hc.verdict b hb).1 hbt
      rw [hrec] at happ
      cases happ
    refine iff_of_false hno (fun happ => ?_)
    have hkind := hundecided (Option.some.inj (hnew.symm.trans happ))
    rw [verdict_of_undecided (hopen (hkind ▸ hk)).1] at hb
    cases hb
  · intro e (he : e ∈ s.answered)
    rw [htold] at he
    cases he

theorem request_consistent {served : Nat → Bool} {s s' : World} {k : Nat} {a : RequestAct} (hc : Consistent s)
    (hok : DecisionOk s (.request k a)) (h : requestStep served s k a = some s') : Consistent s' := by
  cases a with
  | load kind =>
    obtain ⟨hidle, h⟩ := Option.ite_none_right_eq_some.1 h
    have hgo : ∀ r : Request, r.decided = none → Consistent (s.setRequest k r) := by
      intro r hr
      refine hc.setRequest k r (fun _ => by rw [hidle]; nofun) (fun kind hk => ?_)
      rw [hr] at hk
      cases hk
    split at h
    · cases h
      exact hgo _ rfl
    · split at h
      · cases h
        exact hgo _ rfl
      · cases h
        exact hgo _ rfl
  | commit =>
    simp only [requestStep] at h
    split at h
    · rename_i kind hk
      cases h
      exact commit_consistent hc hk hok
    · cases h
  | signal =>
    simp only [requestStep] at h
    split at h
    · rename_i kind hk
      cases h
      have hc' : Consistent (s.setRequest k (.signalled kind)) :=
        hc.setRequest k _ (fun _ => by rw [hk]; nofun) (fun _ hd => by rw [hk]; exact hd)
      have hrec : s.recorded = some kind.status := hc.decided k kind (by rw [hk]; rfl)
      refine hc'.setWaiter _ ?_
      split
      · exact signalLocal_backed hrec hc.waiter
      · exact hc.waiter
    · cases h
  | publish ok =>
    simp only [requestStep] at h
    split at h
    · rename_i kind hk
      cases h
      have hc' : Consistent (s.setRequest k (.published kind)) :=
        hc.setRequest k _ (fun _ => by rw [hk]; nofun) (fun _ hd => by rw [hk]; exact hd)
      have hrec : s.recorded = some kind.status := hc.decided k kind (by rw [hk]; rfl)
      refine hc'.setInFlight _ ?_
      split
      · intro m hm
        rcases List.mem_append.1 hm with hm | hm
        · exact hc.inFlight m hm
        · rw [List.mem_singleton.1 hm]
          exact hrec
      · exact hc.inFlight
    · cases h
  | answer =>
    simp only [requestStep] at h
    split at h
    · rename_i kind hk
      cases h
      have hc' : Consistent (s.setRequest k (.answered (.ok kind))) :=
        hc.setRequest k _ (fun _ => by rw [hk]; nofun) (fun _ hd => by rw [hk]; exact hd)
      have hnone : s.answered = [] := by
        refine List.eq_nil_iff_forall_not_mem.2 fun e he => ?_
        have hreq := hc.told e he
        have hek : e.1 = k := hc.alone e.1 k e.2 kind (by rw [hreq]; rfl) (by rw [hk]; rfl)
        rw [hek, hk] at hreq
        cases hreq
      refine { hc' with told := ?_, one := ?_ }
      · intro e (he : e ∈ s.answered ++ [(k, kind)])
        rw [hnone] at he
        obtain rfl := List.mem_singleton.1 he
        exact setRequest_self ..
      · simp [hnone]
    · cases h
  | die =>
    simp only [requestStep] at h
    split at h
    · cases h
    · cases h
    · rename_i hans
      cases h
      exact hc.setRequest k _ (fun kind hk => hans _ hk) nofun

theorem step_consistent {served : Nat → Bool} {s s' : World} {a : Act} (hc : Consistent s) (hok : DecisionOk s a)
    (h : step served s a = some s') : Consistent s' := by
  cases a with
  | tick seconds =>
    cases h
    exact { hc with }
  | runtime a => exact runtime_consistent hc hok h
  | request k a => exact request_consistent hc hok h
  | deliver =>
    simp only [step] at h
    split at h
    · cases h
    · rename_i kind rest hfly
      cases h
      have hc' : Consistent { s with inFlight := rest } :=
        hc.setInFlight rest (fun m hm => hc.inFlight m (hfly ▸ List.mem_cons_of_mem _ hm))
      exact hc'.setWaiter _ (signalLocal_backed (hc.inFlight kind (hfly ▸ List.mem_cons_self)) hc.waiter)
  | lose =>
    simp only [step] at h
    split at h
    · cases h
    · rename_i kind rest hfly
      cases h
      exact hc.setInFlight rest (fun m hm => hc.inFlight m (hfly ▸ List.mem_cons_of_mem _ hm))
  | stop =>
    cases h
    exact hc.setWaiter _ (cancel_backed hok hc.waiter)

/-! ## every run -/

open Trace (Runs Reaches play reaches_play)

def asked : List Act := [.runtime (.create true), .runtime .announce, .runtime (.setWaiting true)]

def approveRequest (k : Nat) : List Act :=
  [.request k (.load .approve), .request k .commit, .request k .signal, .request k (.publish true), .request k .answer]

/-- The user approves, and is told so, between the commit that shows the approval and the registration of the waiter: the
signal finds nobody, and the wait times out. -/
def approvedBeforeRegister : List Act :=
  asked ++ approveRequest 0 ++ [.deliver, .runtime .register, .tick 300, .runtime .timeout]

end Approval
end MyGpt
