import MyGpt.Lib.Expiring
import MyGpt.Lib.Trace
/-!
# Idempotency — the chat requests of one user with one `Idempotency-Key`

`check` and `release` over Redis and the fallback of each process, and the ways out of `chat_stream`.  The marker is `"1"` in
the code; here it says whose it is, which no function reads.  Each marker belongs to a request in flight, or to one that has
ended and is not to be retried (`State.Keyed`).  That needs a check to look where the marker of the request in flight is, and
a failed request without work to come to `release`, which the errors that `ChatService.stream` ends its events with do not
(`requests_deduped`, `denied_blocks_retry`).
-/
namespace MyGpt
namespace Idempotency

open Trace (Runs Reaches play reaches_play)

def ttl (idempotencyTtlSeconds : Int) : Int := max idempotencyTtlSeconds 1

/-- Where a marker is: in Redis, or in the `_memory` of a process. -/
inductive Store
  | redis
  | memory (process : Nat)
  deriving DecidableEq

def reached (process : Nat) (redisReachable : Bool) : Store := if redisReachable then .redis else .memory process

inductive Raised
  | httpException | appException | unexpected
  deriving DecidableEq

inductive Stage
  /-- In `_assert_owned`. -/
  | owning
  /-- In `create_and_enqueue_durable_run`. -/
  | creating
  | tailing
  /-- The producer runs, and `ChatService.stream` has not come to its `try`. -/
  | opening
  | streaming
  /-- In the producer's `except Exception`. -/
  | releasing
  deriving DecidableEq

structure Held where
  process : Nat
  store : Store
  since : Int
  worked : Bool
  deriving DecidableEq

inductive Phase
  | idle
  | refused
  | inFlight (held : Held) (stage : Stage)
  | ended (held : Held) (failed : Bool)
  deriving DecidableEq

structure State where
  now : Int
  keys : Store → Expiring Nat
  requests : Nat → Phase
  stolen : Bool

def State.start : State := ⟨0, fun _ => {}, fun _ => .idle, false⟩

def State.setPhase (s : State) (r : Nat) (phase : Phase) : State := { s with requests := Function.update s.requests r phase }

/-- What escapes `ChatService.stream`: its `try` ends every exception in an `error` event. -/
def escapes (tryEntered : Bool) (raised : Raised) : Option Raised := if tryEntered then none else some raised

/-- Only `except Exception` of the producer releases. -/
def producerReleases : Option Raised → Bool
  | some .unexpected => true
  | _ => false

/-- Whether an exception at a stage leads to `release`. -/
def leadsToRelease (raised : Raised) : Stage → Bool
  | .opening => producerReleases (escapes false raised)
  | .streaming => producerReleases (escapes true raised)
  | _ => false

def acquire (idempotencyTtlSeconds : Int) (s : State) (r process : Nat) (store : Store) : State :=
  { s with keys := Function.update s.keys store (Expiring.put r s.now (ttl idempotencyTtlSeconds)) }.setPhase r
    (.inFlight ⟨process, store, s.now, false⟩ .owning)

/-- `check`: `SET NX EX`, or the fallback. -/
def check (idempotencyTtlSeconds : Int) (s : State) (r process : Nat) (redisReachable : Bool) : State :=
  match (s.keys (reached process redisReachable)).get s.now with
  | some _ => s.setPhase r .refused
  | none => acquire idempotencyTtlSeconds s r process (reached process redisReachable)

/-- `release`: `DEL`, or `_memory.pop`. -/
def release (s : State) (r : Nat) (store : Store) : State :=
  { s with
    keys := Function.update s.keys store {}
    stolen := s.stolen || ((s.keys store).get s.now).any (· ≠ r) }

inductive Act
  | passes (seconds : Nat)
  | checks (r process : Nat) (redisReachable : Bool)
  /-- The conversation is the user's, or a new one; `BACKGROUND_WORKER` decides the path. -/
  | dispatches (r : Nat) (durable : Bool)
  | creates (r : Nat)
  | opens (r : Nat)
  | works (r : Nat)
  | raises (r : Nat) (raised : Raised)
  /-- `ChatService.stream` yields an `error` event for a quota or for credits, and returns. -/
  | denies (r : Nat)
  | releases (r : Nat) (redisReachable : Bool)
  | cancels (r : Nat)
  | finishes (r : Nat)

def requestStep (s : State) (r : Nat) (held : Held) : Act → Stage → Option State
  | .dispatches _ durable, .owning => some (s.setPhase r (.inFlight held (if durable then .creating else .opening)))
  | .creates _, .creating => some (s.setPhase r (.inFlight held .tailing))
  | .opens _, .opening => some (s.setPhase r (.inFlight held .streaming))
  | .works _, .creating => some (s.setPhase r (.inFlight { held with worked := true } .creating))
  | .works _, .tailing => some (s.setPhase r (.inFlight { held with worked := true } .tailing))
  | .works _, .streaming => some (s.setPhase r (.inFlight { held with worked := true } .streaming))
  | .raises _ _, .releasing => none
  | .raises _ raised, stage =>
    some (s.setPhase r (if leadsToRelease raised stage then .inFlight held .releasing else .ended held true))
  | .denies _, .streaming => some (s.setPhase r (.ended held true))
  | .releases _ redisReachable, .releasing =>
    some ((release s r (reached held.process redisReachable)).setPhase r (.ended held true))
  | .cancels _, _ => some (s.setPhase r (.ended held true))
  | .finishes _, .tailing => some (s.setPhase r (.ended held false))
  | .finishes _, .streaming => some (s.setPhase r (.ended held false))
  | _, _ => none

/-- A step of the request `r` while it is in flight. -/
def onRequest (s : State) (act : Act) (r : Nat) : Option State :=
  match s.requests r with
  | .inFlight held stage => requestStep s r held act stage
  | _ => none

def step (idempotencyTtlSeconds : Int) (s : State) : Act → Option State
  | .passes seconds => some { s with now := s.now + seconds }
  | .checks r process redisReachable =>
    match s.requests r with
    | .idle => some (check idempotencyTtlSeconds s r process redisReachable)
    | _ => none
  | .dispatches r durable => onRequest s (.dispatches r durable) r
  | .creates r => onRequest s (.creates r) r
  | .opens r => onRequest s (.opens r) r
  | .works r => onRequest s (.works r) r
  | .raises r raised => onRequest s (.raises r raised) r
  | .denies r => onRequest s (.denies r) r
  | .releases r redisReachable => onRequest s (.releases r redisReachable) r
  | .cancels r => onRequest s (.cancels r) r
  | .finishes r => onRequest s (.finishes r) r

/-! ## what must hold, and when it does -/

/-- **One request in flight, no stolen marker, and a retry at once** when whatever was admitted within the TTL failed before
doing any work. -/
structure State.Deduped (idempotencyTtlSeconds : Int) (s : State) : Prop where
  one : ∀ r r' held held' stage stage', s.requests r = .inFlight held stage → s.requests r' = .inFlight held' stage' → r = r'
  own : s.stolen = false
  retry : ∀ r process redisReachable, s.requests r = .idle →
    (∀ r' held stage, s.requests r' ≠ .inFlight held stage) →
    (∀ r' held failed, s.requests r' = .ended held failed → s.now < held.since + ttl idempotencyTtlSeconds →
      failed = true ∧ held.worked = false) →
    ∃ held, (check idempotencyTtlSeconds s r process redisReachable).requests r = .inFlight held .owning

def Held.Spent (held : Held) (now ttl : Int) : Prop := held.worked = true ∨ held.since + ttl ≤ now

/-- **A check looks where the marker of the request in flight is, before it expires; a release goes where the marker is;
and a request that fails without work comes to its release.** -/
def StepOk (idempotencyTtlSeconds : Int) (s : State) : Act → Prop
  | .checks _ process redisReachable => ∀ r held stage, s.requests r = .inFlight held stage →
      held.store = reached process redisReachable ∧ s.now < held.since + ttl idempotencyTtlSeconds
  | .releases r redisReachable => ∀ held stage, s.requests r = .inFlight held stage →
      held.store = reached held.process redisReachable ∨
      (held.Spent s.now (ttl idempotencyTtlSeconds) ∧ (s.keys (reached held.process redisReachable)).get s.now = none)
  | .raises r raised => ∀ held stage, s.requests r = .inFlight held stage →
      leadsToRelease raised stage = true ∨ held.Spent s.now (ttl idempotencyTtlSeconds)
  | .denies r => ∀ held stage, s.requests r = .inFlight held stage → held.Spent s.now (ttl idempotencyTtlSeconds)
  | .cancels r => ∀ held stage, s.requests r = .inFlight held stage → held.Spent s.now (ttl idempotencyTtlSeconds)
  | _ => True

inductive Move (seconds : Int) (s : State) : Act → State → Prop
  | passed (n : Nat) : Move seconds s (.passes n) { s with now := s.now + n }
  | checked {r process : Nat} {redisReachable : Bool} : s.requests r = .idle →
      Move seconds s (.checks r process redisReachable) (check seconds s r process redisReachable)
  | advanced {act : Act} {r : Nat} {held : Held} {stage stage' : Stage} (worked : Bool) :
      s.requests r = .inFlight held stage → held.worked = false ∨ worked = true →
      Move seconds s act (s.setPhase r (.inFlight { held with worked := worked } stage'))
  | left {act : Act} {r : Nat} {held : Held} {stage : Stage} {failed : Bool} : s.requests r = .inFlight held stage →
      (failed = true → held.Spent s.now (ttl seconds)) → Move seconds s act (s.setPhase r (.ended held failed))
  | released {r : Nat} {held : Held} {store : Store} : s.requests r = .inFlight held .releasing →
      held.store = store ∨ (held.Spent s.now (ttl seconds) ∧ (s.keys store).get s.now = none) →
      Move seconds s act ((release s r store).setPhase r (.ended held true))

theorem onRequest_some {s s' : State} {act : Act} {r : Nat} (h : onRequest s act r = some s') :
    ∃ held stage, s.requests r = .inFlight held stage ∧ requestStep s r held act stage = some s' := by
  unfold onRequest at h
  split at h
  next held stage hphase => exact ⟨held, stage, hphase, h⟩
  next => cases h

theorem Move.same {seconds : Int} {s : State} {act : Act} {r : Nat} {held : Held} {stage : Stage} (stage' : Stage)
    (hphase : s.requests r = .inFlight held stage) : Move seconds s act (s.setPhase r (.inFlight held stage')) := by
  exact .advanced held.worked hphase (by cases held.worked <;> simp)

theorem step_move {seconds : Int} {s s' : State} {act : Act} (h : step seconds s act = some s') (hok : StepOk seconds s act) :
    Move seconds s act s' := by
  cases act with
  | passes n =>
    cases h
    exact .passed n
  | checks r process redisReachable =>
    unfold step at h
    dsimp only at h
    split at h
    next hidle =>
      cases h
      exact .checked hidle
    next => cases h
  | dispatches | creates | opens =>
    obtain ⟨held, stage, hphase, h⟩ := onRequest_some h
    cases stage <;> cases h
    exact .same _ hphase
  | works r =>
    obtain ⟨held, stage, hphase, h⟩ := onRequest_some h
    cases stage <;> cases h <;> exact .advanced true hphase (.inr rfl)
  | raises r raised =>
    obtain ⟨held, stage, hphase, h⟩ := onRequest_some h
    have hwhen := hok held stage hphase
    by_cases hleads : leadsToRelease raised stage = true
    · cases stage <;> simp only [requestStep, hleads, if_true] at h <;> cases h <;> exact .same _ hphase
    · have hspent := hwhen.resolve_left hleads
      cases stage <;> simp only [requestStep, hleads] at h <;> cases h <;> exact .left hphase (fun _ => hspent)
  | denies r =>
    obtain ⟨held, stage, hphase, h⟩ := onRequest_some h
    have hspent := hok held stage hphase
    cases stage <;> cases h
    exact .left hphase (fun _ => hspent)
  | releases r redisReachable =>
    obtain ⟨held, stage, hphase, h⟩ := onRequest_some h
    have hwhere := hok held stage hphase
    cases stage <;> cases h
    exact .released hphase hwhere
  | cancels r =>
    obtain ⟨held, stage, hphase, h⟩ := onRequest_some h
    have hspent := hok held stage hphase
    cases stage <;> cases h <;> exact .left hphase (fun _ => hspent)
  | finishes r =>
    obtain ⟨held, stage, hphase, h⟩ := onRequest_some h
    cases stage <;> cases h <;> exact .left hphase (fun hfailed => nomatch hfailed)

/-! ## whose the markers are -/

theorem ttl_pos (seconds : Int) : 0 < ttl seconds := Int.lt_of_lt_of_le Int.one_pos (Int.le_max_right _ _)

def Phase.Holds (store : Store) (since : Int) : Phase → Prop
  | .inFlight held _ => held.store = store ∧ held.since = since
  | .ended held failed => held.since = since ∧ (failed = true → held.worked = true)
  | _ => False

/-- **Whose the markers are.** -/
structure State.Keyed (seconds : Int) (s : State) : Prop where
  one : ∀ r r' held held' stage stage', s.requests r = .inFlight held stage → s.requests r' = .inFlight held' stage' → r = r'
  own : s.stolen = false
  owner : ∀ store r, (s.keys store).get s.now = some r →
    ∃ since, s.keys store = Expiring.put r since (ttl seconds) ∧ (s.requests r).Holds store since
  kept : ∀ r held stage, s.requests r = .inFlight held stage → s.keys held.store = Expiring.put r held.since (ttl seconds)

theorem keyed_start (seconds : Int) : State.start.Keyed seconds where
  one := by
    intro r r' held held' stage stage' h
    cases h
  own := rfl
  owner := by
    intro store r h
    cases h
  kept := by
    intro r held stage h
    cases h

theorem State.Keyed.passed {seconds : Int} {s : State} (h : s.Keyed seconds) (n : Nat) :
    ({ s with now := s.now + n } : State).Keyed seconds where
  one := h.one
  own := h.own
  owner := by
    intro store r hget
    exact h.owner store r (Expiring.get_of_later hget (by dsimp only; omega))
  kept := h.kept

theorem setPhase_self (s : State) (r : Nat) (phase : Phase) : (s.setPhase r phase).requests r = phase := by
  simp [State.setPhase]

theorem setPhase_of_ne (s : State) {r r' : Nat} (phase : Phase) (hne : r' ≠ r) :
    (s.setPhase r phase).requests r' = s.requests r' := by
  simp [State.setPhase, hne]

theorem State.Keyed.setPhase {seconds : Int} {s : State} (h : s.Keyed seconds) {r : Nat} {phase : Phase}
    (hflight : ∀ held stage, phase = .inFlight held stage →
      ∃ worked stage', s.requests r = .inFlight { held with worked := worked } stage')
    (howner : ∀ store since, s.now < since + ttl seconds → (s.requests r).Holds store since → phase.Holds store since) :
    (s.setPhase r phase).Keyed seconds where
  one := by
    have hwas : ∀ r' held stage, (s.setPhase r phase).requests r' = .inFlight held stage →
        ∃ held' stage', s.requests r' = .inFlight held' stage' := by
      intro r' held stage hphase
      by_cases hr : r' = r
      · subst hr
        rw [setPhase_self] at hphase
        obtain ⟨worked, stage', hwas⟩ := hflight held stage hphase
        exact ⟨_, stage', hwas⟩
      · rw [setPhase_of_ne s phase hr] at hphase
        exact ⟨held, stage, hphase⟩
    intro r₁ r₂ held₁ held₂ stage₁ stage₂ h₁ h₂
    obtain ⟨_, _, hwas₁⟩ := hwas r₁ held₁ stage₁ h₁
    obtain ⟨_, _, hwas₂⟩ := hwas r₂ held₂ stage₂ h₂
    exact h.one _ _ _ _ _ _ hwas₁ hwas₂
  own := h.own
  owner := by
    intro store r' hget
    obtain ⟨since, hkey, hholds⟩ := h.owner store r' hget
    refine ⟨since, hkey, ?_⟩
    by_cases hr : r' = r
    · subst hr
      rw [setPhase_self]
      refine howner store since ?_ hholds
      have hlive : (s.keys store).get s.now = some r' := hget
      rw [hkey, Expiring.put_get _ _ (ttl_pos seconds)] at hlive
      by_contra hpast
      rw [if_neg hpast] at hlive
      cases hlive
    · rwa [setPhase_of_ne s phase hr]
  kept := by
    intro r' held stage hphase
    by_cases hr : r' = r
    · subst hr
      rw [setPhase_self] at hphase
      obtain ⟨worked, stage', hwas⟩ := hflight held stage hphase
      exact h.kept r' { held with worked := worked } stage' hwas
    · rw [setPhase_of_ne s phase hr] at hphase
      exact h.kept r' held stage hphase

theorem State.Keyed.admitted {seconds : Int} {s : State} (h : s.Keyed seconds) {r process : Nat} {store : Store}
    (hidle : s.requests r = .idle) (hnone : ∀ r' held stage, s.requests r' ≠ .inFlight held stage) :
    (acquire seconds s r process store).Keyed seconds := by
  have hself : ∀ r' held stage, (acquire seconds s r process store).requests r' = .inFlight held stage →
      r' = r ∧ held = ⟨process, store, s.now, false⟩ := by
    intro r' held stage hphase
    unfold acquire at hphase
    by_cases hr : r' = r
    · subst hr
      rw [setPhase_self] at hphase
      cases hphase
      exact ⟨rfl, rfl⟩
    · rw [setPhase_of_ne _ _ hr] at hphase
      exact absurd hphase (hnone r' held stage)
  constructor
  · intro r₁ r₂ held₁ held₂ stage₁ stage₂ h₁ h₂
    rw [(hself r₁ held₁ stage₁ h₁).1, (hself r₂ held₂ stage₂ h₂).1]
  · exact h.own
  · intro store' r' hget
    unfold acquire at hget ⊢
    by_cases hstore : store' = store
    · subst hstore
      simp only [State.setPhase, Function.update_self] at hget ⊢
      rw [Expiring.put_get _ _ (ttl_pos seconds), if_pos (by have := ttl_pos seconds; omega)] at hget
      cases hget
      exact ⟨s.now, rfl, by simp [Phase.Holds]⟩
    · simp only [State.setPhase, Function.update_of_ne hstore] at hget ⊢
      obtain ⟨since, hkey, hholds⟩ := h.owner store' r' hget
      refine ⟨since, hkey, ?_⟩
      have hr : r' ≠ r := by
        rintro rfl
        rw [hidle] at hholds
        exact hholds
      rwa [Function.update_of_ne hr]
  · intro r' held stage hphase
    obtain ⟨rfl, rfl⟩ := hself r' held stage hphase
    simp [acquire, State.setPhase]

theorem State.Keyed.checked {seconds : Int} {s : State} (h : s.Keyed seconds) {r process : Nat} {redisReachable : Bool}
    (hidle : s.requests r = .idle) (hok : StepOk seconds s (.checks r process redisReachable)) :
    (check seconds s r process redisReachable).Keyed seconds := by
  unfold check
  split
  next r' hget =>
    refine h.setPhase (fun held stage hphase => nomatch hphase) (fun store since _ hholds => ?_)
    rw [hidle] at hholds
    exact hholds.elim
  next hfree =>
    refine h.admitted hidle (fun r' held stage hphase => ?_)
    -- a request in flight has its marker where this one looks
    obtain ⟨hstore, hlive⟩ := hok r' held stage hphase
    rw [← hstore, h.kept r' held stage hphase, Expiring.put_get _ _ (ttl_pos seconds), if_pos hlive] at hfree
    cases hfree

theorem State.Keyed.released {seconds : Int} {s : State} (h : s.Keyed seconds) {r : Nat} {held : Held} {store : Store}
    (hphase : s.requests r = .inFlight held .releasing)
    (hwhere : held.store = store ∨ (held.Spent s.now (ttl seconds) ∧ (s.keys store).get s.now = none)) :
    ((release s r store).setPhase r (.ended held true)).Keyed seconds := by
  have hown : ((s.keys store).get s.now).any (· ≠ r) = false := by
    rcases hwhere with rfl | ⟨-, hnone⟩
    · rw [h.kept r held .releasing hphase, Expiring.put_get _ _ (ttl_pos seconds)]
      split <;> simp
    · rw [hnone]
      rfl
  have hother : ∀ r' held' stage', ((release s r store).setPhase r (.ended held true)).requests r' ≠ .inFlight held' stage' := by
    intro r' held' stage' hflight
    by_cases hr : r' = r
    · subst hr
      rw [setPhase_self] at hflight
      cases hflight
    · rw [setPhase_of_ne _ _ hr] at hflight
      exact hr (h.one _ _ _ _ _ _ hflight hphase)
  constructor
  · intro r₁ r₂ held₁ held₂ stage₁ stage₂ h₁ h₂
    exact absurd h₁ (hother r₁ held₁ stage₁)
  · show (s.stolen || ((s.keys store).get s.now).any (· ≠ r)) = false
    rw [h.own, hown]
    rfl
  · intro store' r' hget
    by_cases hstore : store' = store
    · subst hstore
      simp [release, State.setPhase, Expiring.get] at hget
    · simp only [release, State.setPhase, Function.update_of_ne hstore] at hget ⊢
      obtain ⟨since, hkey, hholds⟩ := h.owner store' r' hget
      refine ⟨since, hkey, ?_⟩
      by_cases hr : r' = r
      · subst hr
        rw [Function.update_self]
        rw [hphase] at hholds
        obtain ⟨hheld, rfl⟩ := hholds
        have hspent := (hwhere.resolve_left (fun hsame => hstore (hheld.symm.trans hsame))).1
        refine ⟨rfl, fun _ => hspent.resolve_right (fun hpast => ?_)⟩
        have hlive := hget
        rw [hkey, Expiring.put_get _ _ (ttl_pos seconds), if_neg (by omega)] at hlive
        cases hlive
      · rwa [Function.update_of_ne hr]
  · intro r' held' stage' hflight
    exact absurd hflight (hother r' held' stage')

theorem State.Keyed.step {seconds : Int} {s s' : State} {act : Act} (h : s.Keyed seconds) (hok : StepOk seconds s act)
    (hs : step seconds s act = some s') : s'.Keyed seconds := by
  cases step_move hs hok with
  | passed n => exact h.passed n
  | checked hidle => exact h.checked hidle hok
  | @advanced _ r held stage stage' worked hphase hworked =>
    refine h.setPhase (fun held' stage'' hnew => ?_) (fun store since _ hholds => ?_)
    · cases hnew
      exact ⟨held.worked, stage, hphase⟩
    · rw [hphase] at hholds
      exact hholds
  | @left _ r held stage failed hphase hspent =>
    refine h.setPhase (fun held' stage'' hnew => nomatch hnew) (fun store since hlive hholds => ?_)
    rw [hphase] at hholds
    obtain ⟨-, rfl⟩ := hholds
    refine ⟨rfl, fun hfailed => (hspent hfailed).resolve_right (fun hpast => ?_)⟩
    omega
  | released hphase hwhere => exact h.released hphase hwhere

theorem State.Keyed.deduped {seconds : Int} {s : State} (h : s.Keyed seconds) : s.Deduped seconds where
  one := h.one
  own := h.own
  retry := by
    intro r process redisReachable _ hnone hfailed
    have hfree : (s.keys (reached process redisReachable)).get s.now = none := by
      rw [Option.eq_none_iff_forall_ne_some]
      intro r' hget
      obtain ⟨since, hkey, hholds⟩ := h.owner _ r' hget
      have hlive : s.now < since + ttl seconds := by
        by_contra hpast
        rw [hkey, Expiring.put_get _ _ (ttl_pos seconds), if_neg hpast] at hget
        cases hget
      cases hphase : s.requests r' with
      | idle | refused =>
        rw [hphase] at hholds
        exact hholds
      | inFlight held stage => exact hnone r' held stage hphase
      | ended held failed =>
        rw [hphase] at hholds
        obtain ⟨rfl, hworked⟩ := hholds
        obtain ⟨hfailed, hidle⟩ := hfailed r' held failed hphase hlive
        rw [hworked hfailed] at hidle
        cases hidle
    refine ⟨⟨process, reached process redisReachable, s.now, false⟩, ?_⟩
    unfold check
    rw [hfree]
    exact setPhase_self _ _ _

/-! ## the claim -/

/-- **Idempotency keys**: one request in flight, no stolen marker, and a retry at once after a failure without work. -/
theorem requests_deduped (seconds : Int) (s : State) (h : Runs (step seconds) (StepOk seconds) State.start s) :
    s.Deduped seconds :=
  (h.invariant (keyed_start seconds) (fun _ _ _ hkeyed hok hs => hkeyed.step hok hs)).deduped

/-- An unexpected exception before the turn's `try`, released in Redis, and a retry. -/
def retried : List Act :=
  [.checks 0 0 true, .dispatches 0 false, .raises 0 .unexpected, .releases 0 true, .checks 1 0 true]

theorem retried_other (r : Nat) (hr : r ≠ 0) : (play (step 600) State.start (retried.take 4)).requests r = .idle := by
  simp [play, Trace.exec, retried, step, check, acquire, State.start, Expiring.get, onRequest, requestStep, leadsToRelease,
    escapes, producerReleases, release, State.setPhase, reached, hr]

theorem requests_deduped_retried :
    (play (step 600) State.start retried).Deduped 600 ∧
      (play (step 600) State.start retried).requests 1 = .inFlight ⟨0, .redis, 0, false⟩ .owning := by
  refine ⟨requests_deduped 600 _ ?_, by decide⟩
  refine Runs.next (.checks 1 0 true) (s := play (step 600) State.start (retried.take 4)) ?_ ?_ rfl
  · refine Runs.next (.releases 0 true) (s := play (step 600) State.start (retried.take 3)) ?_ ?_ rfl
    · refine Runs.next (.raises 0 .unexpected) (s := play (step 600) State.start (retried.take 2)) ?_ ?_ rfl
      · refine Runs.next (.dispatches 0 false) (s := play (step 600) State.start (retried.take 1)) ?_ trivial rfl
        exact Runs.next (.checks 0 0 true) .refl (fun _ _ _ hphase => nomatch hphase) rfl
      · intro held stage hphase
        cases hphase
        exact .inl rfl
    · intro held stage hphase
      cases hphase
      exact .inl rfl
  · intro r held stage hphase
    by_cases hr : r = 0
    · subst hr
      cases hphase
    · rw [retried_other r hr] at hphase
      cases hphase

def denied : List Act := [.checks 0 0 true, .dispatches 0 false, .opens 0, .denies 0, .passes 5]

theorem denied_other (r : Nat) (hr : r ≠ 0) : (play (step 600) State.start denied).requests r = .idle := by
  simp [play, Trace.exec, denied, step, check, acquire, State.start, Expiring.get, onRequest, requestStep, State.setPhase,
    reached, hr]

theorem denied_blocks_retry : ¬ ∀ seconds s, Reaches (step seconds) State.start s → s.Deduped seconds := by
  intro h
  have hfirst : (play (step 600) State.start denied).requests 0 = .ended ⟨0, .redis, 0, false⟩ true := by decide
  obtain ⟨held, hadmitted⟩ := (h 600 (play (step 600) State.start denied) (reaches_play (by decide))).retry 1 0 true
    (by decide) (fun r held stage hphase => by
      by_cases hr : r = 0
      · subst hr
        rw [hfirst] at hphase
        cases hphase
      · rw [denied_other r hr] at hphase
        cases hphase) (fun r held failed hphase _ => by
      by_cases hr : r = 0
      · subst hr
        rw [hfirst] at hphase
        cases hphase
        exact ⟨rfl, rfl⟩
      · rw [denied_other r hr] at hphase
        cases hphase)
  have hrefused : (check 600 (play (step 600) State.start denied) 1 0 true).requests 1 = .refused := by decide
  rw [hrefused] at hadmitted
  cases hadmitted

end Idempotency
end MyGpt
