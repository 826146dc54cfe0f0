import MyGpt.Lib.Expiring
/-!
# EmailCodes — codes by email, one address

`request_code` and `verify_and_consume` of any number of callers on the keys of one address, one Redis command a step.  A
code is kept by its purpose; the counter of failed attempts is the address's.  It is a number in Redis, here the list of
the codes whose failures it counts.
-/
namespace MyGpt
namespace Email

structure Settings where
  ttlSeconds : Int := 300
  resendInterval : Int := 60
  burstLimit : Int := 5
  burstWindow : Int := 3600
  maxAttempts : Int := 5

inductive Purpose
  | register | reset
  deriving DecidableEq

structure Code where
  id : Nat
  purpose : Purpose
  text : String
  deriving DecidableEq

/-- Where a call of `request_code` is. -/
inductive Request
  | idle
  | gated (purpose : Purpose)
  | counted (purpose : Purpose)
  | added (purpose : Purpose)
  | ready (purpose : Purpose)
  | done (sent : Bool)
  deriving DecidableEq

/-- Where a call of `verify_and_consume` is, with the code that it has read. -/
inductive Call
  | idle
  | accepting (purpose : Purpose) (code : Code)
  | clearing (purpose : Purpose) (code : Code)
  | forgetting (purpose : Purpose) (code : Code)
  | wrong (purpose : Purpose) (code : Code)
  | counted (purpose : Purpose) (code : Code) (attempts : Nat)
  | capped (purpose : Purpose) (code : Code)
  | uncounting (purpose : Purpose) (code : Code)
  | done (valid : Bool)
  /-- `EmailCodeError`, or the `TypeError` of a guess that is not ASCII. -/
  | raised
  deriving DecidableEq

def Call.read : Call → Option (Purpose × Code)
  | .accepting p c => some (p, c)
  | .clearing p c => some (p, c)
  | .forgetting p c => some (p, c)
  | .wrong p c => some (p, c)
  | .counted p c _ => some (p, c)
  | .capped p c => some (p, c)
  | .uncounting p c => some (p, c)
  | _ => none

structure Acceptance where
  purpose : Purpose
  code : Code

structure Tally where
  code : Code
  attempts : Nat

structure Invalidation where
  deleted : Code
  guessed : Code

structure State where
  now : Int
  codes : Purpose → Expiring Code
  attempts : Expiring (List Code)
  interval : Expiring Unit
  burst : Expiring Nat
  requests : Nat → Request
  calls : Nat → Call
  nextId : Nat
  wrong : List Code
  accepted : List Acceptance
  tallied : List Tally
  invalidated : List Invalidation

inductive Act
  | passes (ms : Nat)
  /-- The first command of `request_code`. -/
  | asks (q : Nat) (purpose : Purpose)
  /-- Its next one; the code it issues is `text`. -/
  | proceeds (q : Nat) (text : String)
  | compares (v : Nat) (purpose : Purpose) (guess : String)
  | goesOn (v : Nat)

def State.setRequest (s : State) (q : Nat) (request : Request) : State :=
  { s with requests := Function.update s.requests q request }

def State.setCall (s : State) (v : Nat) (call : Call) : State := { s with calls := Function.update s.calls v call }

def State.deleteCode (s : State) (purpose : Purpose) : State :=
  { s with codes := Function.update s.codes purpose {} }

def ask (cfg : Settings) (s : State) (q : Nat) (purpose : Purpose) : State :=
  if 0 < cfg.resendInterval then
    if (s.interval.get s.now).isSome then s.setRequest q (.done false)
    else { s with interval := Expiring.put () s.now (cfg.resendInterval * 1000) }.setRequest q (.gated purpose)
  else s.setRequest q (.gated purpose)

def proceed (cfg : Settings) (s : State) (q : Nat) (text : String) : Request → Option State
  | .gated purpose =>
    some (s.setRequest q (if cfg.burstLimit ≤ ((s.burst.get s.now).getD 0 : Nat) then .done false else .counted purpose))
  | .counted purpose => some ({ s with burst := s.burst.update s.now (fun n => n.getD 0 + 1) }.setRequest q (.added purpose))
  | .added purpose => some ({ s with burst := s.burst.expire s.now (cfg.burstWindow * 1000) }.setRequest q (.ready purpose))
  | .ready purpose =>
    some ({ s with
      codes := Function.update s.codes purpose (Expiring.put ⟨s.nextId, purpose, text⟩ s.now (cfg.ttlSeconds * 1000))
      nextId := s.nextId + 1 }.setRequest q (.done true))
  | _ => none

def compare (s : State) (v : Nat) (purpose : Purpose) (guess : String) : State :=
  match (s.codes purpose).get s.now with
  | none => s.setCall v (.done false)
  | some code =>
    if guess.toList.any (fun c => 128 ≤ c.toNat) then s.setCall v .raised
    else if code.text = guess then { s with accepted := ⟨purpose, code⟩ :: s.accepted }.setCall v (.accepting purpose code)
    else { s with wrong := code :: s.wrong }.setCall v (.wrong purpose code)

def goOn (cfg : Settings) (s : State) (v : Nat) : Call → Option State
  | .accepting purpose code => some ((s.deleteCode purpose).setCall v (.clearing purpose code))
  | .clearing purpose code => some ({ s with interval := {} }.setCall v (.forgetting purpose code))
  | .forgetting _ _ => some ({ s with attempts := {} }.setCall v (.done true))
  | .wrong purpose code =>
    let attempts := ((s.attempts.get s.now).getD []).length + 1
    some ({ s with
      attempts := s.attempts.update s.now (fun l => code :: l.getD [])
      tallied := ⟨code, attempts⟩ :: s.tallied }.setCall v (.counted purpose code attempts))
  | .counted purpose code attempts =>
    some ({ s with attempts := s.attempts.expire s.now (cfg.ttlSeconds * 1000) }.setCall v
      (if cfg.maxAttempts ≤ attempts then .capped purpose code else .done false))
  | .capped purpose code =>
    some ({ s.deleteCode purpose with
      invalidated := (((s.codes purpose).get s.now).map (fun c => Invalidation.mk c code)).toList ++ s.invalidated }.setCall v
      (.uncounting purpose code))
  | .uncounting _ _ => some ({ s with attempts := {} }.setCall v .raised)
  | _ => none

def step (cfg : Settings) (s : State) : Act → Option State
  | .passes ms => some { s with now := s.now + ms }
  | .asks q purpose => if s.requests q = .idle then some (ask cfg s q purpose) else none
  | .proceeds q text => proceed cfg s q text (s.requests q)
  | .compares v purpose guess => if s.calls v = .idle then some (compare s v purpose guess) else none
  | .goesOn v => goOn cfg s v (s.calls v)

def State.start (now : Int) : State :=
  ⟨now, fun _ => {}, {}, {}, {}, fun _ => .idle, fun _ => .idle, 0, [], [], [], []⟩

/-! ## what a step does -/

@[simp] theorem setCall_self (s : State) (v : Nat) (call : Call) : (s.setCall v call).calls v = call := by
  simp [State.setCall]

theorem setCall_ne (s : State) {v x : Nat} (call : Call) (h : x ≠ v) : (s.setCall v call).calls x = s.calls x := by
  simp [State.setCall, h]

def State.code (s : State) (purpose : Purpose) : Option Code := (s.codes purpose).get s.now

def State.counter (s : State) : List Code := (s.attempts.get s.now).getD []

/-- **What a step does.** -/
inductive Move (cfg : Settings) (s : State) : Act → State → Prop
  | passed {ms : Nat} : Move cfg s (.passes ms) { s with now := s.now + ms }
  /-- A command of `request_code` on the throttles. -/
  | throttled {act : Act} {interval : Expiring Unit} {burst : Expiring Nat} {requests : Nat → Request} :
      Move cfg s act { s with interval := interval, burst := burst, requests := requests }
  | issued {q : Nat} {text : String} {purpose : Purpose} : s.requests q = .ready purpose →
      Move cfg s (.proceeds q text) ({ s with
        codes := Function.update s.codes purpose (Expiring.put ⟨s.nextId, purpose, text⟩ s.now (cfg.ttlSeconds * 1000))
        nextId := s.nextId + 1 }.setRequest q (.done true))
  | missed {v : Nat} {purpose : Purpose} {guess : String} {call : Call} : s.calls v = .idle → call.read = none →
      Move cfg s (.compares v purpose guess) (s.setCall v call)
  | right {v : Nat} {purpose : Purpose} {guess : String} {code : Code} : s.calls v = .idle → s.code purpose = some code →
      Move cfg s (.compares v purpose guess)
        ({ s with accepted := ⟨purpose, code⟩ :: s.accepted }.setCall v (.accepting purpose code))
  | wrong {v : Nat} {purpose : Purpose} {guess : String} {code : Code} : s.calls v = .idle → s.code purpose = some code →
      Move cfg s (.compares v purpose guess) ({ s with wrong := code :: s.wrong }.setCall v (.wrong purpose code))
  | accepted {v : Nat} {purpose : Purpose} {code : Code} : s.calls v = .accepting purpose code →
      Move cfg s (.goesOn v) ((s.deleteCode purpose).setCall v (.clearing purpose code))
  | cleared {v : Nat} {purpose : Purpose} {code : Code} : s.calls v = .clearing purpose code →
      Move cfg s (.goesOn v) ({ s with interval := {} }.setCall v (.forgetting purpose code))
  | forgot {v : Nat} {purpose : Purpose} {code : Code} {call : Call} :
      s.calls v = .forgetting purpose code ∨ s.calls v = .uncounting purpose code → call.read = none →
      Move cfg s (.goesOn v) ({ s with attempts := {} }.setCall v call)
  | tallied {v : Nat} {purpose : Purpose} {code : Code} : s.calls v = .wrong purpose code →
      Move cfg s (.goesOn v) ({ s with
        attempts := s.attempts.update s.now (fun l => code :: l.getD [])
        tallied := ⟨code, s.counter.length + 1⟩ :: s.tallied }.setCall v (.counted purpose code (s.counter.length + 1)))
  | prolonged {v : Nat} {purpose : Purpose} {code : Code} {attempts : Nat} : s.calls v = .counted purpose code attempts →
      Move cfg s (.goesOn v) ({ s with attempts := s.attempts.expire s.now (cfg.ttlSeconds * 1000) }.setCall v
        (if cfg.maxAttempts ≤ attempts then .capped purpose code else .done false))
  | capped {v : Nat} {purpose : Purpose} {code : Code} : s.calls v = .capped purpose code →
      Move cfg s (.goesOn v) ({ s.deleteCode purpose with
        invalidated := ((s.code purpose).map (fun c => Invalidation.mk c code)).toList ++ s.invalidated }.setCall v
        (.uncounting purpose code))

theorem step_move {cfg : Settings} {s s' : State} {act : Act} (h : step cfg s act = some s') : Move cfg s act s' := by
  unfold step at h
  cases act with
  | passes ms =>
    cases h
    exact .passed
  | asks q purpose =>
    dsimp only at h
    split at h
    next =>
      cases h
      unfold ask
      split
      · split
        · exact .throttled
        · exact .throttled
      · exact .throttled
    next => cases h
  | proceeds q text =>
    dsimp only at h
    unfold proceed at h
    split at h
    next =>
      cases h
      exact .throttled
    next =>
      cases h
      exact .throttled
    next =>
      cases h
      exact .throttled
    next hready =>
      cases h
      exact .issued hready
    next => cases h
  | compares v purpose guess =>
    dsimp only at h
    split at h
    next hidle =>
      cases h
      unfold compare
      split
      next => exact .missed hidle rfl
      next code hcode =>
        split
        next => exact .missed hidle rfl
        next =>
          split
          next => exact .right hidle hcode
          next => exact .wrong hidle hcode
    next => cases h
  | goesOn v =>
    dsimp only at h
    unfold goOn at h
    split at h
    next hcall =>
      cases h
      exact .accepted hcall
    next hcall =>
      cases h
      exact .cleared hcall
    next hcall =>
      cases h
      exact .forgot (.inl hcall) rfl
    next hcall =>
      cases h
      exact .tallied hcall
    next hcall =>
      cases h
      exact .prolonged hcall
    next hcall =>
      cases h
      exact .capped hcall
    next hcall =>
      cases h
      exact .forgot (.inr hcall) rfl
    next => cases h

end Email
end MyGpt
