import Mathlib.Data.Rat.Defs
/-!
# CreditLedger — the credit account and its ledger

`services/credit_service.py` over the two tables `credit_accounts` and `credit_ledger`: the locked read, the one helper
that writes a row, and the entry points over it.  A function that raises returns the error and no database: the session
it ran in is rolled back.  The account row lock serialises the writers of one account, so each entry point is one step.
-/
namespace MyGpt
namespace Credit

abbrev UserId := Nat

inductive Reason
  | redeem | signupBonus | adminAdjust | usage | turnHold | turnHoldRelease
  deriving DecidableEq

def Reason.isHold : Reason → Bool
  | .turnHold | .turnHoldRelease => true
  | _ => false

/-- The two reasons `grant` is called with (`redeem_service.redeem`, the registration endpoint). -/
inductive GrantReason
  | redeem | signupBonus
  deriving DecidableEq

def GrantReason.toReason : GrantReason → Reason
  | .redeem => .redeem
  | .signupBonus => .signupBonus

structure CreditAccount where
  balance : Int := 0
  lifetimeGranted : Int := 0
  lifetimeConsumed : Int := 0
  deriving DecidableEq

structure CreditLedger where
  id : Nat
  userId : UserId
  delta : Int
  balanceAfter : Int
  reason : Reason
  refType : Option String
  refId : Option String
  actorId : Option UserId
  note : Option String
  createdAt : Int
  deriving DecidableEq

/-- The two tables.  Ledger rows are only ever appended, so the next `id` is the number of rows. -/
structure Db where
  accounts : UserId → Option CreditAccount := fun _ => none
  ledger : List CreditLedger := []

structure CreditPolicy where
  enforced : Bool := false
  maxAdjust : Int := 10000000
  turnReserve : Int := 50
  deriving DecidableEq

/-- `CreditError`, or the error of the database driver on a value its column cannot hold. -/
inductive Raised
  | creditError (code message : String) (statusCode : Nat)
  | dataError
  deriving DecidableEq

/-- Python's `int(x)`: truncation towards zero. -/
def pyInt (x : ℚ) : Int := x.num.tdiv x.den

/-! ## the account -/

def Db.setAccount (db : Db) (userId : UserId) (a : CreditAccount) : Db :=
  { db with accounts := Function.update db.accounts userId (some a) }

/-- `get_or_create_account`, then the read under the row lock. -/
def lockedAccount (db : Db) (userId : UserId) : Db × CreditAccount :=
  match db.accounts userId with
  | some account => (db, account)
  | none => (db.setAccount userId {}, {})

/-! ## the one helper that writes a row -/

/-- `uq_credit_ledger_ref`: unique on `(ref_type, ref_id, reason)` where `ref_type` is not null; a null `ref_id` equals
nothing. -/
def CreditLedger.clashes (row : CreditLedger) (reason : Reason) (refType refId : Option String) : Bool :=
  refType.isSome && refId.isSome && row.refType == refType && row.refId == refId && row.reason == reason

/-- What a `BigInteger` column holds. -/
def fitsBigInt (x : Int) : Bool := -9223372036854775808 ≤ x && x ≤ 9223372036854775807

/-- What the `String(n)` columns of a row hold. -/
def refFits (refType refId : Option String) : Bool :=
  refType.all (fun t => t.length ≤ 32) && refId.all (fun i => i.length ≤ 64)

/-- The account after a row of `delta`. -/
def CreditAccount.apply (account : CreditAccount) (delta : Int) (countTowardLifetime : Bool) : CreditAccount :=
  let account := { account with balance := account.balance + delta }
  if !countTowardLifetime then account
  else if delta > 0 then { account with lifetimeGranted := account.lifetimeGranted + delta }
  else if delta < 0 then { account with lifetimeConsumed := account.lifetimeConsumed + (-delta) }
  else account

def CreditAccount.fits (account : CreditAccount) : Bool :=
  fitsBigInt account.balance && fitsBigInt account.lifetimeGranted && fitsBigInt account.lifetimeConsumed

/-- `_write_entry`: `none` is the idempotent hit, and then nothing was written. -/
def writeEntry (now : Int) (db : Db) (userId : UserId) (account : CreditAccount) (delta : Int) (reason : Reason)
    (refType refId : Option String) (actorId : Option UserId) (note : Option String)
    (countTowardLifetime : Bool := true) : Except Raised (Db × Option CreditLedger) :=
  let newBalance := account.balance + delta
  let entry : CreditLedger :=
    { id := db.ledger.length, userId := userId, delta := delta, balanceAfter := newBalance, reason := reason,
      refType := refType, refId := refId, actorId := actorId, note := note, createdAt := now }
  if !(fitsBigInt delta && fitsBigInt newBalance && refFits refType refId) then .error .dataError
  else if db.ledger.any (fun row => row.clashes reason refType refId) then .ok (db, none)
  else
    let account' := account.apply delta countTowardLifetime
    if !account'.fits then .error .dataError
    else .ok ({ db.setAccount userId account' with ledger := db.ledger ++ [entry] }, some entry)

/-! ## granting, charging, adjusting -/

def grant (now : Int) (db : Db) (userId : UserId) (amount : ℚ) (reason : GrantReason) (refType refId : Option String)
    (actorId : Option UserId) (note : Option String) : Except Raised (Db × Option CreditLedger) :=
  if amount ≤ 0 then .error (.creditError "credit_grant_invalid" "发放积分必须为正数" 400)
  else
    let (db, account) := lockedAccount db userId
    writeEntry now db userId account (pyInt amount) reason.toReason refType refId actorId note

def chargeUsage (now : Int) (db : Db) (userId : UserId) (amount : ℚ) (refType refId : String) (note : Option String) :
    Except Raised (Db × Option CreditLedger) :=
  if amount ≤ 0 then .ok (db, none)
  else
    let (db, account) := lockedAccount db userId
    writeEntry now db userId account (-pyInt amount) .usage (some refType) (some refId) none note

def adjust (policy : CreditPolicy) (now : Int) (db : Db) (userId : UserId) (delta : ℚ) (actorId : UserId)
    (note : Option String) : Except Raised (Db × CreditLedger) :=
  if pyInt delta = 0 then .error (.creditError "credit_adjust_zero" "调分数量不能为 0" 400)
  else if ((pyInt delta).natAbs : Int) > policy.maxAdjust then
    .error (.creditError "credit_adjust_too_large" ("单次调分绝对值不能超过 " ++ toString policy.maxAdjust) 400)
  else
    let (db, account) := lockedAccount db userId
    match writeEntry now db userId account (pyInt delta) .adminAdjust none none (some actorId) note with
    | .error e => .error e
    | .ok (_, none) => .error (.creditError "credit_adjust_failed" "调分失败" 400)
    | .ok (db, some entry) => .ok (db, entry)

/-! ## the reservation of a turn -/

structure TurnHold where
  userId : UserId
  turnKey : String
  amount : Int
  deriving DecidableEq

def CreditPolicy.reserve (policy : CreditPolicy) : Int :=
  if policy.turnReserve ≤ 0 then 1 else policy.turnReserve

/-- `turn_key or str(uuid.uuid4())`. -/
def turnKeyOr (turnKey : Option String) (fresh : String) : String :=
  match turnKey with
  | none => fresh
  | some key => if key = "" then fresh else key

def admitTurn (policy : CreditPolicy) (now : Int) (fresh : String) (db : Db) (userId : UserId)
    (turnKey : Option String) : Except Raised (Db × Option TurnHold) :=
  if !policy.enforced then .ok (db, none)
  else
    let key := turnKeyOr turnKey fresh
    let (db, account) := lockedAccount db userId
    if account.balance < policy.reserve then
      .error (.creditError "insufficient_credits" "积分不足，请先兑换后再继续对话" 402)
    else
      match writeEntry now db userId account (-policy.reserve) .turnHold (some "turn_hold") (some key) none none
        false with
      | .error e => .error e
      | .ok (db, _) => .ok (db, some ⟨userId, key, policy.reserve⟩)

/-- `_release_hold_in`, and the body of `release_turn_hold`. -/
def releaseHoldIn (now : Int) (db : Db) (hold : TurnHold) : Except Raised (Db × Option CreditLedger) :=
  let (db, account) := lockedAccount db hold.userId
  writeEntry now db hold.userId account hold.amount .turnHoldRelease (some "turn_hold_release") (some hold.turnKey)
    none none false

def releaseTurnHold (now : Int) (db : Db) : Option TurnHold → Except Raised (Db × Option CreditLedger)
  | none => .ok (db, none)
  | some hold => releaseHoldIn now db hold

/-! ## the stale-hold sweep -/

def releasedKeys (rows : List CreditLedger) : List String :=
  (rows.filter (fun row => row.reason == .turnHoldRelease)).filterMap (·.refId)

def staleHolds (cutoff : Int) (rows : List CreditLedger) : List CreditLedger :=
  (rows.filter (fun row => row.reason == .turnHold && decide (row.createdAt < cutoff))).take 500

def releaseEach (now : Int) (released : List String) : List CreditLedger → Db → Except Raised (Db × Nat)
  | [], db => .ok (db, 0)
  | entry :: entries, db =>
    match entry.refId with
    | none => releaseEach now released entries db
    | some key =>
      if released.contains key then releaseEach now released entries db
      else
        match releaseHoldIn now db ⟨entry.userId, key, -entry.delta⟩ with
        | .error e => .error e
        | .ok (db, row) =>
          match releaseEach now released entries db with
          | .error e => .error e
          | .ok (db, n) => .ok (db, n + if row.isSome then 1 else 0)

def microsPerSecond : Int := 1000000

/-- `release_stale_turn_holds`.  Its two reads lock nothing and come before its writes: `seenReleases` and `seenHolds`
say which rows of the ledger each of them saw. -/
def releaseStaleTurnHolds (now : Int) (seenReleases seenHolds : CreditLedger → Bool) (olderThanSeconds : Int) (db : Db) :
    Except Raised (Db × Nat) :=
  let cutoff := now - max olderThanSeconds 60 * microsPerSecond
  releaseEach now (releasedKeys (db.ledger.filter seenReleases)) (staleHolds cutoff (db.ledger.filter seenHolds)) db

/-! ## the ledger operations as one step -/

inductive Op
  | grant (userId : UserId) (amount : ℚ) (reason : GrantReason) (refType refId : Option String)
      (actorId : Option UserId) (note : Option String)
  | chargeUsage (userId : UserId) (amount : ℚ) (refType refId : String) (note : Option String)
  | adjust (userId : UserId) (delta : ℚ) (actorId : UserId) (note : Option String)
  | admitTurn (userId : UserId) (turnKey : Option String) (fresh : String)
  | releaseTurnHold (hold : Option TurnHold)
  | releaseStaleTurnHolds (seenReleases seenHolds : CreditLedger → Bool) (olderThanSeconds : Int)

structure Call where
  op : Op
  now : Int := 0
  policy : CreditPolicy := {}

def Call.run (c : Call) (db : Db) : Except Raised Db :=
  match c.op with
  | .grant u amount reason refType refId actorId note =>
    (grant c.now db u amount reason refType refId actorId note).map Prod.fst
  | .chargeUsage u amount refType refId note => (chargeUsage c.now db u amount refType refId note).map Prod.fst
  | .adjust u delta actorId note => (adjust c.policy c.now db u delta actorId note).map Prod.fst
  | .admitTurn u turnKey fresh => (admitTurn c.policy c.now fresh db u turnKey).map Prod.fst
  | .releaseTurnHold hold => (releaseTurnHold c.now db hold).map Prod.fst
  | .releaseStaleTurnHolds seenReleases seenHolds olderThanSeconds =>
    (releaseStaleTurnHolds c.now seenReleases seenHolds olderThanSeconds db).map Prod.fst

def Db.step (db : Db) (c : Call) : Db :=
  match c.run db with
  | .ok db' => db'
  | .error _ => db

def Db.runAll (db : Db) (calls : List Call) : Db := calls.foldl Db.step db

end Credit
end MyGpt
