import MyGpt.CreditLedger
/-!
# RedeemCodes — redeeming a code, and voiding a batch

`services/redeem_service.py` as transactions over the tables of the codes and of the credits.  A call is a session that
runs one statement after the other: what it writes is seen by the others at its commit, the rows it has updated are locked
until then, and a session that fails at any statement leaves nothing.
-/
namespace MyGpt
namespace Redeem

open Credit (UserId CreditAccount CreditLedger Raised grant)

abbrev CodeId := String

abbrev BatchId := Nat

/-- `redeem_codes.status`. -/
inductive CodeStatus
  | active | redeemed | void
  deriving DecidableEq

structure RedeemCode where
  batchId : BatchId
  status : CodeStatus := .active
  redeemedBy : Option UserId := none
  redeemedAt : Option Int := none
  deriving DecidableEq

structure RedeemCodeBatch where
  name : String
  creditsPerCode : Int
  expiresAt : Option Int := none
  deriving DecidableEq

structure RedeemResult where
  creditsAdded : Int
  balance : Int
  batchName : String
  deriving DecidableEq

/-- What the caller gets; `lost`: the call broke off. -/
inductive Reply
  | redeemed (result : RedeemResult)
  | voided (count : Nat)
  | raised (error : Raised)
  | lost
  deriving DecidableEq

/-- A code that a session of `redeem` works on. -/
structure Found where
  user : UserId
  code : CodeId
  batch : RedeemCodeBatch
  deriving DecidableEq

inductive Session
  | idle
  /-- `redeem` after its SELECT and its checks -/
  | found (f : Found)
  | claimed (f : Found) (at_ : Int)
  /-- after `grant`, with the account and the ledger row it has written -/
  | granted (f : Found) (at_ : Int) (account : CreditAccount) (entry : Option CreditLedger)
  /-- the UPDATE of `void_batch`, with the codes it has voided so far -/
  | voiding (batch : BatchId) (taken : List CodeId)
  | replied (reply : Reply)
  deriving DecidableEq

def Session.locks : Session → List CodeId
  | .claimed f _ | .granted f _ _ _ => [f.code]
  | .voiding _ taken => taken
  | _ => []

def Session.account : Session → Option UserId
  | .granted f _ _ _ => some f.user
  | _ => none

structure World where
  codes : CodeId → Option RedeemCode
  ids : List CodeId
  byHash : String → Option CodeId
  batches : BatchId → Option RedeemCodeBatch
  credit : Credit.Db := {}
  sessions : Nat → Session := fun _ => .idle
  started : List Nat := []

def notFound : Raised := .creditError "redeem_code_not_found" "兑换码不存在，请检查是否输入有误" 404

def codeVoid : Raised := .creditError "redeem_code_void" "该兑换码已作废" 410

def codeUsed : Raised := .creditError "redeem_code_used" "该兑换码已被使用" 409

def codeExpired : Raised := .creditError "redeem_code_expired" "该兑换码已过期" 410

/-- The SELECT of `redeem`, and the checks on what it reads; `digest` is the hash of the code, once it is normalized. -/
def lookup (w : World) (user : UserId) (digest : Option String) (now : Int) : Except Raised Found :=
  match digest.bind w.byHash with
  | none => .error notFound
  | some code =>
    match w.codes code with
    | none => .error notFound
    | some row =>
      match w.batches row.batchId with
      | none => .error notFound
      | some batch =>
        if row.status = .void then .error codeVoid
        else if row.status = .redeemed then .error codeUsed
        else if batch.expiresAt.any (· ≤ now) then .error codeExpired
        else .ok ⟨user, code, batch⟩

inductive Act
  | redeem (sid : Nat) (user : UserId) (digest : Option String) (now : Int)
  | claim (sid : Nat) (now : Int)
  | grant (sid : Nat) (now : Int)
  | voidBatch (sid : Nat) (batch : BatchId)
  | voidRow (sid : Nat) (code : CodeId)
  | commit (sid : Nat)
  | fail (sid : Nat)
  deriving DecidableEq

def Act.sid : Act → Nat
  | .redeem sid _ _ _ | .claim sid _ | .grant sid _ | .voidBatch sid _ | .voidRow sid _ | .commit sid | .fail sid => sid

def World.setSession (w : World) (sid : Nat) (s : Session) : World :=
  { w with sessions := Function.update w.sessions sid s, started := sid :: w.started }

def World.codeLocked (w : World) (sid : Nat) (code : CodeId) : Bool :=
  w.started.any (fun other => other != sid && (w.sessions other).locks.contains code)

def World.accountLocked (w : World) (sid : Nat) (user : UserId) : Bool :=
  w.started.any (fun other => other != sid && (w.sessions other).account == some user)

def World.active? (w : World) (code : CodeId) : Option RedeemCode := (w.codes code).filter (·.status = .active)

def World.allTaken (w : World) (batch : BatchId) (taken : List CodeId) : Bool :=
  w.ids.all (fun code => (w.active? code).all (fun row => row.batchId != batch || taken.contains code))

/-- `status='redeemed'`, as the UPDATE of `redeem` writes it. -/
def RedeemCode.redeem (row : RedeemCode) (user : UserId) (now : Int) : RedeemCode :=
  { row with status := .redeemed, redeemedBy := some user, redeemedAt := some now }

def RedeemCode.void (row : RedeemCode) : RedeemCode := { row with status := .void }

def World.updateCodes (w : World) (taken : List CodeId) (update : RedeemCode → RedeemCode) : World :=
  { w with codes := fun code => if taken.contains code then (w.codes code).map update else w.codes code }

/-- The rows `grant` wrote, seen by all. -/
def World.post (w : World) (user : UserId) (account : CreditAccount) (entry : Option CreditLedger) : World :=
  { w with credit :=
      { w.credit.setAccount user account with
        ledger := w.credit.ledger ++ (entry.map (fun e => { e with id := w.credit.ledger.length })).toList } }

/-- `read_account` in the transaction of the session, and the answer. -/
def resultOf (f : Found) (account : CreditAccount) : RedeemResult := ⟨f.batch.creditsPerCode, account.balance, f.batch.name⟩

/-- One statement of one session; `none`: it is not its turn, or it waits for a row. -/
def step (w : World) : Act → Option World
  | .redeem sid user digest now =>
    if w.sessions sid ≠ .idle then none
    else
      match lookup w user digest now with
      | .ok f => some (w.setSession sid (.found f))
      | .error e => some (w.setSession sid (.replied (.raised e)))
  | .claim sid now =>
    match w.sessions sid with
    | .found f =>
      if w.codeLocked sid f.code then none
      else
        match w.active? f.code with
        | some _ => some (w.setSession sid (.claimed f now))
        | none => some (w.setSession sid (.replied (.raised codeUsed)))
    | _ => none
  | .grant sid now =>
    match w.sessions sid with
    | .claimed f at_ =>
      if w.accountLocked sid f.user then none
      else
        match grant now w.credit f.user f.batch.creditsPerCode .redeem (some "redeem_code") (some f.code) (some f.user)
            (some f.batch.name) with
        | .ok (db, entry) => some (w.setSession sid (.granted f at_ ((db.accounts f.user).getD {}) entry))
        | .error e => some (w.setSession sid (.replied (.raised e)))
    | _ => none
  | .voidBatch sid batch => if w.sessions sid ≠ .idle then none else some (w.setSession sid (.voiding batch []))
  | .voidRow sid code =>
    match w.sessions sid with
    | .voiding batch taken =>
      if w.codeLocked sid code || taken.contains code then none
      else
        match w.active? code with
        | some row => if row.batchId = batch then some (w.setSession sid (.voiding batch (code :: taken))) else none
        | none => none
    | _ => none
  | .commit sid =>
    match w.sessions sid with
    | .granted f at_ account entry =>
      some (((w.updateCodes [f.code] (·.redeem f.user at_)).post f.user account entry).setSession sid
        (.replied (.redeemed (resultOf f account))))
    | .voiding batch taken =>
      if w.allTaken batch taken then
        some ((w.updateCodes taken (·.void)).setSession sid (.replied (.voided taken.length)))
      else none
    | _ => none
  | .fail sid =>
    match w.sessions sid with
    | .replied _ => none
    | _ => some (w.setSession sid (.replied .lost))

/-! ## the grants of a code -/

def grantsCode (code : CodeId) (row : CreditLedger) : Bool := row.clashes .redeem (some "redeem_code") (some code)

def grantRows (db : Credit.Db) (code : CodeId) : List CreditLedger := db.ledger.filter (grantsCode code)

end Redeem
end MyGpt
