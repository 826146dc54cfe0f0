import MyGpt.Characters
import MyGpt.Lib.Trace
import Mathlib.Logic.Function.Basic
/-!
# WechatLogin — scan logins, binds and unbinds over accounts and identities

`wechat_login_service` for any number of calls at once: what a call reads it reads in one step, and it commits in another.
An INSERT waits for an equal row that is not committed yet and fails on one that is.  The codes are redeemed before.
-/
namespace MyGpt
namespace Wechat

open Chat (Text)

/-- A row of `users`; its id is its place. -/
structure User where
  email : Text
  username : Text
  active : Bool
  deriving DecidableEq

/-- A row of `wechat_identities`. -/
structure Identity where
  id : Nat
  openid : Text
  user : Nat
  deriving DecidableEq

def syntheticDomain : Text := "@wechat.local".toList

def syntheticEmail (openid : Text) : Text := "wx_".toList ++ openid ++ syntheticDomain

def baseUsername (openid : Text) : Text := "微信用户".toList ++ openid.drop (openid.length - 6)

/-- `_unique_username`: `tries` candidates are looked up, the next is not. -/
def uniqueUsername (taken : Text → Bool) (base candidate : Text) : Nat → List Text → Text
  | 0, draws => base ++ draws.headD []
  | tries + 1, draws =>
    if taken candidate then uniqueUsername taken base (base ++ draws.headD []) tries draws.tail else candidate

/-- `login_with_code` of an openid that is bound to no account. -/
inductive Login
  | idle
  | naming (openid : Text)
  | inserting (openid username : Text)
  | binding (openid : Text)
  | rereading (openid : Text)
  | done
  deriving DecidableEq

/-- `bind_openid` of an openid that is bound to no account. -/
inductive Bind
  | idle
  | reading (user : Nat) (openid : Text)
  | committing (user : Nat) (openid : Text) (mine : Option Nat)
  | done

/-- `unbind` of an account that has a binding. -/
inductive Unbind
  | idle
  | deleting (user mine : Nat)
  | done

inductive Result
  | ok (user : Nat)
  | disabled
  /-- An `IntegrityError`. -/
  | raised
  deriving DecidableEq

structure Served where
  openid : Text
  result : Result
  account : Option (Nat × User)
  deriving DecidableEq

structure State where
  users : List User
  identities : List Identity
  nextIdentity : Nat
  pending : List (Nat × User)
  logins : Nat → Login
  binds : Nat → Bind
  unbinds : Nat → Unbind
  log : List Served

def State.start : State := ⟨[], [], 0, [], fun _ => .idle, fun _ => .idle, fun _ => .idle, []⟩

inductive Act
  | registers (email username : Text)
  | setsActive (user : Nat) (active : Bool)
  | scans (t : Nat) (openid : Text)
  | names (t : Nat) (draws : List Text)
  | flushes (t : Nat)
  | commits (t : Nat)
  | rereads (t : Nat)
  | binds (b user : Nat) (openid : Text)
  | bindReads (b : Nat)
  | bindCommits (b : Nat)
  | unbinds (d user : Nat)
  | unbindCommits (d : Nat)

def State.identity (s : State) (openid : Text) : Option Identity := s.identities.find? (fun i => i.openid = openid)

/-- `_user_for_openid`. -/
def State.account (s : State) (openid : Text) : Option (Nat × User) :=
  (s.identity openid).bind (fun i => (s.users[i.user]?).map (fun user => (i.user, user)))

def State.taken (s : State) (username : Text) : Bool := s.users.any (fun user => user.username = username)

/-- The check of `is_active`. -/
def enter (account : Nat × User) : Result := if account.2.active then .ok account.1 else .disabled

def State.setLogin (s : State) (t : Nat) (login : Login) : State := { s with logins := Function.update s.logins t login }

def State.setBind (s : State) (b : Nat) (bind : Bind) : State := { s with binds := Function.update s.binds b bind }

def State.setUnbind (s : State) (d : Nat) (unbind : Unbind) : State := { s with unbinds := Function.update s.unbinds d unbind }

def State.serve (s : State) (t : Nat) (openid : Text) (result : Result) : State :=
  { s with logins := Function.update s.logins t .done, log := s.log ++ [⟨openid, result, s.account openid⟩] }

def User.clashes (user other : User) : Bool := other.email = user.email || other.username = user.username

def State.createAccount (s : State) (t : Nat) (openid : Text) (user : User) : State :=
  let created : State := { s with
    users := s.users ++ [user]
    identities := s.identities ++ [⟨s.nextIdentity, openid, s.users.length⟩]
    nextIdentity := s.nextIdentity + 1
    pending := s.pending.filter (fun p => p.1 ≠ t) }
  created.serve t openid (.ok s.users.length)

def State.attach (s : State) (user : Nat) (openid : Text) (mine : Option Nat) : State :=
  { s with
    identities := s.identities.filter (fun i => some i.id ≠ mine) ++ [⟨s.nextIdentity, openid, user⟩]
    nextIdentity := s.nextIdentity + 1 }

def State.detach (s : State) (mine : Nat) : State := { s with identities := s.identities.filter (fun i => i.id ≠ mine) }

def step (s : State) : Act → Option State
  | .registers email username =>
    -- a validated email is never of the reserved domain
    let user : User := ⟨email, username, true⟩
    if syntheticDomain.isSuffixOf email || s.users.any user.clashes || s.pending.any (fun p => user.clashes p.2) then none
    else some { s with users := s.users ++ [user] }
  | .setsActive user active => some { s with users := s.users.modify user (fun u => { u with active := active }) }
  | .scans t openid =>
    match s.logins t with
    | .idle =>
      match s.account openid with
      | some account => some (s.serve t openid (enter account))
      | none => some (s.setLogin t (.naming openid))
    | _ => none
  | .names t draws =>
    -- a name that was taken when it was looked up is taken still
    match s.logins t with
    | .naming openid =>
      some (s.setLogin t (.inserting openid (uniqueUsername s.taken (baseUsername openid) (baseUsername openid) 5 draws)))
    | _ => none
  | .flushes t =>
    match s.logins t with
    | .inserting openid username =>
      let user : User := ⟨syntheticEmail openid, username, true⟩
      if s.pending.any (fun p => user.clashes p.2) then none
      else if s.users.any user.clashes then some (s.setLogin t (.rereading openid))
      else
        let flushed : State := { s with pending := (t, user) :: s.pending }
        some (flushed.setLogin t (.binding openid))
    | _ => none
  | .commits t =>
    match s.logins t, s.pending.find? (fun p => p.1 = t) with
    | .binding openid, some (_, user) =>
      match s.identity openid with
      | some _ =>
        let rolledBack : State := { s with pending := s.pending.filter (fun p => p.1 ≠ t) }
        some (rolledBack.serve t openid .raised)
      | none => some (s.createAccount t openid user)
    | _, _ => none
  | .rereads t =>
    match s.logins t with
    | .rereading openid =>
      match s.account openid with
      | some account => some (s.serve t openid (enter account))
      | none => some (s.serve t openid .raised)
    | _ => none
  | .binds b user openid =>
    match s.binds b with
    | .idle =>
      if user < s.users.length then
        -- bound to this account or to another one
        if (s.identity openid).isSome then some (s.setBind b .done) else some (s.setBind b (.reading user openid))
      else none
    | _ => none
  | .bindReads b =>
    match s.binds b with
    | .reading user openid =>
      some (s.setBind b (.committing user openid ((s.identities.find? (fun i => i.user = user)).map (·.id))))
    | _ => none
  | .bindCommits b =>
    match s.binds b with
    | .committing user openid mine =>
      if (s.identity openid).isSome then some (s.setBind b .done) else some ((s.attach user openid mine).setBind b .done)
    | _ => none
  | .unbinds d user =>
    match s.unbinds d with
    | .idle =>
      match s.identities.find? (fun i => i.user = user) with
      | some i => some (s.setUnbind d (.deleting user i.id))
      | none => some (s.setUnbind d .done)
    | _ => none
  | .unbindCommits d =>
    match s.unbinds d with
    | .deleting _ mine => some ((s.detach mine).setUnbind d .done)
    | _ => none

def alone (s : State) (t : Nat) (openid : Text) (draws : List Text) : Option State :=
  (step s (.scans t openid)).bind (fun s' =>
    if s'.logins t = .done then some s' else Trace.exec step s' [.names t draws, .flushes t, .commits t])

end Wechat
end MyGpt
