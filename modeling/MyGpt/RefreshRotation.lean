import MyGpt.TokenStore
/-!
# RefreshRotation — exchanging a refresh token

Requests of `/auth/refresh` with one token, in any processes, with logouts and changes of the user beside them.  A request
checks the token, loads the user, revokes the token and mints a pair, and other requests run between these.
-/
namespace MyGpt
namespace Auth
namespace Rotation

open Trace (Runs Reaches play reaches_play)

structure User where
  active : Bool
  version : Int
  deriving DecidableEq

inductive Phase
  | arrived
  /-- The token has passed `is_refresh_valid` in this process. -/
  | checked (p : Nat)
  | loaded (p : Nat) (version : Int)
  /-- `revoke_refresh` has returned. -/
  | revoked (version : Int)
  | exchanged
  | refused
  | failed
  deriving DecidableEq

def Phase.inside : Phase → Bool
  | .checked _ => true
  | .loaded _ _ => true
  | .revoked _ => true
  | _ => false

def Phase.version : Phase → Option Int
  | .loaded _ v => some v
  | .revoked v => some v
  | _ => none

structure Mint where
  request : Nat
  closed : Bool
  version : Option Int

structure State where
  books : Books
  user : Option User
  requests : Nat → Phase
  closed : Bool
  minted : List Mint

def State.setRequest (s : State) (r : Nat) (phase : Phase) : State :=
  { s with requests := Function.update s.requests r phase }

inductive Act
  | store (act : Auth.Act)
  | checks (r p : Nat) (reach : Reach)
  | loads (r : Nat)
  | revokes (r : Nat) (reach : Reach)
  | mints (r : Nat)
  | logout (p : Nat) (reach : Reach)
  | writesUser (user : User)
  | deletesUser

section
variable (cfg : Settings) (installed : Nat → Bool) (token : Token)

def Token.sameVersion (token : Token) (version : Int) : Bool := token.ver.all (· == version)

def load (s : State) (r p : Nat) : State :=
  match s.user with
  | none => s.setRequest r .refused
  | some user =>
    if !user.active then s.setRequest r .refused
    else if !Token.sameVersion token user.version then s.setRequest r .refused
    else s.setRequest r (.loaded p user.version)

def step (s : State) : Act → Option State
  | .store act => (Auth.step cfg installed s.books act).map (fun books => { s with books := books })
  | .checks r p reach =>
    match s.requests r with
    | .arrived =>
      let s' := { s with books := { s.books with stores := s.books.stores.connect installed p reach } }
      match isRefreshValid installed s.books.stores p token reach with
      | some true => some (s'.setRequest r (.checked p))
      | some false => some (s'.setRequest r .refused)
      | none => some (s'.setRequest r .failed)
    | _ => none
  | .loads r =>
    match s.requests r with
    | .checked p => some (load token s r p)
    | _ => none
  | .revokes r reach =>
    match s.requests r with
    | .loaded p v =>
      (Auth.step cfg installed s.books (.revokesRefresh p token reach)).map (fun books =>
        ({ s with books := books }.setRequest r
          (if (revokeRefresh cfg installed s.books.stores p token reach).2 then .revoked v else .failed)))
    | _ => none
  | .mints r =>
    match s.requests r with
    | .revoked _ =>
      some ({ s with minted := ⟨r, s.closed, s.user.map User.version⟩ :: s.minted, closed := true }.setRequest r .exchanged)
    | _ => none
  | .logout p reach =>
    (Auth.step cfg installed s.books (.revokesRefresh p token reach)).map (fun books => { s with books := books, closed := true })
  | .writesUser user => s.user.map (fun _ => { s with user := some user })
  | .deletesUser => some { s with user := none }

/-- **Single use**: one pair at most, none after a logout or a rotation has returned, and none across versions. -/
structure State.SingleUse (s : State) : Prop where
  once : s.minted.length ≤ 1
  notAfter : ∀ m ∈ s.minted, m.closed = false
  sameVersion : ∀ m ∈ s.minted, ∀ v u, token.ver = some v → m.version = some u → v = u

/-- **One at a time**: a request checks the token, and a logout revokes it, while no other request is between its check and
its pair; a check looks where a revocation of the token went, and the logout's does not fail; and the user keeps its version
while a request has loaded it. -/
def RefreshOk (s : State) : Act → Prop
  | .store act => RevokeOk cfg installed s.books act
  | .checks _ p reach => (∀ x, (s.requests x).inside = false) ∧
      ((∃ q ∈ s.books.revoked, q.token = token) → ∃ q ∈ s.books.revoked, q.token = token ∧
        asks installed s.books.stores p token reach = some q.place ∧ (q.place = .memory → q.process = p))
  | .revokes r reach => ∀ p v, s.requests r = .loaded p v → RevokeOk cfg installed s.books (.revokesRefresh p token reach)
  | .logout p reach => (∀ x, (s.requests x).inside = false) ∧ RevokeOk cfg installed s.books (.revokesRefresh p token reach) ∧
      (revokeRefresh cfg installed s.books.stores p token reach).2 = true
  | .writesUser user => (∃ x, (s.requests x).version.isSome) → ∀ before, s.user = some before → user.version = before.version
  | _ => True

structure RotationInv (s : State) : Prop where
  books : RevokedInv cfg s.books
  alone : ∀ x y, (s.requests x).inside = true → (s.requests y).inside = true → x = y
  unspent : ∀ x, (s.requests x).inside = true → s.minted = [] ∧ s.closed = false
  spent : s.minted ≠ [] ∨ s.closed = true → ∃ q ∈ s.books.revoked, q.token = token
  revoked : ∀ x v, s.requests x = .revoked v → ∃ q ∈ s.books.revoked, q.token = token
  version : ∀ x v, (s.requests x).version = some v →
    (∀ u, token.ver = some u → u = v) ∧ ∀ user, s.user = some user → user.version = v
  singleUse : s.SingleUse token

end

section
variable {cfg : Settings} {installed : Nat → Bool} {token : Token} {s s' : State}

@[simp] theorem setRequest_self (s : State) (r : Nat) (phase : Phase) : (s.setRequest r phase).requests r = phase := by
  simp [State.setRequest]

theorem setRequest_ne (s : State) {r x : Nat} (phase : Phase) (h : x ≠ r) : (s.setRequest r phase).requests x = s.requests x := by
  simp [State.setRequest, h]

theorem revoked_grows {b b' : Books} {act : Auth.Act} (h : Auth.step cfg installed b act = some b') {q : Revocation}
    (hq : q ∈ b.revoked) : q ∈ b'.revoked := by
  cases act with
  | revokesRefresh p token reach =>
    rw [step_revokesRefresh] at h
    cases h
    split
    · exact List.mem_cons_of_mem _ hq
    · exact hq
  | blacklistsAccess p token reach =>
    cases h
    exact List.mem_cons_of_mem _ hq
  | passes | checks =>
    cases h
    exact hq

theorem recorded {b b' : Books} {p : Nat} {reach : Reach} (h : Auth.step cfg installed b (.revokesRefresh p token reach) = some b')
    (hreturned : (revokeRefresh cfg installed b.stores p token reach).2 = true) : ∃ q ∈ b'.revoked, q.token = token := by
  rw [step_revokesRefresh, hreturned] at h
  cases h
  exact ⟨_, List.mem_cons_self, rfl⟩

theorem valid_decodes {st : Stores} {p : Nat} {reach : Reach} (h : isRefreshValid installed st p token reach = some true) :
    token.decodes st.now = true ∧ token.type = .refresh := by
  unfold isRefreshValid at h
  split at h
  next hcond =>
    simp only [Bool.and_eq_true, beq_iff_eq] at hcond
    exact hcond
  next => cases h

theorem check_refuses (hs : RevokedInv cfg s.books) {p : Nat} {reach : Reach}
    (hlooks : ∃ q ∈ s.books.revoked, q.token = token ∧ asks installed s.books.stores p token reach = some q.place ∧
      (q.place = .memory → q.process = p)) :
    isRefreshValid installed s.books.stores p token reach ≠ some true := by
  intro hvalid
  obtain ⟨q, hq, rfl, hasks, hprocess⟩ := hlooks
  obtain ⟨k, exp, hstored⟩ := hs q hq
  obtain ⟨hdecodes, htype⟩ := valid_decodes hvalid
  have hreports := reports_of_stored hstored ((decodes_iff hstored.expires).1 hdecodes) hasks hprocess
  unfold reportsRevoked at hreports
  rw [htype, hvalid] at hreports
  cases hreports

theorem inside_of_version {phase : Phase} {v : Int} (h : phase.version = some v) : phase.inside = true := by
  cases phase with
  | loaded p v => rfl
  | revoked v => rfl
  | _ => cases h

/-! ## what a step preserves -/

theorem rotationInv_books {books : Books} (hs : RotationInv cfg token s) (hbooks : RevokedInv cfg books)
    (hgrows : ∀ q ∈ s.books.revoked, q ∈ books.revoked) : RotationInv cfg token { s with books := books } := by
  refine ⟨hbooks, hs.alone, hs.unspent, fun h => ?_, fun x v h => ?_, hs.version, ⟨hs.singleUse.1, hs.singleUse.2, hs.singleUse.3⟩⟩
  · obtain ⟨q, hq, htoken⟩ := hs.spent h
    exact ⟨q, hgrows q hq, htoken⟩
  · obtain ⟨q, hq, htoken⟩ := hs.revoked x v h
    exact ⟨q, hgrows q hq, htoken⟩

/-- **One request moves**: it goes inside only when no other is there and the token is unspent. -/
theorem rotationInv_moves (hs : RotationInv cfg token s) {r : Nat} {phase : Phase}
    (hinside : phase.inside = true → (∀ x, x ≠ r → (s.requests x).inside = false) ∧ s.minted = [] ∧ s.closed = false)
    (hrevoked : ∀ v, phase = .revoked v → ∃ q ∈ s.books.revoked, q.token = token)
    (hversion : ∀ v, phase.version = some v →
      (∀ u, token.ver = some u → u = v) ∧ ∀ user, s.user = some user → user.version = v) :
    RotationInv cfg token (s.setRequest r phase) := by
  refine ⟨hs.books, fun x y hx hy => ?_, fun x hx => ?_, hs.spent, fun x v hx => ?_, fun x v hx => ?_,
    ⟨hs.singleUse.1, hs.singleUse.2, hs.singleUse.3⟩⟩
  · by_cases hxr : x = r
    · by_cases hyr : y = r
      · rw [hxr, hyr]
      · rw [hxr, setRequest_self] at hx
        rw [setRequest_ne s phase hyr, (hinside hx).1 y hyr] at hy
        cases hy
    · by_cases hyr : y = r
      · rw [hyr, setRequest_self] at hy
        rw [setRequest_ne s phase hxr, (hinside hy).1 x hxr] at hx
        cases hx
      · rw [setRequest_ne s phase hxr] at hx
        rw [setRequest_ne s phase hyr] at hy
        exact hs.alone x y hx hy
  · by_cases hxr : x = r
    · rw [hxr, setRequest_self] at hx
      exact (hinside hx).2
    · rw [setRequest_ne s phase hxr] at hx
      exact hs.unspent x hx
  · by_cases hxr : x = r
    · rw [hxr, setRequest_self] at hx
      exact hrevoked v hx
    · rw [setRequest_ne s phase hxr] at hx
      exact hs.revoked x v hx
  · by_cases hxr : x = r
    · rw [hxr, setRequest_self] at hx
      exact hversion v hx
    · rw [setRequest_ne s phase hxr] at hx
      exact hs.version x v hx

theorem rotationInv_leaves (hs : RotationInv cfg token s) {r : Nat} {phase : Phase} (h : phase.inside = false) :
    RotationInv cfg token (s.setRequest r phase) := by
  refine rotationInv_moves hs (fun hin => ?_) (fun v hv => ?_) (fun v hv => ?_)
  · rw [h] at hin
    cases hin
  · rw [hv] at h
    cases h
  · rw [inside_of_version hv] at h
    cases h

theorem rotationInv_goesOn (hs : RotationInv cfg token s) {r : Nat} {phase : Phase} (h : (s.requests r).inside = true)
    (hrevoked : ∀ v, phase = .revoked v → ∃ q ∈ s.books.revoked, q.token = token)
    (hversion : ∀ v, phase.version = some v →
      (∀ u, token.ver = some u → u = v) ∧ ∀ user, s.user = some user → user.version = v) :
    RotationInv cfg token (s.setRequest r phase) := by
  refine rotationInv_moves hs (fun _ => ⟨fun x hx => ?_, hs.unspent r h⟩) hrevoked hversion
  cases hin : (s.requests x).inside
  · rfl
  · exact absurd (hs.alone x r hin h) hx

theorem rotationInv_load (hs : RotationInv cfg token s) {r p : Nat} (hphase : s.requests r = .checked p) :
    RotationInv cfg token (load token s r p) := by
  unfold load
  split
  next => exact rotationInv_leaves hs rfl
  next user huser =>
    split
    next => exact rotationInv_leaves hs rfl
    next =>
      split
      next => exact rotationInv_leaves hs rfl
      next hsame =>
        refine rotationInv_goesOn hs (by rw [hphase]; rfl) (fun v h => by cases h) (fun v hv => ⟨fun u hu => ?_, fun user' h => ?_⟩)
        · cases hv
          unfold Token.sameVersion at hsame
          rw [hu] at hsame
          simpa using hsame
        · cases huser.symm.trans h
          exact Option.some.inj hv

theorem rotationInv_mints (hs : RotationInv cfg token s) {r : Nat} {v : Int} (hphase : s.requests r = .revoked v) :
    RotationInv cfg token
      ({ s with minted := ⟨r, s.closed, s.user.map User.version⟩ :: s.minted, closed := true }.setRequest r .exchanged) := by
  have hin : (s.requests r).inside = true := by rw [hphase]; rfl
  obtain ⟨hnone, hopen⟩ := hs.unspent r hin
  obtain ⟨htoken, huser⟩ := hs.version r v (by rw [hphase]; rfl)
  have hout : ∀ x, (Function.update s.requests r .exchanged x).inside = false := by
    intro x
    by_cases hx : x = r
    · rw [hx, Function.update_self]
      rfl
    · rw [Function.update_of_ne hx]
      cases hxin : (s.requests x).inside
      · rfl
      · exact absurd (hs.alone x r hxin hin) hx
  have hnot : ∀ {x}, (Function.update s.requests r .exchanged x).inside = true → False := by
    intro x hx
    rw [hout x] at hx
    cases hx
  refine ⟨hs.books, fun x y hx _ => (hnot hx).elim, fun x hx => (hnot hx).elim, fun _ => hs.revoked r v hphase,
    fun x u hx => (hnot (x := x) ?_).elim, fun x u hx => (hnot (inside_of_version hx)).elim, ?_, ?_, ?_⟩
  · rw [show Function.update s.requests r .exchanged x = .revoked u from hx]
    rfl
  · show (_ :: s.minted).length ≤ 1
    rw [hnone]
    exact Nat.le_refl 1
  · intro m hm
    replace hm : m ∈ (⟨r, s.closed, s.user.map User.version⟩ : Mint) :: s.minted := hm
    rw [hnone] at hm
    obtain rfl := List.mem_singleton.1 hm
    exact hopen
  · intro m hm u u' hver hm'
    replace hm : m ∈ (⟨r, s.closed, s.user.map User.version⟩ : Mint) :: s.minted := hm
    rw [hnone] at hm
    obtain rfl := List.mem_singleton.1 hm
    obtain ⟨user, hu, rfl⟩ := Option.map_eq_some_iff.1 hm'
    rw [htoken u hver, huser user hu]

theorem rotationInv_step {act : Act} (hs : RotationInv cfg token s) (hok : RefreshOk cfg installed token s act)
    (h : step cfg installed token s act = some s') : RotationInv cfg token s' := by
  unfold step at h
  cases act with
  | store act =>
    obtain ⟨books, hbooks, rfl⟩ := Option.map_eq_some_iff.1 h
    exact rotationInv_books hs (revokedInv_step hs.books hok hbooks) (fun q hq => revoked_grows hbooks hq)
  | checks r p reach =>
    obtain ⟨hnobody, hlooks⟩ := hok
    have hconnected : RotationInv cfg token { s with books := ⟨s.books.stores.connect installed p reach, s.books.revoked⟩ } :=
      rotationInv_books hs (revokedInv_connect installed p reach hs.books) (fun _ hq => hq)
    dsimp only at h
    split at h
    next =>
      split at h
      next hvalid =>
        cases h
        refine rotationInv_moves hconnected (fun _ => ⟨fun x _ => hnobody x, ?_⟩) (fun v h => by cases h) (fun v h => by cases h)
        -- a pair, a logout or a rotation would have left the token on the books
        have hunspent : ¬ (s.minted ≠ [] ∨ s.closed = true) :=
          fun hspent => check_refuses hs.books (hlooks (hs.spent hspent)) hvalid
        obtain ⟨hminted, hclosed⟩ := not_or.1 hunspent
        exact ⟨Classical.not_not.1 hminted, Bool.eq_false_iff.2 hclosed⟩
      next =>
        cases h
        exact rotationInv_leaves hconnected rfl
      next =>
        cases h
        exact rotationInv_leaves hconnected rfl
    next => cases h
  | loads r =>
    dsimp only at h
    split at h
    next p hphase =>
      cases h
      exact rotationInv_load hs hphase
    next => cases h
  | revokes r reach =>
    dsimp only at h
    split at h
    next p v hphase =>
      obtain ⟨books, hbooks, rfl⟩ := Option.map_eq_some_iff.1 h
      have hrevoked := rotationInv_books hs (revokedInv_step hs.books (hok p v hphase) hbooks) (fun q hq => revoked_grows hbooks hq)
      split
      next hreturned =>
        refine rotationInv_goesOn hrevoked (by rw [show ({ s with books := books } : State).requests r = _ from hphase]; rfl)
          (fun _ _ => recorded hbooks hreturned) (fun u hu => ?_)
        refine hs.version r u ?_
        rw [hphase]
        exact hu
      next => exact rotationInv_leaves hrevoked rfl
    next => cases h
  | mints r =>
    dsimp only at h
    split at h
    next v hphase =>
      cases h
      exact rotationInv_mints hs hphase
    next => cases h
  | logout p reach =>
    obtain ⟨hnobody, hrevoke, hreturned⟩ := hok
    obtain ⟨books, hbooks, rfl⟩ := Option.map_eq_some_iff.1 h
    have hbooked := rotationInv_books hs (revokedInv_step hs.books hrevoke hbooks) (fun q hq => revoked_grows hbooks hq)
    refine ⟨hbooked.books, hbooked.alone, fun x hx => ?_, fun _ => recorded hbooks hreturned, hbooked.revoked, hbooked.version,
      ⟨hs.singleUse.1, hs.singleUse.2, hs.singleUse.3⟩⟩
    rw [show ({ s with books := books, closed := true } : State).requests x = s.requests x from rfl, hnobody x] at hx
    cases hx
  | writesUser user =>
    obtain ⟨before, hbefore, rfl⟩ := Option.map_eq_some_iff.1 h
    refine { hs with version := fun x v hx => ?_, singleUse := ⟨hs.singleUse.1, hs.singleUse.2, hs.singleUse.3⟩ }
    obtain ⟨htoken, huser⟩ := hs.version x v hx
    refine ⟨htoken, fun user' h' => ?_⟩
    cases h'
    replace hx : (s.requests x).version = some v := hx
    rw [hok ⟨x, by rw [hx]; rfl⟩ before hbefore]
    exact huser before hbefore
  | deletesUser =>
    cases h
    refine ⟨hs.books, hs.alone, hs.unspent, hs.spent, hs.revoked, fun x v hx => ⟨(hs.version x v hx).1, fun user h' => ?_⟩,
      ⟨hs.singleUse.1, hs.singleUse.2, hs.singleUse.3⟩⟩
    cases h'

end

def State.start (now : Int) (user : Option User) : State := ⟨.start now, user, fun _ => .arrived, false, []⟩

theorem rotationInv_start (cfg : Settings) (token : Token) (now : Int) (user : Option User) :
    RotationInv cfg token (.start now user) := by
  refine ⟨fun r hr => ?_, fun x y hx => ?_, fun x hx => ?_, fun h => ?_, fun x v hx => ?_, fun x v hx => ?_,
    Nat.zero_le 1, fun m hm => ?_, fun m hm => ?_⟩
  · cases hr
  · cases hx
  · cases hx
  · rcases h with h | h
    · exact absurd rfl h
    · cases h
  · cases hx
  · cases hx
  · cases hm
  · cases hm

/-- **A refresh token is single-use** in every run under the condition. -/
theorem single_use (cfg : Settings) (installed : Nat → Bool) (token : Token) (now : Int) (user : Option User) {s : State}
    (h : Runs (step cfg installed token) (RefreshOk cfg installed token) (.start now user) s) : s.SingleUse token :=
  (h.invariant (rotationInv_start cfg token now user) (fun _ _ _ hs hok hstep => rotationInv_step hs hok hstep)).singleUse

def weekToken : Token := ⟨.refresh, some "r", some 604800, some 0⟩

def answered : Reach := ⟨true, true, true⟩

def replayed : List Act := [.checks 0 0 answered, .loads 0, .revokes 0 answered, .mints 0, .checks 1 1 answered]

theorem single_use_replayed :
    (play (step {} (fun _ => true) weekToken) (.start 0 (some ⟨true, 0⟩)) replayed).SingleUse weekToken := by
  have hfirst : RefreshOk {} (fun _ => true) weekToken (.start 0 (some ⟨true, 0⟩)) (.checks 0 0 answered) := by
    refine ⟨fun _ => rfl, ?_⟩
    rintro ⟨q, hq, -⟩
    cases hq
  have hrevokes : RefreshOk {} (fun _ => true) weekToken
      (play (step {} (fun _ => true) weekToken) (.start 0 (some ⟨true, 0⟩)) (replayed.take 2)) (.revokes 0 answered) := by
    intro p v _
    exact ⟨rfl, by decide, 604800, rfl, by decide⟩
  have hsecond : RefreshOk {} (fun _ => true) weekToken
      (play (step {} (fun _ => true) weekToken) (.start 0 (some ⟨true, 0⟩)) (replayed.take 4)) (.checks 1 1 answered) := by
    refine ⟨fun x => ?_, fun _ => ⟨⟨0, weekToken, .redis⟩, List.mem_cons_self, rfl, rfl, fun h => by cases h⟩⟩
    cases x with
    | zero => rfl
    | succ n => rfl
  exact single_use {} (fun _ => true) weekToken 0 (some ⟨true, 0⟩)
    (.next (.checks 1 1 answered) (.next (.mints 0) (.next (.revokes 0 answered) (.next (.loads 0)
      (.next (.checks 0 0 answered) .refl hfirst rfl) trivial rfl) hrevokes rfl) trivial rfl) hsecond rfl)

def twoTabs : List Act :=
  [.checks 0 0 answered, .checks 1 0 answered, .loads 0, .loads 1, .revokes 0 answered, .revokes 1 answered, .mints 0, .mints 1]

/-- **Two pairs** for one token. -/
theorem two_tabs_two_pairs :
    ¬ ∀ (cfg : Settings) (installed : Nat → Bool) (token : Token) (now : Int) (user : Option User) (s : State),
      Reaches (step cfg installed token) (.start now user) s → s.SingleUse token := by
  intro h
  have hs := h {} (fun _ => true) weekToken 0 (some ⟨true, 0⟩)
    (play (step {} (fun _ => true) weekToken) (.start 0 (some ⟨true, 0⟩)) twoTabs) (reaches_play (by decide))
  exact absurd hs.once (by decide)

end Rotation
end Auth
end MyGpt
