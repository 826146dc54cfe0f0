import MyGpt.Lib.Expiring
import MyGpt.Lib.Trace
/-!
# TokenStore — where revoked tokens are kept, and when one stays revoked

`auth_service`: the revocation sets in Redis, the memory of each process, and the calls that write and read them.  A call
goes to Redis as soon as its process has a client, which it keeps; the memory is for calls without one.  The clock counts
milliseconds, tokens and `EXPIRE` count seconds.  The access tokens that are revoked share one set with one expiry, and each
revocation sets it to what its own token has left (`later_kill_forgets`).  Revocations that go to Redis and those that go to a
process's memory are looked for in the one place that the check can reach.  A revoked token is reported as long as the set
outlives it and the check looks where a revocation of it went (`revocation_permanent`).
-/
namespace MyGpt
namespace Auth

open Trace (Runs Reaches play reaches_play)
open Expiring (Members)

structure Settings where
  refreshExpireDays : Int := 7
  accessExpireMinutes : Int := 30

def Settings.refreshTtl (cfg : Settings) : Int := cfg.refreshExpireDays * 24 * 3600

inductive TokenType
  | access | refresh
  deriving DecidableEq

/-- The payload of a token; `ver` is absent from tokens of before there were versions. -/
structure Token where
  type : TokenType
  jti : Option String
  exp : Option Int
  ver : Option Int := none
  deriving DecidableEq

/-- The `jti` when it is truthy. -/
def Token.key (token : Token) : Option String := token.jti.filter (· ≠ "")

/-- `decode_token` refuses an expired token. -/
def Token.decodes (token : Token) (now : Int) : Bool := token.exp.all (fun exp => now < exp * 1000)

structure Process where
  /-- `_redis_client` is set. -/
  client : Bool := false
  memory : List String := []
  deriving DecidableEq

structure Stores where
  now : Int
  refreshBlacklist : Expiring.Members String
  accessBlacklist : Expiring.Members String
  processes : Nat → Process

structure Reach where
  ping : Bool
  first : Bool
  second : Bool
  deriving DecidableEq

def Stores.setProcess (s : Stores) (p : Nat) (process : Process) : Stores :=
  { s with processes := Function.update s.processes p process }

/-- `_get_redis`; `installed` is whether the package is there. -/
def getRedis (installed : Bool) (process : Process) (ping : Bool) : Process × Bool :=
  if process.client then (process, true)
  else if !installed then (process, false)
  else if ping then ({ process with client := true }, true)
  else (process, false)

def Stores.reaches (installed : Nat → Bool) (s : Stores) (p : Nat) (reach : Reach) : Bool :=
  (getRedis (installed p) (s.processes p) reach.ping).2

def Stores.connect (installed : Nat → Bool) (s : Stores) (p : Nat) (reach : Reach) : Stores :=
  s.setProcess p (getRedis (installed p) (s.processes p) reach.ping).1

def Stores.remember (s : Stores) (p : Nat) (jti : String) : Stores :=
  s.setProcess p { s.processes p with memory := jti :: (s.processes p).memory }

/-! ## refresh tokens -/

/-- `_blacklist_add`, and whether it returns: an error of Redis is raised. -/
def blacklistAdd (cfg : Settings) (installed : Nat → Bool) (s : Stores) (p : Nat) (jti : String) (reach : Reach) : Stores × Bool :=
  if jti = "" then (s, true)
  else
    let s' := s.connect installed p reach
    if s.reaches installed p reach then
      if !reach.first then (s', false)
      else
        let added := s'.refreshBlacklist.sadd s'.now jti
        if !reach.second then ({ s' with refreshBlacklist := added }, false)
        else ({ s' with refreshBlacklist := added.expire s'.now (cfg.refreshTtl * 1000) }, true)
    else (s'.remember p jti, true)

/-- `_blacklist_has`; no answer when Redis raises. -/
def blacklistHas (installed : Nat → Bool) (s : Stores) (p : Nat) (jti : String) (reach : Reach) : Option Bool :=
  if jti = "" then some false
  else if s.reaches installed p reach then
    if !reach.first then none
    else if s.refreshBlacklist.sismember s.now jti then some true
    else if !reach.second then none
    else some (s.accessBlacklist.sismember s.now jti)
  else some ((s.processes p).memory.contains jti)

/-- `revoke_refresh`: nothing to do for a token that does not decode or has no `jti`. -/
def revokeRefresh (cfg : Settings) (installed : Nat → Bool) (s : Stores) (p : Nat) (token : Token) (reach : Reach) :
    Stores × Bool :=
  if token.decodes s.now then
    match token.key with
    | some jti => blacklistAdd cfg installed s p jti reach
    | none => (s, true)
  else (s, true)

def isRefreshValid (installed : Nat → Bool) (s : Stores) (p : Nat) (token : Token) (reach : Reach) : Option Bool :=
  if token.decodes s.now && token.type == .refresh then
    match token.key with
    | some jti => (blacklistHas installed s p jti reach).map (!·)
    | none => some true
  else some false

/-! ## access tokens -/

def remainingValiditySeconds (cfg : Settings) (now : Int) (exp : Option Int) : Int :=
  let remaining := match exp with
    | some exp => exp - now / 1000
    | none => cfg.accessExpireMinutes * 60
  max remaining 0 + 60

/-- `blacklist_access_token`, which always returns: what Redis does not take goes to the memory. -/
def blacklistAccessToken (cfg : Settings) (installed : Nat → Bool) (s : Stores) (p : Nat) (token : Token) (reach : Reach) :
    Stores :=
  if token.decodes s.now && token.type == .access then
    match token.key with
    | some jti =>
      let s' := s.connect installed p reach
      if s.reaches installed p reach && reach.first then
        let added := s'.accessBlacklist.sadd s'.now jti
        let ttl := remainingValiditySeconds cfg s'.now token.exp
        if reach.second then { s' with accessBlacklist := added.expire s'.now (ttl * 1000) }
        else { s' with accessBlacklist := added }.remember p jti
      else s'.remember p jti
    | none => s
  else s

def isAccessRevoked (installed : Nat → Bool) (s : Stores) (p : Nat) (token : Token) (reach : Reach) : Bool :=
  match token.key with
  | some jti =>
    if s.reaches installed p reach && reach.first then s.accessBlacklist.sismember s.now jti
    else (s.processes p).memory.contains jti
  | none => false

/-! ## processes -/

@[simp] theorem setProcess_self (s : Stores) (p : Nat) (process : Process) : (s.setProcess p process).processes p = process := by
  simp [Stores.setProcess]

theorem setProcess_ne (s : Stores) {p q : Nat} (process : Process) (h : q ≠ p) :
    (s.setProcess p process).processes q = s.processes q := by
  simp [Stores.setProcess, h]

theorem getRedis_memory (installed : Bool) (process : Process) (ping : Bool) :
    (getRedis installed process ping).1.memory = process.memory := by
  unfold getRedis
  split
  · rfl
  · split
    · rfl
    · split
      · rfl
      · rfl

theorem connect_memory (installed : Nat → Bool) (s : Stores) (p q : Nat) (reach : Reach) :
    ((s.connect installed p reach).processes q).memory = (s.processes q).memory := by
  unfold Stores.connect
  by_cases h : q = p
  · subst h
    rw [setProcess_self, getRedis_memory]
  · rw [setProcess_ne _ _ h]

theorem mem_remember (s : Stores) {p q : Nat} {jti k : String} (h : k ∈ (s.processes q).memory) :
    k ∈ ((s.remember p jti).processes q).memory := by
  unfold Stores.remember
  by_cases hq : q = p
  · subst hq
    rw [setProcess_self]
    exact List.mem_cons_of_mem _ h
  · rwa [setProcess_ne _ _ hq]

theorem mem_remember_self (s : Stores) (p : Nat) (jti : String) : jti ∈ ((s.remember p jti).processes p).memory := by
  unfold Stores.remember
  rw [setProcess_self]
  exact List.mem_cons_self

/-! ## revocations -/

inductive Place
  | redis | memory
  deriving DecidableEq

structure Revocation where
  process : Nat
  token : Token
  place : Place

structure Books where
  stores : Stores
  revoked : List Revocation

inductive Act
  | passes (ms : Nat)
  | blacklistsAccess (p : Nat) (token : Token) (reach : Reach)
  | revokesRefresh (p : Nat) (token : Token) (reach : Reach)
  | checks (p : Nat) (token : Token) (reach : Reach)

section
variable (cfg : Settings) (installed : Nat → Bool)

def accessPlace (s : Stores) (p : Nat) (reach : Reach) : Place :=
  if s.reaches installed p reach && reach.first && reach.second then .redis else .memory

def refreshPlace (s : Stores) (p : Nat) (reach : Reach) : Place := if s.reaches installed p reach then .redis else .memory

def reportsRevoked (s : Stores) (p : Nat) (token : Token) (reach : Reach) : Option Bool :=
  match token.type with
  | .access => some (isAccessRevoked installed s p token reach)
  | .refresh => (isRefreshValid installed s p token reach).map (!·)

def asks (s : Stores) (p : Nat) (token : Token) (reach : Reach) : Option Place :=
  if s.reaches installed p reach then
    if reach.first then some .redis
    else match token.type with
      | .access => some .memory
      | .refresh => none
  else some .memory

def step (b : Books) : Act → Option Books
  | .passes ms => some { b with stores := { b.stores with now := b.stores.now + ms } }
  | .blacklistsAccess p token reach =>
    some { stores := blacklistAccessToken cfg installed b.stores p token reach,
           revoked := ⟨p, token, accessPlace installed b.stores p reach⟩ :: b.revoked }
  | .revokesRefresh p token reach =>
    let (stores, returned) := revokeRefresh cfg installed b.stores p token reach
    some { stores := stores
           revoked := if returned then ⟨p, token, refreshPlace installed b.stores p reach⟩ :: b.revoked else b.revoked }
  | .checks p _ reach => some { b with stores := b.stores.connect installed p reach }

/-- **Revocation is permanent**: a process that has revoked a token reports it until the token expires. -/
def Permanent (ok : Books → Act → Prop) (b : Books) : Prop :=
  ∀ r ∈ b.revoked, (∀ exp, r.token.exp = some exp → b.stores.now < exp * 1000) →
    ∀ reach, ok b (.checks r.process r.token reach) → reportsRevoked installed b.stores r.process r.token reach = some true

/-- **A revocation is of a token of its type with a `jti` and an expiry**, a refresh token's within a refresh lifetime; the
expiry that it sets is not before that of an access token revoked earlier; and a check looks where a revocation went. -/
def RevokeOk (b : Books) : Act → Prop
  | .passes _ => True
  | .blacklistsAccess p token reach => token.type = .access ∧ token.key.isSome ∧ token.exp.isSome ∧
      (accessPlace installed b.stores p reach = .redis → ∀ r ∈ b.revoked, r.place = .redis → r.token.type = .access →
        ∀ exp, r.token.exp = some exp → b.stores.now < exp * 1000 →
          exp * 1000 ≤ b.stores.now + remainingValiditySeconds cfg b.stores.now token.exp * 1000)
  | .revokesRefresh _ token _ => token.type = .refresh ∧ token.key.isSome ∧
      ∃ exp, token.exp = some exp ∧ exp * 1000 ≤ b.stores.now + cfg.refreshTtl * 1000
  | .checks p token reach => (∃ r ∈ b.revoked, r.process = p ∧ r.token = token) →
      ∃ r ∈ b.revoked, r.token = token ∧ asks installed b.stores p token reach = some r.place ∧
        (r.place = .memory → r.process = p)

/-- Where the revocation put the token, it is, until `t`. -/
def Revocation.Held (r : Revocation) (s : Stores) (k : String) (t : Int) : Prop :=
  match r.place, r.token.type with
  | .memory, _ => k ∈ (s.processes r.process).memory
  | .redis, .access => s.accessBlacklist.Keeps k t
  | .redis, .refresh => s.refreshBlacklist.Keeps k t

structure Revocation.Stored (r : Revocation) (s : Stores) (k : String) (exp : Int) : Prop where
  key : r.token.key = some k
  expires : r.token.exp = some exp
  lifetime : r.token.type = .refresh → exp * 1000 ≤ s.now + cfg.refreshTtl * 1000
  held : s.now < exp * 1000 → r.Held s k (exp * 1000)

def RevokedInv (b : Books) : Prop := ∀ r ∈ b.revoked, ∃ k exp, r.Stored cfg b.stores k exp

end

section
variable {cfg : Settings} {installed : Nat → Bool} {b b' : Books} {s s' : Stores} {r : Revocation} {revoked : List Revocation}
  {p : Nat} {reach : Reach}

theorem Revocation.Stored.mono {k : String} {exp : Int} (h : r.Stored cfg s k exp) (hnow : s.now ≤ s'.now)
    (hmemory : ∀ q k, k ∈ (s.processes q).memory → k ∈ (s'.processes q).memory)
    (haccess : r.place = .redis → r.token.type = .access → s.now < exp * 1000 →
      s.accessBlacklist.Keeps k (exp * 1000) → s'.accessBlacklist.Keeps k (exp * 1000))
    (hrefresh : r.token.type = .refresh → s.now < exp * 1000 → s.refreshBlacklist.Keeps k (exp * 1000) →
      s'.refreshBlacklist.Keeps k (exp * 1000)) : r.Stored cfg s' k exp := by
  refine ⟨h.key, h.expires, fun htype => ?_, fun hlive => ?_⟩
  · have := h.lifetime htype
    omega
  · have hbefore : s.now < exp * 1000 := Int.lt_of_le_of_lt hnow hlive
    have hheld := h.held hbefore
    unfold Revocation.Held at hheld ⊢
    split at hheld
    next => exact hmemory _ _ hheld
    next hplace htype => exact haccess hplace htype hbefore hheld
    next _ htype => exact hrefresh htype hbefore hheld

/-! ## what the calls do to the tokens revoked before -/

theorem RevokedInv.mono (hs : RevokedInv cfg ⟨s, revoked⟩) (hnow : s.now ≤ s'.now)
    (hmemory : ∀ q k, k ∈ (s.processes q).memory → k ∈ (s'.processes q).memory)
    (haccess : ∀ r ∈ revoked, ∀ k exp, r.Stored cfg s k exp → r.place = .redis → r.token.type = .access → s.now < exp * 1000 →
      s.accessBlacklist.Keeps k (exp * 1000) → s'.accessBlacklist.Keeps k (exp * 1000))
    (hrefresh : ∀ r ∈ revoked, ∀ k exp, r.Stored cfg s k exp → r.token.type = .refresh → s.now < exp * 1000 →
      s.refreshBlacklist.Keeps k (exp * 1000) → s'.refreshBlacklist.Keeps k (exp * 1000)) :
    RevokedInv cfg ⟨s', revoked⟩ := by
  intro r hr
  obtain ⟨k, exp, hstored⟩ := hs r hr
  exact ⟨k, exp, hstored.mono hnow hmemory (haccess r hr k exp hstored) (hrefresh r hr k exp hstored)⟩

theorem RevokedInv.of_memory (hs : RevokedInv cfg ⟨s, revoked⟩) (hnow : s.now ≤ s'.now)
    (hmemory : ∀ q k, k ∈ (s.processes q).memory → k ∈ (s'.processes q).memory)
    (haccess : s'.accessBlacklist = s.accessBlacklist) (hrefresh : s'.refreshBlacklist = s.refreshBlacklist) :
    RevokedInv cfg ⟨s', revoked⟩ := by
  refine hs.mono hnow hmemory (fun _ _ _ _ _ _ _ _ hkeeps => ?_) (fun _ _ _ _ _ _ _ hkeeps => ?_)
  · rw [haccess]
    exact hkeeps
  · rw [hrefresh]
    exact hkeeps

variable (installed p reach) in
theorem revokedInv_connect (hs : RevokedInv cfg ⟨s, revoked⟩) : RevokedInv cfg ⟨s.connect installed p reach, revoked⟩ := by
  refine hs.of_memory (Int.le_refl _) (fun q k hk => ?_) rfl rfl
  rwa [connect_memory]

theorem revokedInv_remember (jti : String) (hs : RevokedInv cfg ⟨s, revoked⟩) :
    RevokedInv cfg ⟨s.remember p jti, revoked⟩ :=
  hs.of_memory (Int.le_refl _) (fun _ _ hk => mem_remember s hk) rfl rfl

theorem revokedInv_passes (hs : RevokedInv cfg ⟨s, revoked⟩) (ms : Nat) :
    RevokedInv cfg ⟨{ s with now := s.now + ms }, revoked⟩ :=
  hs.of_memory (Int.le_add_of_nonneg_right (Int.natCast_nonneg ms)) (fun _ _ => id) rfl rfl

theorem revokedInv_sadd_access (jti : String) (hs : RevokedInv cfg ⟨s, revoked⟩) :
    RevokedInv cfg ⟨{ s with accessBlacklist := s.accessBlacklist.sadd s.now jti }, revoked⟩ := by
  refine hs.mono (Int.le_refl _) (fun _ _ => id) (fun _ _ _ _ _ _ _ hlive hkeeps => ?_) (fun _ _ _ _ _ _ _ => id)
  exact Expiring.keeps_sadd jti hkeeps hlive

theorem revokedInv_sadd_refresh (jti : String) (hs : RevokedInv cfg ⟨s, revoked⟩) :
    RevokedInv cfg ⟨{ s with refreshBlacklist := s.refreshBlacklist.sadd s.now jti }, revoked⟩ := by
  refine hs.mono (Int.le_refl _) (fun _ _ => id) (fun _ _ _ _ _ _ _ _ => id) (fun _ _ _ _ _ _ hlive hkeeps => ?_)
  exact Expiring.keeps_sadd jti hkeeps hlive

theorem revokedInv_expire_access {ttl : Int} (hs : RevokedInv cfg ⟨s, revoked⟩)
    (hlonger : ∀ r ∈ revoked, r.place = .redis → r.token.type = .access → ∀ exp, r.token.exp = some exp →
      s.now < exp * 1000 → exp * 1000 ≤ s.now + ttl) :
    RevokedInv cfg ⟨{ s with accessBlacklist := s.accessBlacklist.expire s.now ttl }, revoked⟩ := by
  refine hs.mono (Int.le_refl _) (fun _ _ => id) (fun r hr k exp hstored hplace htype hlive hkeeps => ?_) (fun _ _ _ _ _ _ _ => id)
  exact Expiring.keeps_expire hkeeps hlive (hlonger r hr hplace htype exp hstored.expires hlive)

theorem revokedInv_expire_refresh (hs : RevokedInv cfg ⟨s, revoked⟩) :
    RevokedInv cfg ⟨{ s with refreshBlacklist := s.refreshBlacklist.expire s.now (cfg.refreshTtl * 1000) }, revoked⟩ := by
  refine hs.mono (Int.le_refl _) (fun _ _ => id) (fun _ _ _ _ _ _ _ _ => id) (fun r hr k exp hstored htype hlive hkeeps => ?_)
  exact Expiring.keeps_expire hkeeps hlive (hstored.lifetime htype)

theorem revokedInv_cons (k : String) (exp : Int) (hs : RevokedInv cfg ⟨s, revoked⟩) (h : r.Stored cfg s k exp) :
    RevokedInv cfg ⟨s, r :: revoked⟩ := by
  intro q hq
  rcases List.mem_cons.1 hq with rfl | hq
  · exact ⟨k, exp, h⟩
  · exact hs q hq

/-! ## tokens -/

theorem decodes_iff {token : Token} {now exp : Int} (h : token.exp = some exp) : token.decodes now = true ↔ now < exp * 1000 := by
  simp [Token.decodes, h]

theorem remaining_pos (cfg : Settings) (now : Int) (exp : Option Int) : 0 < remainingValiditySeconds cfg now exp := by
  unfold remainingValiditySeconds
  dsimp only
  omega

theorem remaining_covers (cfg : Settings) (now exp : Int) : exp * 1000 ≤ now + remainingValiditySeconds cfg now (some exp) * 1000 := by
  unfold remainingValiditySeconds
  dsimp only
  omega

theorem key_ne_empty {token : Token} {k : String} (h : token.key = some k) : k ≠ "" := by
  obtain ⟨-, hk⟩ := Option.filter_eq_some_iff.1 h
  simpa using hk

/-! ## a token is revoked -/

theorem blacklistAccess_eq {token : Token} {k : String} (hlive : token.decodes s.now = true) (htype : token.type = .access)
    (hk : token.key = some k) :
    blacklistAccessToken cfg installed s p token reach =
      if s.reaches installed p reach && reach.first then
        if reach.second then
          { s.connect installed p reach with
            accessBlacklist := (s.accessBlacklist.sadd s.now k).expire s.now
              (remainingValiditySeconds cfg s.now token.exp * 1000) }
        else { s.connect installed p reach with accessBlacklist := s.accessBlacklist.sadd s.now k }.remember p k
      else (s.connect installed p reach).remember p k := by
  unfold blacklistAccessToken
  rw [hlive, htype, hk]
  rfl

theorem revokedInv_blacklistsAccess (hs : RevokedInv cfg ⟨s, revoked⟩) {token : Token}
    (hok : RevokeOk cfg installed ⟨s, revoked⟩ (.blacklistsAccess p token reach)) :
    RevokedInv cfg ⟨blacklistAccessToken cfg installed s p token reach,
      ⟨p, token, accessPlace installed s p reach⟩ :: revoked⟩ := by
  obtain ⟨htype, hkey, hexp, hlonger⟩ := hok
  obtain ⟨k, hk⟩ := Option.isSome_iff_exists.1 hkey
  obtain ⟨exp, hexp⟩ := Option.isSome_iff_exists.1 hexp
  have hnotRefresh : token.type = .refresh → exp * 1000 ≤ s.now + cfg.refreshTtl * 1000 := by
    intro h
    rw [htype] at h
    cases h
  by_cases hlive : s.now < exp * 1000
  · rw [blacklistAccess_eq ((decodes_iff hexp).2 hlive) htype hk]
    have hconnected := revokedInv_connect installed p reach hs
    unfold accessPlace at hlonger ⊢
    by_cases hfirst : (s.reaches installed p reach && reach.first) = true
    · rw [if_pos hfirst, hfirst]
      have hadded := revokedInv_sadd_access k hconnected
      cases hsecond : reach.second
      · -- the set keeps the expiry it had: the memory is for this token
        refine revokedInv_cons k exp (revokedInv_remember k hadded) ⟨hk, hexp, hnotRefresh, fun _ => ?_⟩
        exact mem_remember_self _ _ _
      · rw [hfirst, hsecond] at hlonger
        refine revokedInv_cons k exp (revokedInv_expire_access hadded (hlonger rfl)) ⟨hk, hexp, hnotRefresh, fun _ => ?_⟩
        unfold Revocation.Held
        rw [htype]
        have hcovers := remaining_covers cfg s.now exp
        rw [← hexp] at hcovers
        refine (Expiring.keeps_added s.accessBlacklist k ?_).mono hcovers
        have := remaining_pos cfg s.now token.exp
        omega
    · rw [if_neg hfirst, Bool.eq_false_iff.2 hfirst]
      refine revokedInv_cons k exp (revokedInv_remember k hconnected) ⟨hk, hexp, hnotRefresh, fun _ => ?_⟩
      exact mem_remember_self _ _ _
  · have hsame : blacklistAccessToken cfg installed s p token reach = s := by
      unfold blacklistAccessToken
      rw [Bool.eq_false_iff.2 (fun h => hlive ((decodes_iff hexp).1 h))]
      rfl
    rw [hsame]
    exact revokedInv_cons k exp hs ⟨hk, hexp, hnotRefresh, fun h => absurd h hlive⟩

theorem revokeRefresh_eq {token : Token} {k : String} (hlive : token.decodes s.now = true) (hk : token.key = some k) :
    revokeRefresh cfg installed s p token reach =
      if s.reaches installed p reach then
        if !reach.first then (s.connect installed p reach, false)
        else if !reach.second then
          ({ s.connect installed p reach with refreshBlacklist := s.refreshBlacklist.sadd s.now k }, false)
        else
          ({ s.connect installed p reach with
              refreshBlacklist := (s.refreshBlacklist.sadd s.now k).expire s.now (cfg.refreshTtl * 1000) }, true)
      else ((s.connect installed p reach).remember p k, true) := by
  unfold revokeRefresh
  rw [hlive, hk]
  show blacklistAdd cfg installed s p k reach = _
  unfold blacklistAdd
  rw [if_neg (key_ne_empty hk)]
  rfl

theorem revokedInv_revokesRefresh (hs : RevokedInv cfg ⟨s, revoked⟩) {token : Token}
    (hok : RevokeOk cfg installed ⟨s, revoked⟩ (.revokesRefresh p token reach)) :
    RevokedInv cfg ⟨(revokeRefresh cfg installed s p token reach).1,
      if (revokeRefresh cfg installed s p token reach).2 then ⟨p, token, refreshPlace installed s p reach⟩ :: revoked
      else revoked⟩ := by
  obtain ⟨htype, hkey, exp, hexp, hlifetime⟩ := hok
  replace hlifetime : exp * 1000 ≤ s.now + cfg.refreshTtl * 1000 := hlifetime
  obtain ⟨k, hk⟩ := Option.isSome_iff_exists.1 hkey
  by_cases hlive : s.now < exp * 1000
  · have hpos : 0 < cfg.refreshTtl * 1000 := by omega
    rw [revokeRefresh_eq ((decodes_iff hexp).2 hlive) hk]
    have hconnected := revokedInv_connect installed p reach hs
    unfold refreshPlace
    cases hreaches : s.reaches installed p reach
    · refine revokedInv_cons k exp (revokedInv_remember k hconnected) ⟨hk, hexp, fun _ => hlifetime, fun _ => ?_⟩
      exact mem_remember_self _ _ _
    · cases hfirst : reach.first
      · exact hconnected
      · have hadded := revokedInv_sadd_refresh k hconnected
        cases hsecond : reach.second
        · exact hadded
        · refine revokedInv_cons k exp (revokedInv_expire_refresh hadded)
            ⟨hk, hexp, fun _ => hlifetime, fun _ => ?_⟩
          unfold Revocation.Held
          rw [htype]
          exact (Expiring.keeps_added s.refreshBlacklist k hpos).mono hlifetime
  · have hsame : revokeRefresh cfg installed s p token reach = (s, true) := by
      unfold revokeRefresh
      rw [Bool.eq_false_iff.2 (fun h => hlive ((decodes_iff hexp).1 h))]
      rfl
    rw [hsame]
    exact revokedInv_cons k exp hs ⟨hk, hexp, fun _ => hlifetime, fun h => absurd h hlive⟩

/-! ## runs -/

theorem step_revokesRefresh {token : Token} :
    step cfg installed b (.revokesRefresh p token reach) =
      some ⟨(revokeRefresh cfg installed b.stores p token reach).1,
        if (revokeRefresh cfg installed b.stores p token reach).2 then
          ⟨p, token, refreshPlace installed b.stores p reach⟩ :: b.revoked
        else b.revoked⟩ := rfl

theorem revokedInv_step {act : Act} (hs : RevokedInv cfg b) (hok : RevokeOk cfg installed b act)
    (h : step cfg installed b act = some b') : RevokedInv cfg b' := by
  cases act with
  | passes ms =>
    cases h
    exact revokedInv_passes hs ms
  | blacklistsAccess p token reach =>
    cases h
    exact revokedInv_blacklistsAccess hs hok
  | revokesRefresh p token reach =>
    cases h
    exact revokedInv_revokesRefresh hs hok
  | checks p token reach =>
    cases h
    exact revokedInv_connect installed p reach hs

theorem access_reported {k : String} {exp : Int} (h : r.Stored cfg s k exp) (hlive : s.now < exp * 1000)
    (htype : r.token.type = .access) (hasks : asks installed s p r.token reach = some r.place)
    (hprocess : r.place = .memory → r.process = p) : isAccessRevoked installed s p r.token reach = true := by
  have hheld := h.held hlive
  unfold Revocation.Held at hheld
  unfold asks at hasks
  unfold isAccessRevoked
  rw [h.key]
  rw [htype] at hheld hasks
  cases hplace : r.place <;> rw [hplace] at hheld hasks
  · -- Redis was asked, so there is a client and it answered
    have hredis : (s.reaches installed p reach && reach.first) = true := by
      cases hreaches : s.reaches installed p reach
      · rw [hreaches] at hasks
        cases hasks
      · cases hfirst : reach.first
        · rw [hreaches, hfirst] at hasks
          cases hasks
        · rfl
    rw [hredis]
    exact Expiring.sismember_of_keeps hheld hlive
  · have hmemory : (s.reaches installed p reach && reach.first) = false := by
      cases hreaches : s.reaches installed p reach
      · rfl
      · cases hfirst : reach.first
        · rfl
        · rw [hreaches, hfirst] at hasks
          cases hasks
    rw [hmemory]
    have hmem : k ∈ (s.processes p).memory := hprocess hplace ▸ hheld
    simpa using hmem

theorem refresh_reported {k : String} {exp : Int} (h : r.Stored cfg s k exp) (hlive : s.now < exp * 1000)
    (htype : r.token.type = .refresh) (hasks : asks installed s p r.token reach = some r.place)
    (hprocess : r.place = .memory → r.process = p) : blacklistHas installed s p k reach = some true := by
  have hheld := h.held hlive
  unfold Revocation.Held at hheld
  unfold asks at hasks
  unfold blacklistHas
  rw [if_neg (key_ne_empty h.key)]
  rw [htype] at hheld hasks
  cases hreaches : s.reaches installed p reach <;> rw [hreaches] at hasks
  · obtain hplace : Place.memory = r.place := Option.some.inj hasks
    rw [← hplace] at hheld
    have hmem : k ∈ (s.processes p).memory := hprocess hplace.symm ▸ hheld
    simpa using hmem
  · cases hfirst : reach.first <;> rw [hfirst] at hasks
    · cases hasks
    · obtain hplace : Place.redis = r.place := Option.some.inj hasks
      rw [← hplace] at hheld
      rw [Expiring.sismember_of_keeps hheld hlive]
      rfl

theorem reports_of_stored {k : String} {exp : Int} (h : r.Stored cfg s k exp) (hlive : s.now < exp * 1000)
    (hasks : asks installed s p r.token reach = some r.place) (hprocess : r.place = .memory → r.process = p) :
    reportsRevoked installed s p r.token reach = some true := by
  unfold reportsRevoked
  cases htype : r.token.type
  · rw [access_reported h hlive htype hasks hprocess]
  · have hhas := refresh_reported h hlive htype hasks hprocess
    unfold isRefreshValid
    rw [(decodes_iff h.expires).2 hlive, htype, h.key]
    show ((blacklistHas installed s p k reach).map (!·)).map (!·) = some true
    rw [hhas]
    rfl

theorem permanent_of_inv (hs : RevokedInv cfg b) : Permanent installed (RevokeOk cfg installed) b := by
  intro r hr hlive reach hok
  obtain ⟨q, hq, htoken, hasks, hprocess⟩ := hok ⟨r, hr, rfl, rfl⟩
  obtain ⟨k, exp, hstored⟩ := hs q hq
  rw [← htoken] at hlive hasks ⊢
  exact reports_of_stored hstored (hlive exp hstored.expires) hasks hprocess

end

def Books.start (now : Int) : Books := ⟨⟨now, {}, {}, fun _ => {}⟩, []⟩

/-- **Revocation is permanent** in every run under the condition. -/
theorem revocation_permanent (cfg : Settings) (installed : Nat → Bool) (now : Int) {b : Books}
    (h : Runs (step cfg installed) (RevokeOk cfg installed) (.start now) b) :
    Permanent installed (RevokeOk cfg installed) b := by
  have hstart : RevokedInv cfg (.start now) := by
    intro r hr
    cases hr
  exact permanent_of_inv (h.invariant hstart (fun _ _ _ hs hok hstep => revokedInv_step hs hok hstep))

def twoLogouts : List Act :=
  [.blacklistsAccess 0 ⟨.access, some "a", some 900, none⟩ ⟨true, true, true⟩, .passes 60000,
    .blacklistsAccess 0 ⟨.access, some "b", some 960, none⟩ ⟨true, true, true⟩]

theorem revocation_permanent_two_logouts :
    Permanent (fun _ => true) (RevokeOk {} (fun _ => true)) (play (step {} (fun _ => true)) (.start 0) twoLogouts) := by
  have hfirst : RevokeOk {} (fun _ => true) (.start 0)
      (.blacklistsAccess 0 ⟨.access, some "a", some 900, none⟩ ⟨true, true, true⟩) :=
    ⟨rfl, by decide, rfl, fun _ r hr => by cases hr⟩
  have hsecond : RevokeOk {} (fun _ => true) (play (step {} (fun _ => true)) (.start 0) (twoLogouts.take 2))
      (.blacklistsAccess 0 ⟨.access, some "b", some 960, none⟩ ⟨true, true, true⟩) := by
    refine ⟨rfl, by decide, rfl, fun _ r hr _ _ exp hexp _ => ?_⟩
    obtain rfl := List.mem_singleton.1 hr
    cases hexp
    decide
  exact revocation_permanent {} (fun _ => true) 0 (.next (.blacklistsAccess 0 _ _) (.next (.passes 60000)
    (.next (.blacklistsAccess 0 _ _) .refl hfirst rfl) trivial rfl) hsecond rfl)

def laterKill : List Act :=
  [.blacklistsAccess 0 ⟨.access, some "a", some 900, none⟩ ⟨true, true, true⟩,
    .blacklistsAccess 0 ⟨.access, some "b", some 10, none⟩ ⟨true, true, true⟩, .passes 70000]

/-- **The set is gone after seventy seconds**, and the first token is good again. -/
theorem later_kill_forgets :
    ¬ ∀ (cfg : Settings) (installed : Nat → Bool) (now : Int) (b : Books), Reaches (step cfg installed) (.start now) b →
      Permanent installed (fun _ _ => True) b := by
  intro h
  have hb := h {} (fun _ => true) 0 (play (step {} (fun _ => true)) (.start 0) laterKill) (reaches_play (by decide))
  have hreported := hb ⟨0, ⟨.access, some "a", some 900, none⟩, .redis⟩ (List.mem_cons_of_mem _ List.mem_cons_self)
    (fun exp hexp => by obtain rfl := Option.some.inj hexp; decide) ⟨true, true, true⟩ trivial
  exact absurd hreported (by decide)

end Auth
end MyGpt
