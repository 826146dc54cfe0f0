import MyGpt.Lib.Trace
import Mathlib.Logic.Function.Basic
/-!
# TokenRefresh — the calls of a tab share one refresh

`request` and `refreshAccessToken` of `lib/api-client.ts` and the streams of `lib/api-stream.ts`, with the server that rotates
the refresh token.  A call that is answered 401 waits for the refresh that is under way, or begins one, and is sent once more.
As long as each answer to a refresh arrives, the server is never shown a token twice (`single_flight`).
-/
namespace MyGpt
namespace Client
namespace Refresh

open Trace (Reaches)

inductive Kind
  | request (path : String)
  /-- `streamChat`, `streamRunEvents`. -/
  | stream

def credentialAuthPaths : List String :=
  ["/api/auth/login", "/api/auth/register", "/api/auth/login/wechat", "/api/auth/password", "/api/auth/password/forgot",
    "/api/auth/password/reset"]

/-- A 401 to it says that the session may have run out. -/
def Kind.refreshes : Kind → Bool
  | .request path => !credentialAuthPaths.contains path
  | .stream => true

inductive Outcome
  | responded (status : Nat)
  | networkError
  /-- `会话已过期，请重新登录`. -/
  | unauthorized
  deriving DecidableEq

inductive Phase
  | idle
  | sent (attempt : Nat) (bearer : Option Nat)
  /-- For `refreshing`. -/
  | waiting
  /-- The refresh has settled; the call goes on when its continuation runs. -/
  | resumed (ok : Bool)
  | ended (outcome : Outcome)
  deriving DecidableEq

inductive Answer
  | refused
  /-- The pair that is minted, by its number. -/
  | rotated (pair : Nat)
  deriving DecidableEq

/-- A request of `/api/auth/refresh` on its way, with the refresh token it carries. -/
structure Flight where
  cookie : Nat
  answer : Option Answer
  deriving DecidableEq

structure State where
  accessToken : Option Nat
  /-- The refresh token, `httpOnly`. -/
  cookie : Nat
  /-- `refreshing` is not null. -/
  refreshing : Bool
  flights : List Flight
  calls : Nat → Phase
  /-- The refresh tokens that the server has exchanged while the tab waited for the answer. -/
  exchanged : List Nat
  /-- The number of the next pair. -/
  next : Nat
  /-- A refresh came back without a token. -/
  failed : Bool
  /-- The tab has given up on an answer, which may have carried a pair. -/
  lost : Bool

inductive Act
  | calls (i : Nat)
  | answers (i status : Nat)
  | breaks (i : Nat)
  | serves (accepts : Bool)
  /-- `heard`: the response arrives within the 15 seconds; `parsed`: it has a token. -/
  | settles (heard parsed : Bool)
  | continues (i : Nat)
  | signsIn

def setCall (s : State) (i : Nat) (phase : Phase) : State := { s with calls := Function.update s.calls i phase }

def refreshAccessToken (s : State) : State :=
  if s.refreshing then s else { s with refreshing := true, flights := ⟨s.cookie, none⟩ :: s.flights }

section
variable (kind : Nat → Kind)

def settle (ok : Bool) (s : State) : State :=
  { s with
    refreshing := false, failed := s.failed || !ok
    calls := fun i => if s.calls i = .waiting then .resumed ok else s.calls i }

def step (s : State) : Act → Option State
  | .calls i => if s.calls i = .idle then some (setCall s i (.sent 0 s.accessToken)) else none
  | .answers i status =>
    match s.calls i with
    | .sent attempt _ =>
      if status = 401 ∧ attempt < 1 ∧ (kind i).refreshes then some (setCall (refreshAccessToken s) i .waiting)
      else some (setCall s i (.ended (.responded status)))
    | _ => none
  | .breaks i =>
    match s.calls i with
    | .sent _ _ => some (setCall s i (.ended .networkError))
    | _ => none
  | .serves accepts =>
    match s.flights with
    | ⟨cookie, none⟩ :: flights =>
      if accepts ∧ cookie ∉ s.exchanged then
        some { s with
          flights := ⟨cookie, some (.rotated s.next)⟩ :: flights, exchanged := cookie :: s.exchanged, next := s.next + 1 }
      else some { s with flights := ⟨cookie, some .refused⟩ :: flights }
    | _ => none
  | .settles heard parsed =>
    match s.flights with
    | ⟨_, some (.rotated pair)⟩ :: flights =>
      if heard then
        some (settle parsed { s with
          accessToken := if parsed then some pair else s.accessToken, cookie := pair, flights := flights })
      else some (settle false { s with flights := flights, lost := true })
    | ⟨_, some .refused⟩ :: flights => some (settle false { s with flights := flights })
    | ⟨_, none⟩ :: flights => some (settle false { s with flights := flights, lost := true })
    | [] => none
  | .continues i =>
    match s.calls i, kind i with
    | .resumed true, _ => some (setCall s i (.sent 1 s.accessToken))
    | .resumed false, .request _ => some (setCall { s with accessToken := none } i (.ended .unauthorized))
    | .resumed false, .stream => some (setCall s i (.ended (.responded 401)))
    | _, _ => none
  | .signsIn => some { s with accessToken := some s.next, cookie := s.next, next := s.next + 1 }

def State.start : State := ⟨none, 0, false, [], fun _ => .idle, [], 1, false, false⟩

/-- Where a call may be. -/
def CallOk (s : State) (i : Nat) : Phase → Prop
  | .idle => True
  | .sent attempt _ => attempt ≤ 1
  | .waiting => s.refreshing = true ∧ (kind i).refreshes = true
  | .resumed ok => (kind i).refreshes = true ∧ (ok = false → s.failed = true)
  | .ended outcome => outcome = .unauthorized → s.failed = true ∧ (kind i).refreshes = true

/-- **One refresh at a time**, for all the calls of the tab. -/
structure State.SingleFlight (s : State) : Prop where
  one : s.flights.length = if s.refreshing then 1 else 0
  /-- No call waits for a refresh that is not under way, none is sent more than twice, and one is told that the session has run
  out only when a refresh has failed; an error of credentials stays what it is. -/
  calls : ∀ i, CallOk kind s i (s.calls i)
  /-- The server is not shown a token that it has exchanged, as long as each answer has arrived. -/
  unspent : s.lost = false → ∀ f ∈ s.flights, f.answer = none → f.cookie ∉ s.exchanged

structure Inv (s : State) : Prop where
  single : s.SingleFlight kind
  minted : s.cookie < s.next ∧ (∀ f ∈ s.flights, f.cookie < s.next) ∧ ∀ c ∈ s.exchanged, c < s.next
  pair : ∀ f ∈ s.flights, ∀ p, f.answer = some (.rotated p) → p < s.next ∧ p ∉ s.exchanged
  /-- The cookie has been exchanged only while the answer is on its way. -/
  cookie : s.lost = false → s.cookie ∈ s.exchanged → ∃ f ∈ s.flights, ∃ p, f.answer = some (.rotated p)

variable {kind} {s s' : State}

theorem CallOk.mono {i : Nat} {phase : Phase} (h : CallOk kind s i phase)
    (hrefreshing : s.refreshing = true → s'.refreshing = true) (hfailed : s.failed = true → s'.failed = true) :
    CallOk kind s' i phase := by
  cases phase with
  | idle => trivial
  | sent attempt bearer => exact h
  | waiting => exact ⟨hrefreshing h.1, h.2⟩
  | resumed ok => exact ⟨h.1, fun hok => hfailed (h.2 hok)⟩
  | ended outcome => exact fun hout => ⟨hfailed (h hout).1, (h hout).2⟩

theorem inv_setCall (hi : Inv kind s) {i : Nat} {phase : Phase} (token : Option Nat) (hphase : CallOk kind s i phase) :
    Inv kind (setCall { s with accessToken := token } i phase) := by
  refine { hi with single := { hi.single with calls := fun j => ?_ } }
  by_cases hj : j = i
  · subst hj
    show CallOk kind _ j (Function.update s.calls j phase j)
    rw [Function.update_self]
    exact hphase.mono id id
  · show CallOk kind _ j (Function.update s.calls i phase j)
    rw [Function.update_of_ne hj]
    exact (hi.single.calls j).mono id id

theorem last (hi : Inv kind s) {f : Flight} {flights : List Flight} (hflights : s.flights = f :: flights) : flights = [] := by
  have hone := hi.single.one
  rw [hflights, List.length_cons] at hone
  split at hone
  · exact List.length_eq_zero_iff.1 (Nat.succ.inj hone)
  · cases hone

theorem inv_refresh (hi : Inv kind s) : Inv kind (refreshAccessToken s) ∧ (refreshAccessToken s).refreshing = true := by
  unfold refreshAccessToken
  split
  · rename_i hrefreshing
    exact ⟨hi, hrefreshing⟩
  · rename_i hidle
    have hnone : s.flights = [] := by
      have := hi.single.one
      rw [if_neg hidle] at this
      exact List.length_eq_zero_iff.1 this
    refine ⟨⟨⟨by rw [hnone]; rfl, fun j => (hi.single.calls j).mono (fun _ => rfl) id, fun hlost f hf _ hmem => ?_⟩,
      ⟨hi.minted.1, List.forall_mem_cons.2 ⟨hi.minted.1, hi.minted.2.1⟩, hi.minted.2.2⟩, fun f hf p hp => ?_,
      fun hlost hmem => ?_⟩, rfl⟩
    · rw [hnone] at hf
      cases List.mem_singleton.1 hf
      obtain ⟨f, hf, -⟩ := hi.cookie hlost hmem
      rw [hnone] at hf
      cases hf
    · rw [hnone] at hf
      cases List.mem_singleton.1 hf
      cases hp
    · obtain ⟨f, hf, hp⟩ := hi.cookie hlost hmem
      exact ⟨f, List.mem_cons_of_mem _ hf, hp⟩

/-- **The refresh settles**: there is none behind it, and nobody waits any more. -/
theorem inv_settle {ok : Bool} {token : Option Nat} {cookie : Nat} {lost : Bool} (hi : Inv kind s) (hcookie : cookie < s.next)
    (hkept : lost = false → s.lost = false ∧ cookie ∉ s.exchanged) :
    Inv kind (settle ok { s with accessToken := token, cookie := cookie, flights := [], lost := lost }) := by
  refine ⟨⟨rfl, fun i => ?_, (fun _ _ hf => nomatch hf)⟩, ⟨hcookie, (fun _ hf => nomatch hf), hi.minted.2.2⟩,
    (fun _ hf => nomatch hf), fun hlost hmem => absurd hmem (hkept hlost).2⟩
  show CallOk kind _ i (if s.calls i = .waiting then .resumed ok else s.calls i)
  have hcall := hi.single.calls i
  have hfailed : s.failed = true → (s.failed || !ok) = true := fun hf => by rw [hf, Bool.true_or]
  cases hphase : s.calls i with
  | idle => trivial
  | sent attempt bearer =>
    rw [hphase] at hcall
    exact hcall
  | waiting =>
    rw [hphase] at hcall
    refine ⟨hcall.2, fun hok => ?_⟩
    show (s.failed || !ok) = true
    rw [hok, Bool.not_false, Bool.or_true]
  | resumed ok' =>
    rw [hphase] at hcall
    exact ⟨hcall.1, fun hok => hfailed (hcall.2 hok)⟩
  | ended outcome =>
    rw [hphase] at hcall
    exact fun hout => ⟨hfailed (hcall hout).1, (hcall hout).2⟩

/-- **The server takes up a refresh**; where it exchanges the token it mints the next pair. -/
theorem inv_serves (hi : Inv kind s) {accepts : Bool} (hstep : step kind s (.serves accepts) = some s') : Inv kind s' := by
  obtain ⟨hone, -, hunspent⟩ := hi.single
  unfold step at hstep
  dsimp only at hstep
  split at hstep
  · rename_i cookie flights hflights
    cases last hi hflights
    have hlt : cookie < s.next := hi.minted.2.1 ⟨cookie, none⟩ (by rw [hflights]; exact List.mem_singleton_self _)
    split at hstep
    · cases hstep
      refine ⟨⟨by rw [hflights] at hone; exact hone, fun i => (hi.single.calls i).mono id id, fun _ f hf hnone => ?_⟩,
        ⟨Nat.lt_succ_of_lt hi.minted.1, fun f hf => ?_, fun c hc => ?_⟩, fun f hf p hp => ?_,
        fun _ _ => ⟨_, List.mem_singleton_self _, _, rfl⟩⟩
      · cases List.mem_singleton.1 hf
        cases hnone
      · cases List.mem_singleton.1 hf
        exact Nat.lt_succ_of_lt hlt
      · rcases List.mem_cons.1 hc with rfl | hc
        · exact Nat.lt_succ_of_lt hlt
        · exact Nat.lt_succ_of_lt (hi.minted.2.2 c hc)
      · cases List.mem_singleton.1 hf
        cases hp
        -- the pair is younger than every token that was ever exchanged
        exact ⟨Nat.lt_succ_self _, List.not_mem_cons_of_ne_of_not_mem (Nat.ne_of_gt hlt)
          fun hmem => Nat.lt_irrefl _ (hi.minted.2.2 _ hmem)⟩
    · cases hstep
      refine ⟨⟨by rw [hflights] at hone; exact hone, fun i => (hi.single.calls i).mono id id, fun _ f hf hnone => ?_⟩,
        ⟨hi.minted.1, fun f hf => ?_, hi.minted.2.2⟩, fun f hf p hp => ?_, fun hlost hmem => ?_⟩
      · cases List.mem_singleton.1 hf
        cases hnone
      · cases List.mem_singleton.1 hf
        exact hlt
      · cases List.mem_singleton.1 hf
        cases hp
      · obtain ⟨f, hf, p, hp⟩ := hi.cookie hlost hmem
        rw [hflights] at hf
        cases List.mem_singleton.1 hf
        cases hp
  · cases hstep

theorem inv_settles (hi : Inv kind s) {heard parsed : Bool} (hstep : step kind s (.settles heard parsed) = some s') :
    Inv kind s' := by
  unfold step at hstep
  dsimp only at hstep
  split at hstep
  · rename_i cookie pair flights hflights
    cases last hi hflights
    obtain ⟨hlt, hnew⟩ := hi.pair ⟨cookie, some (.rotated pair)⟩ (by rw [hflights]; exact List.mem_singleton_self _) pair rfl
    split at hstep
    · cases hstep
      exact inv_settle hi hlt fun hlost => ⟨hlost, hnew⟩
    · cases hstep
      exact inv_settle hi hi.minted.1 nofun
  · rename_i hflights
    cases last hi hflights
    cases hstep
    -- refused: no pair is on its way, so the cookie is unspent
    refine inv_settle hi hi.minted.1 fun hlost => ⟨hlost, fun hmem => ?_⟩
    obtain ⟨f, hf, p, hp⟩ := hi.cookie hlost hmem
    rw [hflights] at hf
    cases List.mem_singleton.1 hf
    cases hp
  · rename_i hflights
    cases last hi hflights
    cases hstep
    exact inv_settle hi hi.minted.1 nofun
  · cases hstep

theorem inv_step (hi : Inv kind s) {act : Act} (hstep : step kind s act = some s') : Inv kind s' := by
  cases act with
  | calls i =>
    obtain ⟨-, heq⟩ := Option.ite_none_right_eq_some.1 hstep
    cases heq
    exact inv_setCall hi s.accessToken (Nat.zero_le 1)
  | answers i status =>
    unfold step at hstep
    dsimp only at hstep
    split at hstep
    · split at hstep
      · rename_i h401
        cases hstep
        obtain ⟨hi', hrefreshing⟩ := inv_refresh hi
        exact inv_setCall hi' _ ⟨hrefreshing, h401.2.2⟩
      · cases hstep
        exact inv_setCall hi s.accessToken nofun
    · cases hstep
  | breaks i =>
    unfold step at hstep
    dsimp only at hstep
    split at hstep
    · cases hstep
      exact inv_setCall hi s.accessToken nofun
    · cases hstep
  | serves accepts => exact inv_serves hi hstep
  | settles heard parsed => exact inv_settles hi hstep
  | continues i =>
    have hcall := hi.single.calls i
    unfold step at hstep
    dsimp only at hstep
    split at hstep
    · cases hstep
      exact inv_setCall hi s.accessToken (Nat.le_refl 1)
    · rename_i hphase _
      cases hstep
      rw [hphase] at hcall
      exact inv_setCall hi none fun _ => ⟨hcall.2 rfl, hcall.1⟩
    · cases hstep
      exact inv_setCall hi s.accessToken nofun
    · cases hstep
  | signsIn =>
    cases hstep
    have hnew : s.next ∉ s.exchanged := fun hmem => Nat.lt_irrefl _ (hi.minted.2.2 _ hmem)
    exact ⟨⟨hi.single.one, fun i => (hi.single.calls i).mono id id, hi.single.unspent⟩,
      ⟨Nat.lt_succ_self _, fun f hf => Nat.lt_succ_of_lt (hi.minted.2.1 f hf),
        fun c hc => Nat.lt_succ_of_lt (hi.minted.2.2 c hc)⟩,
      fun f hf p hp => ⟨Nat.lt_succ_of_lt (hi.pair f hf p hp).1, (hi.pair f hf p hp).2⟩, fun _ hmem => absurd hmem hnew⟩

end

/-- **However the calls of a tab run into the end of the session**, there is one refresh for all of them. -/
theorem single_flight (kind : Nat → Kind) (s : State) (h : Reaches (step kind) .start s) : s.SingleFlight kind := by
  have hi : Inv kind s := h.invariant
    ⟨⟨rfl, fun _ => trivial, (fun _ _ hf => nomatch hf)⟩,
      ⟨Nat.zero_lt_one, (fun _ hf => nomatch hf), (fun _ hc => nomatch hc)⟩, (fun _ hf => nomatch hf),
      (fun _ hmem => nomatch hmem)⟩
    (fun _ _ _ hi _ hstep => inv_step hi hstep)
  exact hi.single

/-- A list, a stream and a login; the first two share the refresh. -/
def tab : Nat → Kind
  | 0 => .request "/api/conversations"
  | 1 => .stream
  | _ => .request "/api/auth/login"

def shared : List Act :=
  [.calls 0, .calls 1, .calls 2, .answers 0 401, .serves true, .answers 1 401, .answers 2 401, .settles true true,
    .continues 1, .continues 0, .answers 1 200, .answers 0 401]

theorem single_flight_shared : (Trace.play (step tab) .start shared).SingleFlight tab :=
  single_flight tab _ (Trace.reaches_play (by decide))

end Refresh
end Client
end MyGpt
