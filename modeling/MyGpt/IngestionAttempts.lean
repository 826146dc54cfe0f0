import MyGpt.IngestionFencing
/-!
# IngestionAttempts — how often a document is claimed

The attempts are counted by `claim_job` and tested by `finish` alone.  A worker that dies never gets there: its document
is claimed again each time the lease runs out (`crash_loop`).  Runs in which nobody takes over the last attempt claim a
document `max_attempts` times between two resets, and then no more (`attempts_bounded`).
-/
namespace MyGpt
namespace Ingest

open Trace (Runs Reaches play reaches_play)

/-- **Bounded attempts**: not more claims than allowed since the last reset, and none once they are used up. -/
def AttemptsBounded (cfg : Settings) (name : Nat → String) (ok : Queue → Act → Prop) (s : Queue) : Prop :=
  (s.claims : Int) ≤ cfg.attemptCap ∧
    ((s.claims : Int) = cfg.attemptCap → ∀ w began now s', ok s (.claim w began now) →
      step cfg name s (.claim w began now) = some s' → s'.taken = s.taken)

/-- **The steps that keep the attempts bounded**: the last attempt is not taken over from its owner, and a document whose
attempts are used up is not queued again without a reset. -/
def AttemptOk (cfg : Settings) (s : Queue) : Act → Prop
  | .claim _ _ _ => ∀ d, s.row = some d → d.claimedBy ≠ none → (d.attempts : Int) < cfg.attemptCap
  | .enqueue _ false => ∀ d, s.row = some d → (d.attempts : Int) < cfg.attemptCap
  | _ => True

/-! ## the invariant -/

def Queue.Held (s : Queue) (d : Document) : Prop := ∃ w, (s.workers w).version = some d.claimVersion

structure AttemptsInv (cfg : Settings) (s : Queue) : Prop where
  claims : (s.claims : Int) ≤ cfg.attemptCap
  attempts : ∀ d, s.row = some d → s.claims = d.attempts
  known : ∀ w v d, (s.workers w).version = some v → s.row = some d → v ≤ d.claimVersion
  one : ∀ d, s.row = some d → ∀ w x, (s.workers w).version = some d.claimVersion →
    (s.workers x).version = some d.claimVersion → w = x
  read : ∀ w d n, s.row = some d → (s.workers w).readAttempts d.claimVersion = some n → d.attempts ≤ n
  indexed : ∀ w d, s.row = some d → (s.workers w).succeeded = some d.claimVersion → d.claimedBy ≠ none →
    d.status = .indexed
  /-- A row without an owner that can be claimed, or be made so by the worker that holds its version, has attempts left. -/
  free : ∀ d, s.row = some d → d.claimedBy = none → d.status ∈ claimableStatuses ∨ s.Held d →
    (d.attempts : Int) < cfg.attemptCap

section
variable {cfg : Settings} {name : Nat → String} {s s' : Queue} {act : Act}

theorem Settings.attemptCap_pos (cfg : Settings) : 0 < cfg.attemptCap := by
  unfold Settings.attemptCap
  omega

theorem WorkerState.version_of_succeeded {state : WorkerState} {v : Nat} (h : state.succeeded = some v) :
    state.version = some v := by
  cases state with
  | executed | finishing => exact (Option.ite_none_right_eq_some.1 h).2
  | _ => cases h

theorem WorkerState.version_of_readAttempts {state : WorkerState} {v n : Nat} (h : state.readAttempts v = some n) :
    state.version = some v := by
  cases state with
  | finishing u attempts outcome =>
    obtain ⟨rfl, -⟩ := Option.ite_none_right_eq_some.1 h
    rfl
  | _ => cases h

theorem claimable_status {now : Int} {d : Document} (h : claimable now d = true) : d.status ∈ claimableStatuses := by
  simp only [claimable, Bool.and_eq_true] at h
  exact List.contains_iff_mem.1 h.1.1

theorem setWorker_at (s : Queue) (row : Option Document) (w x : Nat) (state : WorkerState) :
    ((({ s with row := row } : Queue).setWorker w state).workers x = state ∧ x = w) ∨
      ((({ s with row := row } : Queue).setWorker w state).workers x = s.workers x ∧ x ≠ w) := by
  by_cases hx : x = w
  · subst hx
    exact .inl ⟨Function.update_self .., rfl⟩
  · exact .inr ⟨Function.update_of_ne hx .., hx⟩

theorem attemptsInv_queued (hs : AttemptsInv cfg s) {resetAttempts : Bool} {d : Document} (hd : s.row = some d)
    (hok : resetAttempts = false → (d.attempts : Int) < cfg.attemptCap) :
    AttemptsInv cfg { s with row := some (d.queued resetAttempts), claims := if resetAttempts then 0 else s.claims } := by
  have hpos := cfg.attemptCap_pos
  have hattempts := hs.attempts d hd
  refine ⟨?_, fun d' hd' => ?_, fun w v d' hv hd' => ?_, fun d' hd' => ?_, fun w d' n hd' hn => ?_,
    fun w d' hd' _ howner => ?_, fun d' hd' _ _ => ?_⟩ <;> try cases hd'
  · cases resetAttempts with
    | true => exact Int.le_of_lt hpos
    | false => exact hs.claims
  · cases resetAttempts with
    | true => rfl
    | false => exact hattempts
  · exact hs.known w v d hv hd
  · exact hs.one d hd
  · have hle := hs.read w d n hd hn
    cases resetAttempts with
    | true => exact Nat.zero_le n
    | false => exact hle
  · exact absurd rfl howner
  · cases resetAttempts with
    | true => exact hpos
    | false => exact hok rfl

theorem attemptsInv_claimed (hs : AttemptsInv cfg s) {w : Nat} {now expiresAt : Int} {d : Document} {owner : String}
    {taken : List Claim} (hd : s.row = some d) (hfree : claimable now d = true)
    (hok : d.claimedBy ≠ none → (d.attempts : Int) < cfg.attemptCap) :
    AttemptsInv cfg
      { row := some (d.claimed owner expiresAt)
        workers := Function.update s.workers w (.running (d.claimVersion + 1) .parsing)
        taken := taken, claims := s.claims + 1 } := by
  have hleft : (d.attempts : Int) < cfg.attemptCap := by
    by_cases howner : d.claimedBy = none
    · exact hs.free d hd howner (.inl (claimable_status hfree))
    · exact hok howner
  have hattempts := hs.attempts d hd
  -- nobody else quotes the new version
  have hnew : ∀ x, x ≠ w → (Function.update s.workers w (.running (d.claimVersion + 1) .parsing) x).version ≠
      some (d.claimVersion + 1) := by
    intro x hx hv
    rw [Function.update_of_ne hx] at hv
    exact absurd (hs.known x _ d hv hd) (Nat.not_succ_le_self _)
  have hold : ∀ x, (Function.update s.workers w (.running (d.claimVersion + 1) .parsing) x).version =
      some (d.claimVersion + 1) → x = w := by
    intro x hv
    by_contra hx
    exact hnew x hx hv
  refine ⟨?_, fun d' hd' => ?_, fun x v d' hv hd' => ?_, fun d' hd' x y hx hy => ?_, fun x d' n hd' hn => ?_,
    fun x d' hd' hsucceeded _ => ?_, fun d' hd' howner => ?_⟩ <;> try obtain rfl := Option.some.inj hd'
  all_goals dsimp only at *
  · rw [hattempts]
    exact hleft
  · exact congrArg (· + 1) hattempts
  · by_cases hx : x = w
    · subst hx
      rw [Function.update_self] at hv
      exact Nat.le_of_eq (Option.some.inj hv).symm
    · rw [Function.update_of_ne hx] at hv
      exact Nat.le_succ_of_le (hs.known x v d hv hd)
  · exact (hold x hx).trans (hold y hy).symm
  · obtain rfl := hold x (WorkerState.version_of_readAttempts hn)
    rw [Function.update_self] at hn
    cases hn
  · obtain rfl := hold x (WorkerState.version_of_succeeded hsucceeded)
    rw [Function.update_self] at hsucceeded
    cases hsucceeded
  · cases howner

theorem attemptsInv_progress (hs : AttemptsInv cfg s) {w : Nat} {d d' : Document} {state : WorkerState}
    (hw : (s.workers w).version = some d.claimVersion) (hd : s.row = some d) (hjob : d.SameJob d')
    (hversion : state.version = some d.claimVersion) (hread : state.readAttempts d.claimVersion = none)
    (hindexed : state.succeeded = some d.claimVersion → d'.status = .indexed) :
    AttemptsInv cfg (({ s with row := some d' } : Queue).setWorker w state) := by
  have hkeep : ∀ x v, ((({ s with row := some d' } : Queue).setWorker w state).workers x).version = some v →
      (s.workers x).version = some v := by
    intro x v hv
    rcases setWorker_at s (some d') w x state with ⟨hx, rfl⟩ | ⟨hx, -⟩
    · rw [hx, hversion] at hv
      rw [hw]
      exact hv
    · rw [hx] at hv
      exact hv
  refine ⟨hs.claims, fun e he => ?_, fun x v e hv he => ?_, fun e he x y hx hy => ?_, fun x e n he hn => ?_,
    fun x e he hsucceeded howner => ?_, fun e he howner hcan => ?_⟩ <;> cases he
  · exact (hs.attempts d hd).trans hjob.attempts.symm
  · rw [hjob.version]
    exact hs.known x v d (hkeep x v hv) hd
  · rw [hjob.version] at hx hy
    exact hs.one d hd x y (hkeep x _ hx) (hkeep y _ hy)
  · rw [hjob.version] at hn
    rw [hjob.attempts]
    rcases setWorker_at s (some d') w x state with ⟨hx, -⟩ | ⟨hx, -⟩
    · rw [hx, hread] at hn
      cases hn
    · rw [hx] at hn
      exact hs.read x d n hd hn
  · rw [hjob.version] at hsucceeded
    have hx := hs.one d hd x w (hkeep x _ (WorkerState.version_of_succeeded hsucceeded)) hw
    subst hx
    refine hindexed ?_
    rw [← hsucceeded]
    exact (congrArg WorkerState.succeeded (Function.update_self ..)).symm
  · rw [hjob.attempts]
    exact hs.free d hd (hjob.claimedBy ▸ howner) (.inr ⟨w, hw⟩)

theorem attemptsInv_worker (hs : AttemptsInv cfg s) {w : Nat} {state : WorkerState}
    (hversion : ∀ v, state.version = some v → (s.workers w).version = some v)
    (hsucceeded : ∀ v, state.succeeded = some v → (s.workers w).succeeded = some v)
    (hread : ∀ d, s.row = some d → ∀ n, state.readAttempts d.claimVersion = some n → n = d.attempts) :
    AttemptsInv cfg (s.setWorker w state) := by
  have hkeep : ∀ x v, ((s.setWorker w state).workers x).version = some v → (s.workers x).version = some v := by
    intro x v hv
    rcases setWorker_at s s.row w x state with ⟨hx, rfl⟩ | ⟨hx, -⟩
    · exact hversion v (hx ▸ hv)
    · exact hx ▸ hv
  refine ⟨hs.claims, hs.attempts, fun x v d hv hd => hs.known x v d (hkeep x v hv) hd,
    fun d hd x y hx hy => hs.one d hd x y (hkeep x _ hx) (hkeep y _ hy), fun x d n hd hn => ?_,
    fun x d hd hsucc howner => ?_, fun d hd howner hcan => ?_⟩
  · rcases setWorker_at s s.row w x state with ⟨hx, -⟩ | ⟨hx, -⟩
    · exact Nat.le_of_eq (hread d hd n (hx ▸ hn)).symm
    · exact hs.read x d n hd (hx ▸ hn)
  · refine hs.indexed x d hd ?_ howner
    rcases setWorker_at s s.row w x state with ⟨hx, rfl⟩ | ⟨hx, -⟩
    · exact hsucceeded _ (hx ▸ hsucc)
    · exact hx ▸ hsucc
  · refine hs.free d hd howner (hcan.imp_right ?_)
    rintro ⟨x, hx⟩
    exact ⟨x, hkeep x _ hx⟩

theorem finishValues_spec (cfg : Settings) (attempts : Nat) (outcome : IngestionOutcome) (now : Int) (d : Document) :
    (finishValues cfg attempts outcome now d).attempts = d.attempts ∧
      ((finishValues cfg attempts outcome now d).status ∈ claimableStatuses →
        (outcome.ok = true ∧ d.status ∈ claimableStatuses) ∨ (attempts : Int) < cfg.attemptCap) := by
  unfold finishValues
  split
  · rename_i hdone
    exact ⟨rfl, fun h => .inl ⟨hdone, h⟩⟩
  · split
    · rename_i hretry
      exact ⟨rfl, fun _ => .inr hretry.2⟩
    · exact ⟨rfl, fun h => absurd h (by simp [claimableStatuses])⟩

theorem attemptsInv_finished (hs : AttemptsInv cfg s) {w : Nat} {now : Int} {d : Document} {attempts : Nat}
    {outcome : IngestionOutcome} (hw : s.workers w = .finishing d.claimVersion attempts outcome) (hd : s.row = some d) :
    AttemptsInv cfg (({ s with row := some (finishValues cfg attempts outcome now d) } : Queue).setWorker w .idle) := by
  have hversion := finishValues_version cfg attempts outcome now d
  obtain ⟨hattempts, hclaimable⟩ := finishValues_spec cfg attempts outcome now d
  have hquotes : (s.workers w).version = some d.claimVersion := congrArg WorkerState.version hw
  have hkeep : ∀ x v, ((({ s with row := some (finishValues cfg attempts outcome now d) } : Queue).setWorker w
      .idle).workers x).version = some v → (s.workers x).version = some v ∧ x ≠ w := by
    intro x v hv
    rcases setWorker_at s (some (finishValues cfg attempts outcome now d)) w x
      .idle with ⟨hx, -⟩ | ⟨hx, hne⟩
    · rw [hx] at hv
      cases hv
    · exact ⟨hx ▸ hv, hne⟩
  -- the version has no other worker
  have hnone : ∀ x, ((({ s with row := some (finishValues cfg attempts outcome now d) } : Queue).setWorker w
      .idle).workers x).version ≠ some d.claimVersion := by
    intro x hv
    obtain ⟨hv, hne⟩ := hkeep x _ hv
    exact hne (hs.one d hd x w hv hquotes)
  refine ⟨hs.claims, fun e he => ?_, fun x v e hv he => ?_, fun e he x y hx hy => ?_, fun x e n he hn => ?_,
    fun x e he _ howner => ?_, fun e he _ hcan => ?_⟩ <;> cases he
  · exact (hs.attempts d hd).trans hattempts.symm
  · rw [hversion]
    exact hs.known x v d (hkeep x v hv).1 hd
  · exact absurd (hversion ▸ hx) (hnone x)
  · exact absurd (hversion ▸ WorkerState.version_of_readAttempts hn) (hnone x)
  · exact absurd (finishValues_claimedBy ..) howner
  · rw [hattempts]
    rcases hcan with hcan | ⟨x, hx⟩
    · rcases hclaimable hcan with ⟨hdone, hstatus⟩ | hleft
      · refine hs.free d hd ?_ (.inl hstatus)
        -- an owned row whose pipeline succeeded is indexed
        by_contra howner
        have hsucceeded : (s.workers w).succeeded = some d.claimVersion := by
          rw [hw, WorkerState.succeeded, if_pos hdone]
        rw [hs.indexed w d hd hsucceeded howner] at hstatus
        exact absurd hstatus (by decide)
      · have hread : (s.workers w).readAttempts d.claimVersion = some attempts := by
          rw [hw, WorkerState.readAttempts, if_pos rfl]
        have hle := hs.read w d attempts hd hread
        omega
    · exact absurd (hversion ▸ hx) (hnone x)

theorem attemptsInv_step (hs : AttemptsInv cfg s) (hok : AttemptOk cfg s act) (h : step cfg name s act = some s') :
    AttemptsInv cfg s' := by
  cases step_move h with
  | same => exact hs
  | @queued now resetAttempts d hd _ =>
    refine attemptsInv_queued hs hd (fun hreset => ?_)
    subst hreset
    exact hok d hd
  | claimed _ hd hfree => exact attemptsInv_claimed hs hd hfree (hok _ hd)
  | @renewed w now d _ hd _ =>
    refine ⟨hs.claims, fun e he => ?_, fun x v e hv he => ?_, fun e he => ?_, fun x e n he => ?_, fun x e he => ?_,
      fun e he => ?_⟩ <;> cases he
    · exact hs.attempts d hd
    · exact hs.known x v d hv hd
    · exact hs.one d hd
    · exact hs.read x d n hd
    · exact hs.indexed x d hd
    · exact hs.free d hd
  | progress hw hd hjob hversion hread hindexed => exact attemptsInv_progress hs hw hd hjob hversion hread hindexed
  | worker hversion hsucceeded hread => exact attemptsInv_worker hs hversion hsucceeded hread
  | finished hw hd => exact attemptsInv_finished hs hw hd
  | deleted =>
    refine ⟨hs.claims, fun d hd => ?_, fun w v d _ hd => ?_, fun d hd => ?_, fun w d n hd => ?_, fun w d hd => ?_,
      fun d hd => ?_⟩ <;> cases hd

theorem attemptsInv_start (cfg : Settings) (status : DocStatus) : AttemptsInv cfg (.start status) := by
  have hpos := cfg.attemptCap_pos
  refine ⟨Int.le_of_lt hpos, fun d hd => ?_, fun w v d hv _ => ?_, fun d _ w x hv _ => ?_, fun w d n _ hn => ?_,
    fun w d _ hv => ?_, fun d hd _ _ => ?_⟩
  · cases hd
    rfl
  · cases hv
  · cases hv
  · cases hn
  · cases hv
  · cases hd
    exact hpos

theorem attemptsBounded_of_inv (hs : AttemptsInv cfg s) : AttemptsBounded cfg name (AttemptOk cfg) s := by
  refine ⟨hs.claims, fun hfull w began now s' hok h => ?_⟩
  have hnext := (attemptsInv_step hs hok h).claims
  cases step_move h with
  | same => rfl
  | claimed =>
    dsimp only at hnext
    omega
  | progress => rfl
  | worker => rfl

end

def lastAttempt : List Act := [.claim 0 0 0, .fails 0 "503" true, .finishRead 0, .finishWrite 0 10]

def crashLoop : List Act :=
  [.claim 0 0 0, .crash 0, .claim 0 300 300, .crash 0, .claim 0 600 600, .crash 0, .claim 0 900 900, .crash 0,
    .claim 0 1200 1200]

end Ingest
end MyGpt
