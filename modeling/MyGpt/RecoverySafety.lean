import MyGpt.OneExecutor
import MyGpt.RunFrames
/-!
# RecoverySafety — when the recovery acts on abandoned runs only

The scan infers death from an expired lease, or from no lease at all, and its reconcile checks neither again; a turn the
API process streams has no lease from the start.  At the commit of a reconcile no process executes the run in every run of
the system in which leases are kept on time, no claim and no renewal commits between the find and the reconcile, and the
scan does not find a run that the API process is streaming (`recovery_acts_on_abandoned`).
-/
namespace MyGpt
namespace Run

open Trace (Runs Reaches play reaches_play)

def Scanner.suspects : Scanner → Bool
  | .readLease (some _) | .readRun (some _) | .readActive (some _) _ | .candidate _ | .loaded .. | .counted .. => true
  | _ => false

def Scanner.holds : Scanner → Bool
  | .candidate _ | .loaded .. | .counted .. => true
  | _ => false

def Scanner.sawRun : Scanner → Bool
  | .readRun (some _) | .readActive (some _) _ | .readActive none true | .candidate _ | .loaded .. | .counted .. => true
  | _ => false

/-- **No claim and no renewal commits between the find and the reconcile, and the scan takes no run for abandoned that
the API process is streaming.** -/
def ScanUndisturbed (s : World) : Act → Prop
  | .worker _ (.claim _) => s.scanner.suspects = false
  | .worker _ .renewWrite => s.scanner.suspects = false
  | .scan .findNoLease => s.inline.live = false
  | _ => True

/-! ## what the scan knows -/

def LeaseDead (s : Shared) : Prop := ∀ l, s.db.lease = some l → l.isExpired s.clock = true

structure ScanKnows (s : World) : Prop where
  dead : s.scanner.suspects = true → LeaseDead s.shared
  exists_run : s.scanner.sawRun = true → s.shared.db.run.isSome = true
  notStreamed : s.scanner.holds = true → s.inline.live = false

theorem scanKnows_initial {s : World} (h : World.Initial s) : ScanKnows s := by
  cases h with
  | durable | streamed =>
    refine ⟨fun hs => ?_, fun hs => ?_, fun hs => ?_⟩ <;> cases hs

theorem holds_suspects {r : Scanner} (h : r.holds = true) : r.suspects = true ∧ r.sawRun = true := by
  cases r <;> first | exact ⟨rfl, rfl⟩ | cases h

theorem scanKnows_of_unsuspecting {s : World} (hs : s.scanner.suspects = false) (hr : s.scanner.sawRun = false) :
    ScanKnows s := by
  refine ⟨fun h => ?_, fun h => ?_, fun h => ?_⟩
  · rw [hs] at h; cases h
  · rw [hr] at h; cases h
  · rw [(holds_suspects h).1] at hs; cases hs

theorem leaseDead_of_lease {s s' : Shared} (h : LeaseDead s) (hclock : s.clock ≤ s'.clock)
    (hl : ∀ l, s'.db.lease = some l → s.db.lease = some l) : LeaseDead s' := by
  intro l hl'
  exact isExpired_mono hclock (h l (hl l hl'))

theorem expiredLease_dead {s : Shared} {id : Nat} (h : expiredLease s.db.lease s.clock = some id) : LeaseDead s := by
  intro l hl
  obtain ⟨l', hl', -⟩ := Option.map_eq_some_iff.1 h
  obtain ⟨hs, hexp⟩ := Option.filter_eq_some_iff.1 hl'
  cases hs.symm.trans hl
  exact hexp

theorem scanKnows_scan {cfg : Settings} {s : World} {sa : ScanAct} {sh : Shared} {r : Scanner} (hinv : ScanKnows s)
    (hok : ScanUndisturbed s (.scan sa)) (hm : ScanMove cfg s.shared s.scanner sa sh r) :
    ScanKnows { s with shared := sh, scanner := r } := by
  cases hm with
  | findLease hr =>
    cases he : expiredLease s.shared.db.lease s.shared.clock with
    | none => exact scanKnows_of_unsuspecting rfl rfl
    | some id =>
      refine ⟨fun _ => expiredLease_dead he, fun hs => ?_, fun hs => ?_⟩
      · cases hs
      · cases hs
  | findRun expired hr =>
    refine ⟨fun hs => hinv.dead ?_, fun hs => ?_, fun hs => (by cases hs)⟩
    · dsimp only at hs
      rw [hr]
      cases expired with
      | none => cases hs
      | some id => rfl
    · dsimp only at hs ⊢
      cases hrun : s.shared.db.run with
      | none => cases expired <;> simp [hrun, Option.filter, Scanner.sawRun] at hs
      | some row => rfl
  | findActive c hr =>
    refine ⟨fun hs => hinv.dead ?_, fun hs => ?_, fun hs => (by cases hs)⟩
    · dsimp only at hs
      rw [hr]
      cases c with
      | none => cases hs
      | some id => rfl
    · dsimp only at hs ⊢
      cases hrun : s.shared.db.run with
      | none =>
        cases c with
        | none => simp [hrun, Scanner.sawRun] at hs
        | some id => rw [← hrun]; exact hinv.exists_run (by rw [hr]; rfl)
      | some row => rfl
  | expired id active hr =>
    exact ⟨fun _ => hinv.dead (by rw [hr]; rfl), fun _ => hinv.exists_run (by rw [hr]; rfl), fun _ => hok⟩
  | noLease hr hl =>
    refine ⟨fun _ l hl' => ?_, fun _ => hinv.exists_run (by rw [hr]; rfl), fun _ => hok⟩
    rw [hl] at hl'
    cases hl'
  | load leaseId row hr | count leaseId row hr =>
    exact ⟨fun _ => hinv.dead (by rw [hr]; rfl), fun _ => hinv.exists_run (by rw [hr]; rfl),
      fun _ => hinv.notStreamed (by rw [hr]; rfl)⟩
  | commit leaseId row n hr => by_cases hn : n < cfg.maxRetries <;> simp only [hn] <;> exact scanKnows_of_unsuspecting rfl rfl
  | nothing | loadOver | requeue | fails => exact scanKnows_of_unsuspecting rfl rfl

theorem turnMove_live {now : Nat} {db db' : Db} {t t' : Turn} {a : TurnAct} (h : TurnMove now db t a db' t')
    (hs : t.stage ≠ .start) : t.live = true := by
  cases h with
  | notFound h₁ => exact absurd h₁ hs
  | load row h₁ => exact absurd h₁ hs
  | emit name data h₁ =>
    rcases h₁ with h₁ | ⟨e, h₁, -⟩
    · simp [Turn.live, h₁]
    · simp [Turn.live, h₁]
  | earlyError _ h₁ | setupFails h₁ | refuse _ h₁ | refuseFails _ h₁ | startRun _ h₁ | startFails _ h₁
  | checkpoint _ h₁ | flip _ _ _ h₁ | approvalCancelled _ h₁ | finish _ h₁ | runOut h₁ | select _ _ h₁
  | selectNothing _ _ h₁ | update _ _ _ h₁ | updateFails _ _ _ h₁ | append _ h₁ | appendFails _ h₁ | settle _ _ _ h₁
  | gateFails _ h₁ | interrupt _ _ _ h₁ => simp [Turn.live, h₁]

theorem scanKnows_step {cfg : Settings} {s s' : World} {a : Act} (hinv : ScanKnows s) (hok : ScanUndisturbed s a)
    (h : step cfg s a = some s') : ScanKnows s' := by
  have hmove := step_move h
  have hsaw : s.scanner.sawRun = true → s'.shared.db.run.isSome = true := fun hs =>
    move_isSome hmove (hinv.exists_run hs)
  cases hmove with
  | tick seconds =>
    exact ⟨fun hs => leaseDead_of_lease (hinv.dead hs) (Nat.le_add_right _ _) (fun _ hl => hl), hsaw, hinv.notStreamed⟩
  | enqueue | reclaim => exact ⟨hinv.dead, hsaw, hinv.notStreamed⟩
  | worker me wa sh w hm =>
    refine ⟨fun hs => ?_, hsaw, hinv.notStreamed⟩
    obtain ⟨hclock, hlease⟩ := workerMove_lease hm
    have hdead := hinv.dead hs
    have hle : s.shared.clock ≤ sh.clock := Nat.le_of_eq hclock.symm
    rcases hlease with hl | ⟨_, _, _, _, _, rfl, -⟩ | ⟨_, _, _, rfl, -⟩ | ⟨-, -, -, hl⟩
    · exact leaseDead_of_lease hdead hle (fun l hl' => by rw [← hl]; exact hl')
    · rw [show s.scanner.suspects = false from hok] at hs; cases hs
    · rw [show s.scanner.suspects = false from hok] at hs; cases hs
    · exact leaseDead_of_lease hdead hle (fun l hl' => deleteLease_some (by rw [← hl]; exact hl'))
  | scan sa sh r hm => exact scanKnows_scan hinv hok hm
  | cancel k ca sh c hm => cases hm <;> exact ⟨hinv.dead, hsaw, hinv.notStreamed⟩
  | inline ia sh t hm =>
    cases hm with
    | create runtime db t' hst hc =>
      -- a run the scan has seen is not created again
      unfold createRun at hc
      cases hrun : s.shared.db.run with
      | some row => rw [hrun] at hc; cases hc
      | none =>
        rw [hrun] at hc
        cases hc
        refine ⟨hinv.dead, hsaw, fun hs => ?_⟩
        have hsome := hinv.exists_run (holds_suspects hs).2
        rw [hrun] at hsome
        cases hsome
    | turn ta db t' hst ht =>
      obtain ⟨-, hm'⟩ := turnStep_move ht
      refine ⟨fun hs l hl => hinv.dead hs l (by rw [← turnMove_lease hm']; exact hl), hsaw, fun hs => ?_⟩
      have hlive := turnMove_live hm' hst
      rw [hinv.notStreamed hs] at hlive
      cases hlive
    | send evt rest ho => exact ⟨hinv.dead, hsaw, hinv.notStreamed⟩

/-! ## every run -/

def ActsOnAbandoned (s s' : World) : Prop :=
  (∀ w, (s.workers w).phase.executing = false) ∧ s.inline.live = false ∧
    (s.shared.liveLease = true → s'.shared.db.lease = s.shared.db.lease ∧ s'.status = s.status)

def RecoveryOk (cfg : Settings) (s : World) (a : Act) : Prop := DeliveryOk s a ∧ OnTime cfg s a ∧ ScanUndisturbed s a

theorem deletesExpired_of_knows {s : World} (hinv : ScanKnows s) (a : Act) : DeletesExpired s a := by
  cases a with
  | scan sa =>
    cases sa with
    | commit =>
      intro id row n l hr hl _
      exact hinv.dead (by rw [hr]; rfl) l hl
    | _ => trivial
  | _ => trivial

/-- **The recovery acts on abandoned runs only**: in every run in which leases are kept on time and the scan is not
disturbed, no process executes the run when a reconcile commits, and no live lease is there to be deleted. -/
theorem recovery_acts_on_abandoned (cfg : Settings) {s₀ s s' : World} (h₀ : World.Initial s₀)
    (h : Runs (step cfg) (RecoveryOk cfg) s₀ s) (hs : step cfg s (.scan .commit) = some s') : ActsOnAbandoned s s' := by
  have hall : ClaimingAlone s ∧ ExecutesOwn s ∧ ScanKnows s := by
    refine h.invariant (P := fun t => ClaimingAlone t ∧ ExecutesOwn t ∧ ScanKnows t)
      ⟨claimingAlone_initial h₀, executesOwn_initial h₀, scanKnows_initial h₀⟩ ?_
    rintro t a t' ⟨hclaim, hown, hscan⟩ ⟨hdel, htime, hquiet⟩ hstep
    exact ⟨claimingAlone_step hclaim hdel hstep,
      executesOwn_step hclaim hown hdel htime (deletesExpired_of_knows hscan a) hstep, scanKnows_step hscan hquiet hstep⟩
  obtain ⟨-, hown, hscan⟩ := hall
  have hholds : s.scanner.holds = true := by
    cases step_move hs with
    | scan sa sh r hm => cases hm with | commit leaseId row n hr => rw [hr]; rfl
  have hdead := hscan.dead (holds_suspects hholds).1
  refine ⟨fun w => ?_, hscan.notStreamed hholds, fun hlive => ?_⟩
  · by_contra hne
    obtain ⟨l, hl, -, hlt⟩ := hown.own w (by simpa using hne)
    have hexp := hdead l hl
    rw [not_expired_iff.2 hlt] at hexp
    cases hexp
  · unfold Shared.liveLease at hlive
    cases hl : s.shared.db.lease with
    | none => rw [hl] at hlive; cases hlive
    | some l =>
      rw [hl, Option.any_some, hdead l hl] at hlive
      cases hlive

def crashedThenScanned : List Act :=
  [.enqueue, .worker 0 .deliver, .worker 0 .loadRun, .worker 0 .readLease, .worker 0 (.claim true), .worker 0 .crash,
    .tick 130, .scan .findLease, .scan .findRun, .scan .findActive, .scan .findNoLease, .scan .load, .scan .count]

/-- The run of a dead worker is requeued. -/
theorem recovery_acts_on_abandoned_crashed :
    ActsOnAbandoned (play (step {}) World.durable crashedThenScanned)
      (play (step {}) World.durable (crashedThenScanned ++ [.scan .commit])) := by
  have hdeliver : RecoveryOk {} (play (step {}) World.durable [.enqueue]) (.worker 0 .deliver) :=
    ⟨⟨fun _ hl => (by cases hl), fun _ _ => rfl⟩, trivial, trivial⟩
  have hclaimed : RecoveryOk {} (play (step {}) World.durable (crashedThenScanned.take 4)) (.worker 0 (.claim true)) :=
    ⟨trivial, fun _ _ _ hp => (by cases hp; decide), rfl⟩
  have htick : RecoveryOk {} (play (step {}) World.durable (crashedThenScanned.take 6)) (.tick 130) := by
    refine ⟨trivial, ?_, trivial⟩
    rintro (_ | w) l he
    · cases he
    · cases he
  have hquiet : ∀ s sa, sa ≠ .findNoLease → RecoveryOk {} s (.scan sa) := by
    intro s sa hne
    cases sa with
    | findNoLease => exact absurd rfl hne
    | _ => exact ⟨trivial, trivial, trivial⟩
  have hcrash : Runs (step {}) (RecoveryOk {}) World.durable (play (step {}) World.durable (crashedThenScanned.take 6)) :=
    .next (.worker 0 .crash) (.next (.worker 0 (.claim true)) (.next (.worker 0 .readLease) (.next (.worker 0 .loadRun)
      (.next (.worker 0 .deliver) (.next .enqueue .refl ⟨trivial, trivial, trivial⟩ rfl) hdeliver rfl)
      ⟨trivial, trivial, trivial⟩ rfl) ⟨trivial, trivial, trivial⟩ rfl) hclaimed rfl) ⟨trivial, trivial, trivial⟩ rfl
  have hscan : Runs (step {}) (RecoveryOk {}) World.durable (play (step {}) World.durable crashedThenScanned) :=
    .next (.scan .count) (.next (.scan .load) (.next (.scan .findNoLease) (.next (.scan .findActive)
      (.next (.scan .findRun) (.next (.scan .findLease) (.next (.tick 130) hcrash htick rfl)
      (hquiet _ _ nofun) rfl) (hquiet _ _ nofun) rfl) (hquiet _ _ nofun) rfl) ⟨trivial, trivial, rfl⟩ rfl)
      (hquiet _ _ nofun) rfl) (hquiet _ _ nofun) rfl
  exact recovery_acts_on_abandoned {} .durable hscan rfl

def streamedThenScanned : List Act :=
  [.inline (.create "native"), .scan .findLease, .scan .findRun, .scan .findActive, .scan .findNoLease, .scan .load,
    .scan .count]

/-- The reconcile then requeues it while it is being streamed. -/
theorem streamed_run_requeued :
    ¬ ∀ (cfg : Settings) (s₀ s s' : World), World.Initial s₀ → Reaches (step cfg) s₀ s →
      step cfg s (.scan .commit) = some s' → ActsOnAbandoned s s' := by
  intro h
  have hacts := h {} _ (play (step {}) World.streamed streamedThenScanned)
    (play (step {}) World.streamed (streamedThenScanned ++ [.scan .commit])) .streamed (reaches_play (by decide)) rfl
  exact absurd hacts.2.1 (by decide)

end Run
end MyGpt
