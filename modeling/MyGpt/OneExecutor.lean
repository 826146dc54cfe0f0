import MyGpt.RunMoves
/-!
# OneExecutor — when a run has one executor at a time

`LeaseStore.acquire` takes over whatever lease it finds, so what keeps a second worker off a run is the queue alone.  A
worker starts the run with no live lease of another in place in every run whose deliveries find none and overlap no other
claim (`starts_alone`), and two workers never execute it at once when moreover leases are written and released on time
(`one_executor`).
-/
namespace MyGpt
namespace Run

open Trace (Runs Reaches play reaches_play)

def NoLiveOther (s : Shared) (w : Owner) : Prop := ∀ l, s.db.lease = some l → l.owner = w ∨ l.isExpired s.clock = true

/-- **The queue delivers the run only while no other worker has a live lease on it or is on its way to one**, and no
renewal brings an expired lease back under a worker on its way. -/
def DeliveryOk (s : World) : Act → Prop
  | .worker w .deliver => NoLiveOther s.shared w ∧ ∀ v, v ≠ w → (s.workers v).phase.claiming = false
  | .worker w .renewWrite => (∃ v, v ≠ w ∧ (s.workers v).phase.claiming = true) →
      ∀ row, s.shared.db.lease = some row → row.owner = w ∧ row.isExpired s.shared.clock = false
  | _ => True

def Phase.own : Phase → Option RunLease
  | .abandonRead own | .finLease _ own | .finRun _ own _ => own
  | _ => none

/-- **Leases are kept on time**: no executing worker's lease runs out, claims and renewals commit within the time they
grant, and a renewal or a release commits while the row it read is still the worker's. -/
def OnTime (cfg : Settings) (s : World) : Act → Prop
  | .tick seconds => ∀ w l, (s.workers w).phase.executing = true → s.shared.db.lease = some l → l.owner = w →
      s.shared.clock + seconds < l.expiresAt
  | .worker w (.claim _) => ∀ row lease now, (s.workers w).phase = .leaseRead row lease now →
      s.shared.clock < now + cfg.leaseTtl
  | .worker w .renewWrite => ∀ l now row, (s.workers w).renewal = .read l now → s.shared.db.lease = some row →
      row.id = l.id → row.owner = w ∧ s.shared.clock < now + cfg.leaseTtl
  | .worker w (.commitFinal true) => ∀ l row, (s.workers w).phase.own = some l → s.shared.db.lease = some row →
      row.id = l.id → row.owner = w
  | _ => True

def DeletesExpired (s : World) : Act → Prop
  | .scan .commit => ∀ id row n l, s.scanner = .counted (some id) row n → s.shared.db.lease = some l → l.id = id →
      l.isExpired s.shared.clock = true
  | _ => True

/-! ## how the lease changes -/

theorem isExpired_mono {l : RunLease} {now now' : Nat} (hle : now ≤ now') (h : l.isExpired now = true) :
    l.isExpired now' = true := by
  simp only [RunLease.isExpired, decide_eq_true_eq] at *
  omega

theorem not_expired_iff {l : RunLease} {now : Nat} : l.isExpired now = false ↔ now < l.expiresAt := by
  simp [RunLease.isExpired]

theorem deleteLease_cases (db : Db) (id : Option Nat) :
    (db.deleteLease id).lease = none ∨ (db.deleteLease id).lease = db.lease := by
  unfold Db.deleteLease
  cases hl : db.lease with
  | none => exact .inl rfl
  | some l =>
    by_cases hid : some l.id != id
    · exact .inr (by simp [Option.filter, hid])
    · exact .inl (by simp [Option.filter, hid])

theorem deleteLease_some {db : Db} {id : Option Nat} {l : RunLease} (h : (db.deleteLease id).lease = some l) :
    db.lease = some l :=
  (Option.filter_eq_some_iff.1 h).1

theorem deleteLease_other {db : Db} {id : Option Nat} {l : RunLease} (hl : db.lease = some l) (hid : id ≠ some l.id) :
    (db.deleteLease id).lease = some l := by
  unfold Db.deleteLease
  dsimp only
  rw [hl]
  exact Option.filter_eq_some_iff.2 ⟨rfl, by simpa using Ne.symm hid⟩

theorem turnMove_lease {now : Nat} {db db' : Db} {t t' : Turn} {a : TurnAct} (h : TurnMove now db t a db' t') :
    db'.lease = db.lease := by
  cases h with
  | flip | approvalCancelled => exact setRunStatus_lease _ _ _ _
  | settle => exact settleTurn_lease _ _ _ _ _
  | interrupt e usage ok => cases ok <;> rfl
  | _ => rfl

/-- **How a worker's step changes the lease**: not at all, by its claim, by its renewal, or by its release. -/
theorem workerMove_lease {cfg : Settings} {me : Owner} {s s' : Shared} {w w' : Worker} {a : WorkerAct}
    (h : WorkerMove cfg me s w a s' w') :
    s'.clock = s.clock ∧ (s'.db.lease = s.db.lease ∨
      (∃ row lease now db logged, a = .claim logged ∧ w.phase = .leaseRead row lease now ∧ w'.phase = .running ∧
        s.db.acquire lease me now cfg.leaseTtl = some db ∧ s'.db.lease = db.lease) ∨
      (∃ l now row, a = .renewWrite ∧ w.renewal = .read l now ∧ w'.phase = w.phase ∧ s.db.lease = some row ∧
        row.id = l.id ∧ s'.db.lease = some (row.renewed l now cfg.leaseTtl)) ∨
      (a = .commitFinal true ∧ w'.phase.executing = false ∧ w'.phase.claiming = false ∧
        s'.db.lease = (s.db.deleteLease (w.phase.own.map (·.id))).lease)) := by
  cases h with
  | claim row lease now logged db hp hc =>
    obtain ⟨_, acq, _, ha, rfl⟩ := claim_spec hc
    exact ⟨rfl, .inr (.inl ⟨row, lease, now, acq, logged, rfl, hp, rfl, ha, rfl⟩)⟩
  | turn ta db t hp ht => exact ⟨rfl, .inl (turnMove_lease (turnStep_move ht).2)⟩
  | persistGoOn ok | persistFinal _ ok | persistAbandon ok => cases ok <;> exact ⟨rfl, .inl rfl⟩
  | abandon own hp => exact ⟨rfl, .inr (.inr (.inr ⟨rfl, rfl, rfl, by rw [hp]; rfl⟩))⟩
  | finalize terminal own run hp =>
    exact ⟨rfl, .inr (.inr (.inr ⟨rfl, rfl, rfl, by rw [hp]; exact finalizeSuccess_lease ..⟩))⟩
  | renewWrite l now db hr hdb =>
    obtain ⟨row, hrow, hid, rfl⟩ := renew_spec hdb
    exact ⟨rfl, .inr (.inr (.inl ⟨l, now, row, rfl, hr, rfl, hrow, hid, rfl⟩))⟩
  | _ => exact ⟨rfl, .inl rfl⟩

theorem move_lease {cfg : Settings} {s s' : World} {a : Act} (h : Move cfg s a s')
    (ha : ∀ w wa, a ≠ .worker w wa) :
    s'.workers = s.workers ∧ (∃ n, s'.shared.clock = s.shared.clock + n ∧ (n = 0 ∨ a = .tick n)) ∧
      (s'.shared.db.lease = s.shared.db.lease ∨
        ∃ leaseId row n, a = .scan .commit ∧ s.scanner = .counted leaseId row n ∧
          s'.shared.db.lease = (s.shared.db.deleteLease leaseId).lease) := by
  cases h with
  | tick seconds => exact ⟨rfl, ⟨seconds, rfl, .inr rfl⟩, .inl rfl⟩
  | worker me wa => exact absurd rfl (ha me wa)
  | scan sa sh r hm =>
    cases hm with
    | commit leaseId row n hr =>
      refine ⟨rfl, ⟨0, rfl, .inl rfl⟩, .inr ⟨leaseId, row, n, rfl, hr, ?_⟩⟩
      dsimp only [Db.reconcile]
      split <;> rfl
    | requeue ok => cases ok <;> exact ⟨rfl, ⟨0, rfl, .inl rfl⟩, .inl rfl⟩
    | _ => exact ⟨rfl, ⟨0, rfl, .inl rfl⟩, .inl rfl⟩
  | cancel k ca sh c hm => cases hm <;> exact ⟨rfl, ⟨0, rfl, .inl rfl⟩, .inl rfl⟩
  | inline ia sh t hm =>
    cases hm with
    | create runtime db t' hs hc =>
      unfold createRun at hc
      split at hc
      · cases hc
      · cases hc; exact ⟨rfl, ⟨0, rfl, .inl rfl⟩, .inl rfl⟩
    | turn ta db t' hs ht => exact ⟨rfl, ⟨0, rfl, .inl rfl⟩, .inl (turnMove_lease (turnStep_move ht).2)⟩
    | send => exact ⟨rfl, ⟨0, rfl, .inl rfl⟩, .inl rfl⟩
  | _ => exact ⟨rfl, ⟨0, rfl, .inl rfl⟩, .inl rfl⟩

/-! ## how a worker's phase changes -/

theorem claiming_not_inLoop {p : Phase} (h : p.claiming = true) : p.inLoop = false := by
  cases p <;> first | rfl | cases h

theorem workerMove_claiming {cfg : Settings} {me : Owner} {s s' : Shared} {w w' : Worker} {a : WorkerAct}
    (h : WorkerMove cfg me s w a s' w') (hc : w'.phase.claiming = true) : a = .deliver ∨ w.phase.claiming = true := by
  cases h with
  | deliver => exact .inl rfl
  | load row hp | readLease row hp => rw [hp]; exact .inr rfl
  | next evt rest due hp =>
    rw [take_phase] at hc
    split at hc
    · cases hc
    · split at hc
      · cases hc
      · split at hc
        · cases hc
        · exact .inr hc
  | turn | renewRead | renewLost | renewWrite | renewEnds => exact .inr hc
  | _ => cases hc

theorem workerMove_executing {cfg : Settings} {me : Owner} {s s' : Shared} {w w' : Worker} {a : WorkerAct}
    (h : WorkerMove cfg me s w a s' w') (he : w'.phase.executing = true) :
    (∃ row lease now, w.phase = .leaseRead row lease now) ∧ (∃ logged, a = .claim logged) ∨ w.phase.executing = true := by
  cases h with
  | claim row lease now logged db hp => exact .inl ⟨⟨row, lease, now, hp⟩, logged, rfl⟩
  | next evt rest due hp | persistGoOn ok hp => rw [hp]; exact .inr rfl
  | turn | renewRead | renewLost | renewWrite | renewEnds => exact .inr he
  | _ => cases he

def RenewsInLoop (w : Worker) : Prop := w.renewal = .stopped ∨ w.phase.inLoop = true

theorem take_renewsInLoop {w : Worker} (evt : RunEvent) (rest : List RunEvent) (due : Bool) (hp : w.phase = .running) :
    RenewsInLoop (w.take evt rest due) := by
  by_cases hl : w.leaseLost = true
  · exact .inl (by simp [Worker.take, Worker.leave, hl])
  · refine .inr ?_
    rw [take_phase, if_neg hl, hp]
    split
    · rfl
    · split <;> rfl

theorem workerMove_renewsInLoop {cfg : Settings} {me : Owner} {s s' : Shared} {w w' : Worker} {a : WorkerAct}
    (h : WorkerMove cfg me s w a s' w') (hw : RenewsInLoop w) : RenewsInLoop w' := by
  have hstopped : w.phase.inLoop = false → w.renewal = .stopped := fun hf =>
    hw.resolve_right (by rw [hf]; exact Bool.false_ne_true)
  cases h with
  | deliver q hp | skip reached hp | load row hp | loadOver hp | readLease row hp | noClaim row lease now a hp
  | finLease terminal hp | finRun terminal own hp | finalize terminal own run hp | finalizeFails terminal own run hp
  | ack reached hp => exact .inl (hstopped (by rw [hp]; rfl))
  | next evt rest due hp => exact take_renewsInLoop evt rest due hp
  | renewRead l hs => exact .inr (hw.resolve_left (by rw [hs]; simp))
  | renewWrite l now db hr => exact .inr (hw.resolve_left (by rw [hr]; simp))
  | turn => exact hw
  | _ => first | exact .inl rfl | exact .inr rfl

/-! ## who is on the way to a claim -/

structure ClaimingAlone (s : World) : Prop where
  noLive : ∀ w, (s.workers w).phase.claiming = true → NoLiveOther s.shared w
  alone : ∀ v w, (s.workers v).phase.claiming = true → (s.workers w).phase.claiming = true → v = w
  renews : ∀ w, RenewsInLoop (s.workers w)

theorem claimingAlone_initial {s : World} (h : World.Initial s) : ClaimingAlone s := by
  cases h with
  | durable | streamed =>
    refine ⟨fun _ hc => ?_, fun _ _ hc _ => ?_, fun _ => .inl rfl⟩
    · cases hc
    · cases hc

theorem noLiveOther_of_lease {s s' : Shared} {w : Owner} (h : NoLiveOther s w) (hclock : s.clock ≤ s'.clock)
    (hl : ∀ l, s'.db.lease = some l → s.db.lease = some l) : NoLiveOther s' w := by
  intro l hl'
  exact (h l (hl l hl')).imp_right (isExpired_mono hclock)

theorem claimingAlone_worker {cfg : Settings} {s : World} {me : Owner} {wa : WorkerAct} {sh : Shared} {w : Worker}
    (hinv : ClaimingAlone s) (hok : DeliveryOk s (.worker me wa))
    (hm : WorkerMove cfg me s.shared (s.workers me) wa sh w) (lc : Option Owner) :
    ClaimingAlone { s with shared := sh, workers := Function.update s.workers me w, lastClaim := lc } := by
  obtain ⟨hclock, hlease⟩ := workerMove_lease hm
  -- who is on the way afterwards, and what was true of it before
  have hbefore : ∀ v, ((Function.update s.workers me w) v).phase.claiming = true →
      NoLiveOther s.shared v ∧ ∀ u, (s.workers u).phase.claiming = true → u = v := by
    intro v hv
    by_cases hvm : v = me
    · subst hvm
      rw [Function.update_self] at hv
      rcases workerMove_claiming hm hv with rfl | hold
      · refine ⟨hok.1, fun u hu => ?_⟩
        by_contra hne
        rw [hok.2 u hne] at hu
        cases hu
      · exact ⟨hinv.noLive v hold, fun u hu => hinv.alone u v hu hold⟩
    · rw [Function.update_of_ne hvm] at hv
      exact ⟨hinv.noLive v hv, fun u hu => hinv.alone u v hu hv⟩
  refine ⟨fun v hv => ?_, fun u v hu hv => ?_, fun v => ?_⟩
  · have hno := (hbefore v hv).1
    rcases hlease with h | ⟨row, lease, now, db, logged, rfl, hp, hp', -, -⟩ | ⟨l, now, row, rfl, hr, hp, hrow, -, h⟩ |
      ⟨rfl, -, -, h⟩
    · exact noLiveOther_of_lease hno (Nat.le_of_eq hclock.symm) (fun l hl => by rw [← h]; exact hl)
    · -- the claimer itself is on the way no longer, and nobody else was
      have hme : (s.workers me).phase.claiming = true := by rw [hp]; rfl
      obtain rfl := (hbefore v hv).2 me hme
      dsimp only at hv
      rw [Function.update_self, hp'] at hv
      cases hv
    · -- a renewal of another worker's lease would have found it live
      intro l' hl'
      rw [show sh.db.lease = some (row.renewed l now cfg.leaseTtl) from h] at hl'
      cases hl'
      by_cases hvm : v = me
      · subst hvm
        dsimp only at hv
        rw [Function.update_self, hp] at hv
        -- a worker on its way has no renewal running
        rcases hinv.renews v with hstop | hloop
        · rw [hr] at hstop; cases hstop
        · rw [claiming_not_inLoop hv] at hloop; cases hloop
      · dsimp only at hv
        rw [Function.update_of_ne hvm] at hv
        obtain ⟨hown, hlive⟩ := hok ⟨v, hvm, hv⟩ row hrow
        rcases hno row hrow with ho | he
        · exact .inl ho
        · rw [hlive] at he; cases he
    · exact noLiveOther_of_lease hno (Nat.le_of_eq hclock.symm) (fun l hl => deleteLease_some (by rw [← h]; exact hl))
  · have hu' := (hbefore u hu).2
    have hv' := (hbefore v hv).2
    by_cases hum : u = me
    · by_cases hvm : v = me
      · rw [hum, hvm]
      · dsimp only at hv
        rw [Function.update_of_ne hvm] at hv
        exact (hu' v hv).symm
    · dsimp only at hu
      rw [Function.update_of_ne hum] at hu
      exact hv' u hu
  · by_cases hvm : v = me
    · subst hvm
      dsimp only
      rw [Function.update_self]
      exact workerMove_renewsInLoop hm (hinv.renews v)
    · dsimp only
      rw [Function.update_of_ne hvm]
      exact hinv.renews v

theorem claimingAlone_step {cfg : Settings} {s s' : World} {a : Act} (hinv : ClaimingAlone s) (hok : DeliveryOk s a)
    (h : step cfg s a = some s') : ClaimingAlone s' := by
  have hmove := step_move h
  by_cases ha : ∀ w wa, a ≠ .worker w wa
  · obtain ⟨hw, ⟨n, hn, -⟩, hlease⟩ := move_lease hmove ha
    have hclock : s.shared.clock ≤ s'.shared.clock := by omega
    refine ⟨fun v hv => ?_, fun u v hu hv => hinv.alone u v (hw ▸ hu) (hw ▸ hv), fun v => hw ▸ hinv.renews v⟩
    refine noLiveOther_of_lease (hinv.noLive v (hw ▸ hv)) hclock (fun l hl => ?_)
    rcases hlease with he | ⟨leaseId, row, n, -, -, he⟩
    · rw [← he]; exact hl
    · exact deleteLease_some (by rw [← he]; exact hl)
  · cases hmove with
    | worker me wa sh w hm => exact claimingAlone_worker hinv hok hm _
    | _ => exact absurd (fun _ _ => Act.noConfusion) ha

/-! ## who executes -/

structure ExecutesOwn (s : World) : Prop where
  read : ∀ w row lease now, (s.workers w).phase = .leaseRead row lease now →
    s.shared.db.lease = none ∨ s.shared.db.lease = lease
  own : ∀ w, (s.workers w).phase.executing = true →
    ∃ l, s.shared.db.lease = some l ∧ l.owner = w ∧ s.shared.clock < l.expiresAt

theorem executesOwn_initial {s : World} (h : World.Initial s) : ExecutesOwn s := by
  cases h with
  | durable | streamed =>
    refine ⟨fun _ _ _ _ hp => ?_, fun _ he => ?_⟩
    · cases hp
    · cases he

theorem workerMove_leaseRead {cfg : Settings} {me : Owner} {s s' : Shared} {w w' : Worker} {a : WorkerAct}
    (h : WorkerMove cfg me s w a s' w') {row : RunRow} {lease : Option RunLease} {now : Nat}
    (hp : w'.phase = .leaseRead row lease now) :
    lease = s.db.lease ∧ s'.db.lease = s.db.lease ∨ w.phase = .leaseRead row lease now := by
  cases h with
  | readLease row' hp' => cases hp; exact .inl ⟨rfl, rfl⟩
  | next evt rest due hr =>
    rw [take_phase, hr] at hp
    split at hp
    · cases hp
    · split at hp
      · cases hp
      · split at hp <;> cases hp
  | turn | renewRead | renewLost | renewWrite | renewEnds => exact .inr hp
  | _ => cases hp

theorem acquire_own {db db' : Db} {read : Option RunLease} {owner : Owner} {now ttl : Nat}
    (h : db.acquire read owner now ttl = some db') (hread : db.lease = none ∨ db.lease = read) :
    ∃ l, db'.lease = some l ∧ l.owner = owner ∧ l.expiresAt = now + ttl := by
  cases read with
  | none =>
    obtain ⟨-, rfl⟩ := acquire_none h
    exact ⟨_, rfl, rfl, rfl⟩
  | some l =>
    obtain ⟨row, hrow, -, rfl⟩ := acquire_some h
    rcases hread with hn | hs
    · rw [hn] at hrow; cases hrow
    · obtain rfl : l = row := Option.some.inj (hs.symm.trans hrow)
      exact ⟨_, rfl, flushed_stored _ _, flushed_stored _ _⟩

theorem executesOwn_worker {cfg : Settings} {s : World} {me : Owner} {wa : WorkerAct} {sh : Shared} {w : Worker}
    (hclaim : ClaimingAlone s) (hinv : ExecutesOwn s) (hok : DeliveryOk s (.worker me wa))
    (htime : OnTime cfg s (.worker me wa)) (hm : WorkerMove cfg me s.shared (s.workers me) wa sh w)
    (lc : Option Owner) :
    ExecutesOwn { s with shared := sh, workers := Function.update s.workers me w, lastClaim := lc } := by
  obtain ⟨hclock, hlease⟩ := workerMove_lease hm
  refine ⟨fun v row lease now hv => ?_, fun v hv => ?_⟩
  · dsimp only at hv ⊢
    have hcv : (s.workers v).phase.claiming = true ∧ (s.shared.db.lease = none ∨ s.shared.db.lease = lease) ∨
        lease = s.shared.db.lease ∧ sh.db.lease = s.shared.db.lease := by
      by_cases hvm : v = me
      · subst hvm
        rw [Function.update_self] at hv
        rcases workerMove_leaseRead hm hv with h | h
        · exact .inr h
        · exact .inl ⟨by rw [h]; rfl, hinv.read v row lease now h⟩
      · rw [Function.update_of_ne hvm] at hv
        exact .inl ⟨by rw [hv]; rfl, hinv.read v row lease now hv⟩
    rcases hcv with ⟨hcv, hread⟩ | ⟨hl, hsh⟩
    · rcases hlease with h | ⟨row', lease', now', db, logged, -, hp, hp', -, -⟩ | ⟨l, now', row', rfl, hr, hp, hrow, -, -⟩ |
        ⟨-, -, -, h⟩
      · rw [h]; exact hread
      · -- the claimer was the only one on its way, and is through
        have hme : (s.workers me).phase.claiming = true := by rw [hp]; rfl
        obtain rfl := hclaim.alone v me hcv hme
        rw [Function.update_self, hp'] at hv
        cases hv
      · -- no renewal writes while a worker is on its way
        by_cases hvm : v = me
        · subst hvm
          rcases hclaim.renews v with hstop | hloop
          · rw [hr] at hstop; cases hstop
          · rw [claiming_not_inLoop hcv] at hloop; cases hloop
        · obtain ⟨hown, hlive⟩ := hok ⟨v, hvm, hcv⟩ row' hrow
          rcases hclaim.noLive v hcv row' hrow with ho | he
          · exact absurd (ho.symm.trans hown) hvm
          · rw [hlive] at he; cases he
      · rcases deleteLease_cases s.shared.db ((s.workers me).phase.own.map (·.id)) with hd | hd
        · exact .inl (h.trans hd)
        · rw [h, hd]; exact hread
    · exact .inr (hsh.trans hl.symm)
  · dsimp only at hv ⊢
    rw [hclock]
    by_cases hvm : v = me
    · subst hvm
      rw [Function.update_self] at hv
      rcases workerMove_executing hm hv with ⟨⟨row, lease, now, hp⟩, logged, rfl⟩ | hex
      · rcases hlease with h | ⟨row', lease', now', db, logged', -, hp₂, -, ha, h⟩ | ⟨_, _, _, ha, -⟩ | ⟨ha, -⟩
        · -- a claim that raised leaves the worker idle
          cases hm with
          | claim row₂ lease₂ now₂ _ db hp₂ hc =>
            obtain ⟨_, acq, _, ha, rfl⟩ := claim_spec hc
            obtain ⟨l, hl, hlo, hle⟩ := acquire_own ha (hinv.read v _ _ _ hp₂)
            exact ⟨l, hl, hlo, by rw [hle]; exact htime _ _ _ hp₂⟩
          | noClaim => cases hv
          | renewEnds _ hr => rcases hr with hr | hr <;> cases hr
        · obtain ⟨l, hl, hlo, hle⟩ := acquire_own ha (hinv.read v _ _ _ hp₂)
          exact ⟨l, h.trans hl, hlo, by rw [hle]; exact htime _ _ _ hp₂⟩
        · cases ha
        · cases ha
      · obtain ⟨l, hl, hlo, hle⟩ := hinv.own v hex
        rcases hlease with h | ⟨row', lease', now', db, logged, -, hp, -, -, -⟩ | ⟨l₀, now', row', rfl, hr, -, hrow, hid, h⟩ |
          ⟨-, hnex, -, -⟩
        · exact ⟨l, h.trans hl, hlo, hle⟩
        · rw [hp] at hex; cases hex
        · obtain rfl := Option.some.inj (hrow.symm.trans hl)
          refine ⟨_, h, hlo, ?_⟩
          have hlt := (htime l₀ now' row' hr hrow hid).2
          unfold RunLease.renewed flushed
          dsimp only
          split
          · exact hle
          · exact hlt
        · rw [hnex] at hv; cases hv
    · rw [Function.update_of_ne hvm] at hv
      obtain ⟨l, hl, hlo, hle⟩ := hinv.own v hv
      rcases hlease with h | ⟨row', lease', now', db, logged, -, hp, -, -, -⟩ | ⟨l₀, now', row', rfl, hr, -, hrow, hid, -⟩ |
        ⟨rfl, -, -, h⟩
      · exact ⟨l, h.trans hl, hlo, hle⟩
      · -- a claim finds no live lease of another
        rcases hclaim.noLive me (by rw [hp]; rfl) l hl with ho | he
        · exact absurd (hlo.symm.trans ho) hvm
        · rw [not_expired_iff.2 hle] at he; cases he
      · obtain rfl := Option.some.inj (hrow.symm.trans hl)
        exact absurd (hlo.symm.trans (htime l₀ now' row' hr hrow hid).1) hvm
      · refine ⟨l, h.trans (deleteLease_other hl ?_), hlo, hle⟩
        intro hid
        obtain ⟨l₀, hl₀, hid₀⟩ := Option.map_eq_some_iff.1 hid
        exact hvm (hlo.symm.trans (htime l₀ l hl₀ hl hid₀.symm))

theorem executesOwn_step {cfg : Settings} {s s' : World} {a : Act} (hclaim : ClaimingAlone s) (hinv : ExecutesOwn s)
    (hok : DeliveryOk s a) (htime : OnTime cfg s a) (hdel : DeletesExpired s a) (h : step cfg s a = some s') :
    ExecutesOwn s' := by
  have hmove := step_move h
  by_cases ha : ∀ w wa, a ≠ .worker w wa
  · obtain ⟨hw, ⟨n, hn, hcase⟩, hlease⟩ := move_lease hmove ha
    refine ⟨fun v row lease now hv => ?_, fun v hv => ?_⟩
    · have hread := hinv.read v row lease now (hw ▸ hv)
      rcases hlease with he | ⟨leaseId, row', m, -, -, he⟩
      · rw [he]; exact hread
      · rcases deleteLease_cases s.shared.db leaseId with hd | hd
        · exact .inl (he.trans hd)
        · rw [he, hd]; exact hread
    · obtain ⟨l, hl, hlo, hle⟩ := hinv.own v (hw ▸ hv)
      have hlive : s'.shared.clock < l.expiresAt := by
        rw [hn]
        rcases hcase with rfl | rfl
        · exact hle
        · exact htime v l (hw ▸ hv) hl hlo
      refine ⟨l, ?_, hlo, hlive⟩
      rcases hlease with he | ⟨leaseId, row', m, rfl, hsc, he⟩
      · exact he.trans hl
      · refine he.trans (deleteLease_other hl ?_)
        rintro rfl
        have hexp := hdel l.id row' m l hsc hl rfl
        rw [not_expired_iff.2 hle] at hexp
        cases hexp
  · cases hmove with
    | worker me wa sh w hm => exact executesOwn_worker hclaim hinv hok htime hm _
    | _ => exact absurd (fun _ _ => Act.noConfusion) ha

/-! ## every run -/

def StartsAlone (cfg : Settings) (s : World) (a : Act) : Prop :=
  ∀ s' w, step cfg s a = some s' → (s.workers w).phase.executing = false → (s'.workers w).phase.executing = true →
    NoLiveOther s.shared w

def OneExecutes (s : World) : Prop :=
  ∀ v w, (s.workers v).phase.executing = true → (s.workers w).phase.executing = true → v = w

theorem startsAlone_step {cfg : Settings} {s : World} (hinv : ClaimingAlone s) (a : Act) : StartsAlone cfg s a := by
  intro s' w h hn he
  cases step_move h with
  | worker me wa sh w₁ hm =>
    by_cases hw : w = me
    · subst hw
      dsimp only at he
      rw [Function.update_self] at he
      rcases workerMove_executing hm he with ⟨⟨row, lease, now, hp⟩, -⟩ | hex
      · exact hinv.noLive w (by rw [hp]; rfl)
      · rw [hn] at hex; cases hex
    · dsimp only at he
      rw [Function.update_of_ne hw, hn] at he
      cases he
  | _ => rw [hn] at he; cases he

theorem oneExecutes_of_own {s : World} (h : ExecutesOwn s) : OneExecutes s := by
  intro v w hv hw
  obtain ⟨l, hl, hlo, -⟩ := h.own v hv
  obtain ⟨m, hm, hmo, -⟩ := h.own w hw
  obtain rfl := Option.some.inj (hl.symm.trans hm)
  exact hlo.symm.trans hmo

/-- **One executor**: where the queue delivers the run only with no other live lease and no other claim under way, every
worker starts it with no live lease of another in place; and where leases are kept on time too and the recovery deletes
only expired ones, no two ever execute it at once. -/
theorem one_executor (cfg : Settings) {s₀ s : World} (h₀ : World.Initial s₀) :
    (Runs (step cfg) DeliveryOk s₀ s → ∀ a, DeliveryOk s a → StartsAlone cfg s a) ∧
      (Runs (step cfg) (fun s a => DeliveryOk s a ∧ OnTime cfg s a ∧ DeletesExpired s a) s₀ s → OneExecutes s) := by
  refine ⟨fun h a _ => ?_, fun h => ?_⟩
  · exact startsAlone_step
      (h.invariant (claimingAlone_initial h₀) (fun _ _ _ hinv hok hs => claimingAlone_step hinv hok hs)) a
  · have hboth : ClaimingAlone s ∧ ExecutesOwn s :=
      h.invariant (P := fun t => ClaimingAlone t ∧ ExecutesOwn t) ⟨claimingAlone_initial h₀, executesOwn_initial h₀⟩
        (fun _ _ _ hinv hok hs =>
          ⟨claimingAlone_step hinv.1 hok.1 hs, executesOwn_step hinv.1 hinv.2 hok.1 hok.2.1 hok.2.2 hs⟩)
    exact oneExecutes_of_own hboth.2

/-- A worker that gets a queued run nobody else was given starts it alone. -/
theorem one_executor_first_delivery :
    StartsAlone {} (play (step {}) World.durable [.enqueue, .worker 0 .deliver, .worker 0 .loadRun, .worker 0 .readLease])
      (.worker 0 (.claim true)) ∧
    OneExecutes (play (step {}) World.durable [.enqueue, .worker 0 .deliver]) := by
  have hdeliver : DeliveryOk (play (step {}) World.durable [.enqueue]) (.worker 0 .deliver) :=
    ⟨fun _ hl => (by cases hl), fun _ _ => rfl⟩
  refine ⟨(one_executor {} .durable).1 ?_ _ trivial, (one_executor {} .durable).2 ?_⟩
  · exact .next (.worker 0 .readLease) (.next (.worker 0 .loadRun) (.next (.worker 0 .deliver)
      (.next .enqueue .refl trivial rfl) hdeliver rfl) trivial rfl) trivial rfl
  · exact .next (.worker 0 .deliver) (.next .enqueue .refl ⟨trivial, trivial, trivial⟩ rfl)
      ⟨hdeliver, trivial, trivial⟩ rfl

/-- Worker 0 executes the run and renews its lease on time; 130 seconds after the delivery the reclaimer takes its stream
entry for stale, and the run is delivered to worker 1. -/
def reclaimedWhileRunning : List Act :=
  [.enqueue, .worker 0 .deliver, .worker 0 .loadRun, .worker 0 .readLease, .worker 0 (.claim true), .tick 100,
    .worker 0 .renewRead, .worker 0 .renewWrite, .tick 30, .reclaim ⟨0, 0, 0⟩ 9 true, .worker 1 .deliver,
    .worker 1 .loadRun, .worker 1 .readLease]

/-- Worker 1 then starts the run under the live lease of worker 0. -/
theorem live_lease_taken_over :
    ¬ ∀ (cfg : Settings) (s₀ s : World), World.Initial s₀ → Reaches (step cfg) s₀ s → ∀ a, StartsAlone cfg s a := by
  intro h
  have hstart := h {} _ (play (step {}) World.durable reclaimedWhileRunning) .durable (reaches_play (by decide))
    (.worker 1 (.claim true)) (play (step {}) (play (step {}) World.durable reclaimedWhileRunning) [.worker 1 (.claim true)])
    1 rfl (by decide) (by decide) ⟨0, 0, 2, 0, 220⟩ (by decide)
  exact absurd hstart (by decide)

end Run
end MyGpt
