import MyGpt.OneExecutor
import MyGpt.TerminalStatus
/-!
# FoundAgain — where a run is after the recovery has acted on it

The reconcile's commit makes the run pending and takes its lease away, and the scan looks for pending runs by their leases
alone; so from there until a worker's claim the run lives in the queue only.  It is over, in the queue or found by a later scan
as long as the requeue behind the commit succeeds and no worker acknowledges or releases it under the new delivery
(`recovery_findable`).
-/
namespace MyGpt
namespace Run

open Trace (Runs Reaches exec play reaches_play)

/-! ## what is asked for -/

def Stream.holds (q : Stream) : Bool := !q.waiting.isEmpty || !q.pel.isEmpty

def laterScan (seconds : Nat) : List Act :=
  [.tick seconds, .scan .findLease, .scan .findRun, .scan .findActive, .scan .findNoLease]

/-- **A later scan finds the run.** -/
def FoundLater (cfg : Settings) (s : World) : Prop :=
  ∃ seconds leaseId s', exec (step cfg) { s with scanner := .idle } (laterScan seconds) = some s' ∧
    s'.scanner = .candidate leaseId

/-- **The run is over, in the queue, or found again.** -/
def Placed (cfg : Settings) (s : World) : Prop :=
  ∀ row, s.shared.db.run = some row → row.status.terminal = true ∨ s.shared.queue.holds = true ∨ FoundLater cfg s

def Act.requeues : Act → Bool
  | .scan (.requeue _) => true
  | _ => false

def Elsewhere (s : World) (queue : Stream) : Prop :=
  s.status ≠ some .pending ∨ s.shared.db.lease.isSome = true ∨ queue.holds = true

/-- **The condition**: a requeue succeeds, and the scanner does not die before it; an `ack` leaves an entry of a run that waits
for a worker, and so does a worker that releases its lease; all unless the run is elsewhere. -/
def Keeps (s : World) : Act → Prop
  | .scan (.requeue ok) => ok = true ∨ Elsewhere s s.shared.queue
  | .scan .fails => s.scanner = .requeueing → Elsewhere s s.shared.queue
  | .worker _ (.skip reached) => Elsewhere s (s.shared.queue.ack reached)
  | .worker _ (.ack reached) => Elsewhere s (s.shared.queue.ack reached)
  | .worker me (.commitFinal true) => s.status ≠ some .pending ∨ s.shared.queue.holds = true ∨
      (s.shared.db.deleteLease ((s.workers me).phase.own.map (·.id))).lease.isSome = true
  | _ => True

/-! ## a later scan -/

theorem found_of_lease (cfg : Settings) {s : World} {row : RunRow} {l : RunLease} (hrun : s.shared.db.run = some row)
    (hopen : row.status.terminal = false) (hlease : s.shared.db.lease = some l) : FoundLater cfg s := by
  have hexpired : l.isExpired (s.shared.clock + l.expiresAt) = true := by
    exact decide_eq_true (Nat.le_add_left _ _)
  refine ⟨l.expiresAt, some l.id, { s with
    shared := { s.shared with clock := s.shared.clock + l.expiresAt }, scanner := .candidate (some l.id) }, ?_, rfl⟩
  simp only [laterScan, exec, step, scanStep, expiredLease, Option.bind_some, Option.map_some, hlease, hrun, Option.any_some,
    hopen, Option.filter_some, hexpired, Bool.not_false, if_true]

theorem found_of_active (cfg : Settings) {s : World} {row : RunRow} (hrun : s.shared.db.run = some row)
    (hactive : row.status.active = true) (hlease : s.shared.db.lease = none) : FoundLater cfg s := by
  refine ⟨0, none, { s with shared := { s.shared with clock := s.shared.clock + 0 }, scanner := .candidate none }, ?_, rfl⟩
  simp only [laterScan, exec, step, scanStep, expiredLease, Option.bind_some, Option.map_some, hlease, hrun, Option.any_some,
    hactive, Option.filter_none, Option.map_none, Option.isNone_none, Bool.and_true, if_true]

theorem placed_of_elsewhere (cfg : Settings) {s : World} (h : Elsewhere s s.shared.queue) : Placed cfg s := by
  intro row hrun
  by_cases hopen : row.status.terminal = true
  · exact .inl hopen
  · rcases h with hpending | hlease | hqueue
    · cases hl : s.shared.db.lease with
      | some l => exact .inr (.inr (found_of_lease cfg hrun (by simpa using hopen) hl))
      | none =>
        have hactive : row.status.active = true := by
          have hstatus : row.status ≠ .pending := by
            intro heq
            exact hpending (by simp [World.status, Db.status, hrun, heq])
          revert hopen hstatus
          cases row.status <;> decide
        exact .inr (.inr (found_of_active cfg hrun hactive hl))
    · obtain ⟨l, hl⟩ := Option.isSome_iff_exists.1 hlease
      exact .inr (.inr (found_of_lease cfg hrun (by simpa using hopen) hl))
    · exact .inr (.inl hqueue)

/-! ## who makes a run pending -/

theorem flushed_pending {loaded new : RunStatus} (hnew : new ≠ .pending) {status : Option RunStatus}
    (h : status.map (flushed loaded new) = some .pending) : status = some .pending := by
  obtain ⟨stored, hstored, hflushed⟩ := Option.map_eq_some_iff.1 h
  unfold flushed at hflushed
  split at hflushed
  · rw [hstored, hflushed]
  · exact absurd hflushed hnew

theorem setRunStatus_pending {db : Db} {t : Turn} {status : RunStatus} {ok : Bool} (hnew : status ≠ .pending)
    (h : (setRunStatus db t status ok).1.status = some .pending) : db.status = some .pending := by
  unfold setRunStatus at h
  split at h
  · exact h
  · have hmap : db.status.map (flushed t.run.status status) = some .pending :=
      (map_status db.run _ (flushed t.run.status status) (fun _ => rfl)).symm.trans h
    exact flushed_pending hnew hmap

theorem turnMove_pending {now : Nat} {db db' : Db} {t t' : Turn} {a : TurnAct} (h : TurnMove now db t a db' t')
    (hp : db'.status = some .pending) : db.status = some .pending := by
  cases h with
  | startRun runtime hs =>
    have hmap : db.status.map (flushed t.run.status .running) = some .pending :=
      (map_status db.run _ (flushed t.run.status .running) (fun _ => rfl)).symm.trans hp
    exact flushed_pending (by decide) hmap
  | flip _ status ok hs hcase =>
    refine setRunStatus_pending ?_ hp
    rcases hcase with ⟨-, rfl⟩ | ⟨-, rfl⟩
    · decide
    · decide
  | approvalCancelled ok hs => exact setRunStatus_pending (by decide) hp
  | update e output status hs =>
    rw [persistTerminalRun_status] at hp
    obtain ⟨-, -, hterminal⟩ := Option.map_eq_some_iff.1 hp
    have hover : ∀ evt selected, terminalStatus evt selected ≠ .pending := by
      intro evt selected
      unfold terminalStatus
      split
      · split
        · decide
        · decide
      · decide
    exact absurd hterminal (hover _ _)
  | settle e answer ok hs => simpa only [Db.status, settleTurn_run] using hp
  | interrupt e usage ok hs => cases ok <;> exact hp
  | _ => exact hp

/-! ## a step -/

theorem holds_xadd (q : Stream) : q.xadd.holds = true := by simp [Stream.xadd, Stream.holds]

theorem holds_dequeue {q q' : Stream} {owner : Owner} {now : Nat} (h : q.dequeue owner now = some q') : q'.holds = true := by
  unfold Stream.dequeue at h
  split at h
  · cases h
  · cases h
    simp [Stream.holds]

theorem holds_enqueue {q : Stream} (h : q.holds = true) (liveLease : Bool) : (q.enqueue liveLease).holds = true := by
  unfold Stream.enqueue
  split
  · exact h
  · exact holds_xadd q

theorem holds_reclaim {q q' : Stream} {d : Delivery} {reclaimer : Owner} {now claimIdle : Nat} {ok : Bool}
    (h : q.reclaim d reclaimer now claimIdle ok = some q') : q'.holds = true := by
  unfold Stream.reclaim at h
  split at h
  · rename_i hd
    split at h
    · cases h
      simp [Stream.holds, Stream.xadd]
    · cases h
      have hne : q.pel ≠ [] := List.ne_nil_of_mem hd.1
      simp [Stream.holds, hne]
  · cases h

def StillPlaced (s : World) : Prop := Elsewhere s s.shared.queue ∨ s.scanner = .requeueing

theorem acquire_lease {db db' : Db} {read : Option RunLease} {owner : Owner} {now ttl : Nat}
    (h : db.acquire read owner now ttl = some db') : db'.lease.isSome = true := by
  cases read with
  | none =>
    obtain ⟨-, rfl⟩ := acquire_none h
    rfl
  | some l =>
    obtain ⟨row, -, -, rfl⟩ := acquire_some h
    rfl

theorem stillPlaced_worker {cfg : Settings} {s : World} {me : Owner} {wa : WorkerAct} {sh : Shared} {w : Worker}
    (h : Elsewhere s s.shared.queue) (hok : Keeps s (.worker me wa)) (hm : WorkerMove cfg me s.shared (s.workers me) wa sh w) :
    sh.db.status ≠ some .pending ∨ sh.db.lease.isSome = true ∨ sh.queue.holds = true := by
  cases hm with
  | deliver q hp hq => exact .inr (.inr (holds_dequeue hq))
  | skip reached hp => exact hok
  | ack reached hp => exact hok
  | claim row lease now logged db hp hc =>
    obtain ⟨-, acq, -, hacq, rfl⟩ := claim_spec hc
    have hlease : acq.lease.isSome = true := acquire_lease hacq
    exact .inr (.inl hlease)
  | turn ta db t hp ht =>
    have hmove := (turnStep_move ht).2
    rcases h with hpending | hlease | hqueue
    · exact .inl (fun hp => hpending (turnMove_pending hmove hp))
    · refine .inr (.inl ?_)
      rw [turnMove_lease hmove]
      exact hlease
    · exact .inr (.inr hqueue)
  | persistGoOn ok hp | persistFinal terminal ok hp | persistAbandon ok hp => cases ok <;> exact h
  | abandon own hp =>
    have hkeeps : s.status ≠ some .pending ∨ s.shared.queue.holds = true ∨
        (s.shared.db.deleteLease ((s.workers me).phase.own.map (·.id))).lease.isSome = true := hok
    rw [hp] at hkeeps
    rcases hkeeps with hpending | hqueue | hlease
    · exact .inl hpending
    · exact .inr (.inr hqueue)
    · exact .inr (.inl hlease)
  | finalize terminal own run hp =>
    have hkeeps : s.status ≠ some .pending ∨ s.shared.queue.holds = true ∨
        (s.shared.db.deleteLease ((s.workers me).phase.own.map (·.id))).lease.isSome = true := hok
    rw [hp] at hkeeps
    rcases hkeeps with hpending | hqueue | hlease
    · refine .inl (fun hnow => ?_)
      rcases finalizeSuccess_status s.shared.db own terminal run s.shared.clock with hsame | ⟨-, -, hcompleted⟩
      · exact hpending (hsame.symm.trans hnow)
      · rw [hcompleted] at hnow
        obtain ⟨_, -, hne⟩ := Option.map_eq_some_iff.1 hnow
        cases hne
    · exact .inr (.inr hqueue)
    · refine .inr (.inl ?_)
      rw [finalizeSuccess_lease]
      exact hlease
  | renewWrite l now db hr hdb =>
    obtain ⟨row, -, -, rfl⟩ := renew_spec hdb
    exact .inr (.inl rfl)
  | _ => exact h

theorem stillPlaced_commit {cfg : Settings} {s s' : World} (hs : step cfg s (.scan .commit) = some s') : StillPlaced s' := by
  cases step_move hs with
  | scan sa sh r hm =>
    cases hm with
    | commit leaseId row n hr =>
      by_cases hn : n < cfg.maxRetries
      · exact .inr (by simp only [if_pos hn])
      · refine .inl (.inl (fun hnow => ?_))
        simp only [World.status, Db.reconcile, if_neg hn, Db.status, Option.map_map] at hnow
        obtain ⟨_, -, hne⟩ := Option.map_eq_some_iff.1 hnow
        cases hne

theorem stillPlaced_step {cfg : Settings} {s s' : World} {a : Act} (h : StillPlaced s) (hok : Keeps s a)
    (hs : step cfg s a = some s') : StillPlaced s' := by
  have hmove := step_move hs
  cases hmove with
  | tick seconds => exact h
  | enqueue =>
    rcases h with (hpending | hlease | hqueue) | hnext
    · exact .inl (.inl hpending)
    · exact .inl (.inr (.inl hlease))
    · exact .inl (.inr (.inr (holds_enqueue hqueue _)))
    · exact .inr hnext
  | reclaim d reclaimer ok q =>
    obtain ⟨q', hq, heq⟩ := Option.map_eq_some_iff.1 hs
    obtain rfl : q' = q := congrArg (fun t : World => t.shared.queue) heq
    exact .inl (.inr (.inr (holds_reclaim hq)))
  | worker me wa sh w hm =>
    rcases h with helse | hnext
    · exact .inl (stillPlaced_worker helse hok hm)
    · exact .inr hnext
  | scan sa sh r hm =>
    cases hm with
    | commit leaseId row n hr => exact stillPlaced_commit hs
    | requeue ok hr =>
      have hkeeps : ok = true ∨ Elsewhere s s.shared.queue := hok
      rcases hkeeps with rfl | helse
      · exact .inl (.inr (.inr (holds_xadd _)))
      · cases ok with
        | true => exact .inl (.inr (.inr (holds_xadd _)))
        | false => exact .inl helse
    | fails hr =>
      rcases h with helse | hnext
      · exact .inl helse
      · exact .inl (hok hnext)
    | findLease hr | findRun _ hr | findActive _ hr | expired _ _ hr | noLease hr | nothing _ hr | loadOver _ hr | load _ _ hr
    | count _ _ hr =>
      rcases h with helse | hnext
      · exact .inl helse
      · rw [hr] at hnext
        cases hnext
  | cancel k ca sh c hm =>
    rcases h with helse | hnext
    · cases hm with
      | commit row hr =>
        refine .inl (.inl (fun hnow => ?_))
        simp only [World.status, Db.cancelRun, Db.status, Option.map_map] at hnow
        obtain ⟨_, -, hne⟩ := Option.map_eq_some_iff.1 hnow
        cases hne
      | _ => exact .inl helse
    · exact .inr hnext
  | inline ia sh t hm =>
    rcases h with helse | hnext
    · cases hm with
      | create runtime db t' hst hc =>
        unfold createRun at hc
        split at hc
        · cases hc
        · cases hc
          exact .inl (.inl (by simp [World.status, Db.status]))
      | turn ta db t' hst ht =>
        have hmove := (turnStep_move ht).2
        rcases helse with hpending | hlease | hqueue
        · exact .inl (.inl (fun hp => hpending (turnMove_pending hmove hp)))
        · refine .inl (.inr (.inl ?_))
          rw [turnMove_lease hmove]
          exact hlease
        · exact .inl (.inr (.inr hqueue))
      | send => exact .inl helse
    · exact .inr hnext

/-! ## how often a run is requeued -/

theorem turnMove_events {now : Nat} {db db' : Db} {t t' : Turn} {a : TurnAct} (h : TurnMove now db t a db' t') :
    ∃ more, db'.events = db.events ++ more := by
  cases h with
  | flip | approvalCancelled => exact ⟨[], by rw [setRunStatus_events, List.append_nil]⟩
  | append e => exact ⟨[terminalEvent e.evt t.run.status], rfl⟩
  | settle => exact ⟨[], by rw [settleTurn_events, List.append_nil]⟩
  | interrupt e usage ok =>
    refine ⟨[], ?_⟩
    cases ok <;> simp [Db.persistPartial]
  | _ => exact ⟨[], (List.append_nil _).symm⟩

theorem countRetries_append {db db' : Db} {more : List RunEvent} (h : db'.events = db.events ++ more) :
    db.countRetries ≤ db'.countRetries := by
  unfold Db.countRetries
  rw [h, List.countP_append]
  exact Nat.le_add_right _ _

theorem countRetries_step {cfg : Settings} {s s' : World} {a : Act} (h : Move cfg s a s') :
    s.shared.db.countRetries ≤ s'.shared.db.countRetries := by
  cases h with
  | worker me wa sh w hm =>
    cases hm with
    | claim row lease now logged db hp hc =>
      obtain ⟨-, acq, -, hacq, rfl⟩ := claim_spec hc
      have hevents := (acquire_frame hacq).2.1
      exact countRetries_append (by dsimp only; rw [hevents])
    | turn ta db t hp ht =>
      obtain ⟨more, hmore⟩ := turnMove_events (turnStep_move ht).2
      exact countRetries_append hmore
    | persistGoOn ok hp | persistFinal _ ok hp | persistAbandon ok hp =>
      cases ok with
      | true => exact countRetries_append rfl
      | false => exact Nat.le_refl _
    | finalize terminal own run hp => exact Nat.le_of_eq (by simp [Db.countRetries])
    | renewWrite l now db hr hdb =>
      obtain ⟨row, -, -, rfl⟩ := renew_spec hdb
      exact Nat.le_refl _
    | _ => exact Nat.le_refl _
  | scan sa sh r hm =>
    cases hm with
    | commit leaseId row n hr =>
      simp only [Db.reconcile]
      split
      · exact countRetries_append rfl
      · exact Nat.le_refl _
    | requeue ok hr => cases ok <;> exact Nat.le_refl _
    | _ => exact Nat.le_refl _
  | cancel k ca sh c hm => cases hm <;> exact Nat.le_refl _
  | inline ia sh t hm =>
    cases hm with
    | create runtime db t' hst hc =>
      unfold createRun at hc
      split at hc
      · cases hc
      · cases hc
        exact countRetries_append rfl
    | turn ta db t' hst ht =>
      obtain ⟨more, hmore⟩ := turnMove_events (turnStep_move ht).2
      exact countRetries_append hmore
    | send => exact Nat.le_refl _
  | _ => exact Nat.le_refl _

structure Requeued (cfg : Settings) (requeues : Nat) (s : World) : Prop where
  bound : requeues ≤ cfg.maxRetries
  logged : requeues ≤ s.shared.db.countRetries
  counted : ∀ leaseId row n, s.scanner = .counted leaseId row n → requeues ≤ n
  next : s.scanner = .requeueing → requeues + 1 ≤ cfg.maxRetries ∧ requeues + 1 ≤ s.shared.db.countRetries

theorem requeued_step {cfg : Settings} {requeues : Nat} {s s' : World} {a : Act} (h : Requeued cfg requeues s)
    (hs : step cfg s a = some s') : Requeued cfg (requeues + if a.requeues then 1 else 0) s' := by
  have hmove := step_move hs
  have hcount := countRetries_step hmove
  have hsame : a.requeues = false → s'.scanner = s.scanner → Requeued cfg (requeues + if a.requeues then 1 else 0) s' := by
    intro hno hscanner
    rw [hno]
    refine ⟨h.bound, Nat.le_trans h.logged hcount, fun leaseId row n hn => h.counted leaseId row n (by rw [← hscanner, hn]), ?_⟩
    intro hnext
    obtain ⟨hbound, hlogged⟩ := h.next (by rw [← hscanner, hnext])
    exact ⟨hbound, Nat.le_trans hlogged hcount⟩
  cases hmove with
  | scan sa sh r hm =>
    cases hm with
    | count leaseId row hr =>
      refine ⟨h.bound, h.logged, fun _ _ n hn => ?_, fun hn => (by cases hn)⟩
      cases hn
      exact h.logged
    | commit leaseId row n hr =>
      have hn := h.counted leaseId row n hr
      refine ⟨h.bound, Nat.le_trans h.logged hcount, fun _ _ m hm => ?_, fun hnext => ?_⟩
      · dsimp only at hm
        split at hm
        · cases hm
        · cases hm
      · dsimp only at hnext
        split at hnext
        · rename_i hlt
          refine ⟨Nat.lt_of_le_of_lt hn hlt, ?_⟩
          have hlogged := h.logged
          simp only [Act.requeues, Db.reconcile, if_pos hlt, Db.countRetries, Db.deleteLease, Db.append, List.countP_append] at hlogged ⊢
          simp
          omega
        · cases hnext
    | requeue ok hr =>
      obtain ⟨hbound, hlogged⟩ := h.next hr
      exact ⟨hbound, Nat.le_trans hlogged hcount, fun _ _ m hm => (by cases hm), fun hn => (by cases hn)⟩
    | findLease hr | findRun _ hr | findActive _ hr | expired _ _ hr | noLease hr | nothing _ hr | loadOver _ hr | load _ _ hr
    | fails hr =>
      exact ⟨h.bound, h.logged, fun _ _ m hm => (by cases hm), fun hn => (by cases hn)⟩
  | _ => exact hsame rfl rfl

theorem requeued_run {cfg : Settings} : ∀ (as : List Act) {requeues : Nat} {s s' : World}, Requeued cfg requeues s →
    exec (step cfg) s as = some s' → Requeued cfg (requeues + as.countP Act.requeues) s'
  | [], _, _, _, h, hexec => by
    cases hexec
    exact h
  | a :: as, requeues, s, _, h, hexec => by
    obtain ⟨t, ht, hrest⟩ := Option.bind_eq_some_iff.1 hexec
    have hrun := requeued_run as (requeued_step h ht) hrest
    rw [List.countP_cons]
    have hadd : requeues + (as.countP Act.requeues + if a.requeues then 1 else 0) =
        (requeues + if a.requeues then 1 else 0) + as.countP Act.requeues := by omega
    rw [hadd]
    exact hrun

/-! ## every run -/

def streamedCounted : List Act :=
  [.inline (.create "native"), .scan .findLease, .scan .findRun, .scan .findActive, .scan .findNoLease, .scan .load,
    .scan .count]

def streamedRequeued : List Act := streamedCounted ++ [.scan .commit, .scan (.requeue true)]

end Run
end MyGpt
