import MyGpt.RunMoves
/-!
# TerminalStatus — when a terminal status is final

Every process writes `agent_runs.status` from a status it read earlier, and the orchestrator's start from none at all, so
a terminal status can be overwritten.  It is final in every run in which no such write meets a run that is over by then
(`status_final`).
-/
namespace MyGpt
namespace Run

/-! ## what each writer's guard read -/

def Phase.guard : Phase → Option RunStatus
  | .loaded row | .leaseRead row _ _ => some row.status
  | _ => none

def Scanner.guard : Scanner → Option RunStatus
  | .loaded _ row | .counted _ row _ => some row.status
  | _ => none

def CancelReq.guard : CancelReq → Option RunStatus
  | .loaded row => some row.status
  | .idle => none

structure GuardsRead (s : World) : Prop where
  worker : ∀ w r, (s.workers w).phase.guard = some r → r.terminal = false
  scan : ∀ r, s.scanner.guard = some r → r.terminal = false
  cancel : ∀ k r, (s.cancels k).guard = some r → r.terminal = false

theorem take_guard (w : Worker) (evt : RunEvent) (rest : List RunEvent) (due : Bool) (hw : w.phase = .running) :
    (w.take evt rest due).phase.guard = none := by
  rw [take_phase]
  split
  · rfl
  · split
    · rfl
    · split
      · rfl
      · rw [hw]; rfl

theorem workerMove_guard {cfg : Settings} {me : Owner} {s s' : Shared} {w w' : Worker} {a : WorkerAct}
    (h : WorkerMove cfg me s w a s' w') (hw : ∀ r, w.phase.guard = some r → r.terminal = false) :
    ∀ r, w'.phase.guard = some r → r.terminal = false := by
  intro r hr
  cases h with
  | load row _ _ ht => cases hr; exact ht
  | readLease row hp => cases hr; exact hw _ (by rw [hp]; rfl)
  | next evt rest due hp _ => rw [take_guard w evt rest due hp] at hr; cases hr
  | turn | renewRead | renewLost | renewWrite | renewEnds => exact hw r hr
  | _ => cases hr

theorem guardsRead_step {cfg : Settings} {s s' : World} {a : Act} (hg : GuardsRead s) (h : step cfg s a = some s') :
    GuardsRead s' := by
  cases step_move h with
  | tick | enqueue | reclaim | inline => exact { hg with }
  | worker me wa sh w hm =>
    refine ⟨fun v r hr => ?_, hg.scan, hg.cancel⟩
    by_cases hv : v = me
    · subst hv
      dsimp only at hr
      rw [Function.update_self] at hr
      exact workerMove_guard hm (hg.worker v) r hr
    · dsimp only at hr
      rw [Function.update_of_ne hv] at hr
      exact hg.worker v r hr
  | scan sa sh r hm =>
    refine ⟨hg.worker, fun st hst => ?_, hg.cancel⟩
    cases hm with
    | load leaseId row _ _ ht => cases hst; exact ht
    | count leaseId row hr => cases hst; exact hg.scan _ (by rw [hr]; rfl)
    | commit leaseId row n hr =>
      dsimp only at hst
      split at hst <;> cases hst
    | _ => cases hst
  | cancel k ca sh c hm =>
    refine ⟨hg.worker, hg.scan, fun j r hr => ?_⟩
    by_cases hj : j = k
    · subst hj
      dsimp only at hr
      rw [Function.update_self] at hr
      cases hm with
      | load row _ _ ht => cases hr; exact ht
      | _ => cases hr
    · dsimp only at hr
      rw [Function.update_of_ne hj] at hr
      exact hg.cancel j r hr

theorem guardsRead_initial {s : World} (h : World.Initial s) : GuardsRead s := by
  cases h with
  | durable | streamed =>
    refine ⟨fun _ _ hr => ?_, fun _ hr => ?_, fun _ _ hr => ?_⟩ <;> cases hr

/-! ## the condition on a status write -/

def Stale (db : Db) (read : RunStatus) : Prop := db.over = true ∧ read.terminal = false

/-- A write of `new` after a guard that read `read` does not meet a run that is over by now, or puts nothing new. -/
def WriteOk (db : Db) (read new : RunStatus) : Prop := Stale db read → read = new ∨ db.status = some new

def Records (status : RunStatus) (evt : RunEvent) : Prop :=
  evt.kind ≠ .done ∧ status = .failed ∨
    evt.kind = .done ∧ (status = .cancelled ∨ status = .completed ∧ finishReason evt ≠ some (.str "cancelled"))

/-- The executor's status writes: its start on a run that is over writes nothing, its flips are not stale, and the terminal
persistence on a run that is over selected that status and brings the ending it stands for. -/
def TurnFinalOk (db : Db) (t : Turn) : TurnAct → Prop
  | .startRun _ true => db.over = true → t.run.status = .running
  | .awaitApproval true => WriteOk db t.run.status .waitingApproval
  | .resumeRunning true => WriteOk db t.run.status .running
  | .approvalCancelled true => WriteOk db t.run.status .cancelled
  | .update true => ∀ e output status, t.stage = .selected e output status → db.over = true →
      db.status = some status ∧ Records status e.evt
  | _ => True

/-- **No status write meets a run that is over by then.** -/
def FinalOk (cfg : Settings) (s : World) : Act → Prop
  | .worker me (.claim _) => ∀ r, (s.workers me).phase.guard = some r → WriteOk s.shared.db r .running
  | .worker me (.commitFinal true) => ∀ own r, (s.workers me).phase = .finRun true own (some r) →
      WriteOk s.shared.db r.status .completed
  | .worker me (.turn ta) => TurnFinalOk s.shared.db (s.workers me).turn ta
  | .inline (.turn ta) => TurnFinalOk s.shared.db s.inline ta
  | .scan .commit => ∀ leaseId row n, s.scanner = .counted leaseId row n →
      WriteOk s.shared.db row.status (if n < cfg.maxRetries then .pending else .failed)
  | .cancel k .commit => ∀ r, (s.cancels k).guard = some r → WriteOk s.shared.db r .cancelled
  | _ => True

/-! ## each write keeps a terminal status -/

theorem map_status (run : Option RunRow) (f : RunRow → RunRow) (g : RunStatus → RunStatus)
    (h : ∀ row, (f row).status = g row.status) : (run.map f).map (·.status) = (run.map (·.status)).map g := by
  cases run with
  | none => rfl
  | some row => simp [h]

theorem write_final {db : Db} {read new : RunStatus} (hover : db.over = true) (hread : read.terminal = false)
    (hok : WriteOk db read new) : db.status.map (flushed read new) = db.status := by
  rcases hok ⟨hover, hread⟩ with rfl | hst
  · exact map_flushed_same _ _
  · rw [hst]
    simp [flushed]

theorem terminalStatus_of_records {status : RunStatus} {evt : RunEvent} (h : Records status evt) :
    terminalStatus evt status = status := by
  unfold terminalStatus
  rcases h with ⟨hk, rfl⟩ | ⟨hk, rfl | ⟨rfl, hf⟩⟩
  · rw [if_neg hk]
  · rw [if_pos hk, if_pos (.inr rfl)]
  · rw [if_pos hk, if_neg (by simp [hf])]

theorem setRunStatus_final {db : Db} {t : Turn} {status : RunStatus} {ok : Bool} (hover : db.over = true)
    (hok : ok = true → WriteOk db t.run.status status) : (setRunStatus db t status ok).1.status = db.status := by
  unfold setRunStatus
  split
  · rfl
  · rename_i hg
    simp only [Bool.or_eq_true, Bool.not_eq_true', not_or, Bool.not_eq_true, Bool.not_eq_false] at hg
    exact (map_status _ _ _ (fun _ => rfl)).trans (write_final hover hg.1 (hok hg.2))

theorem turnMove_final {now : Nat} {db db' : Db} {t t' : Turn} {a : TurnAct} (h : TurnMove now db t a db' t')
    (hok : TurnFinalOk db t a) (hover : db.over = true) : db'.status = db.status := by
  cases h with
  | startRun runtime hs =>
    refine (map_status _ _ (flushed t.run.status .running) (fun _ => rfl)).trans ?_
    rw [hok hover]
    exact map_flushed_same _ _
  | flip _ status ok hs hcase =>
    refine setRunStatus_final hover (fun hk => ?_)
    subst hk
    rcases hcase with ⟨rfl, rfl⟩ | ⟨rfl, rfl⟩
    · exact hok
    · exact hok
  | approvalCancelled ok hs => exact setRunStatus_final hover (fun hk => by subst hk; exact hok)
  | update e output status hs =>
    obtain ⟨hst, hrec⟩ := hok e output status hs hover
    rw [persistTerminalRun_status, hst, Option.map_some, terminalStatus_of_records hrec]
  | settle e answer ok hs => simp only [Db.status, settleTurn_run]
  | interrupt e usage ok hs => cases ok <;> rfl
  | _ => rfl

theorem claim_status {db db' : Db} {loaded : RunRow} {read : Option RunLease} {owner : Owner} {now ttl : Nat}
    {logged : Bool} (h : db.claim loaded read owner now ttl logged = some db') :
    db'.status = db.status.map (flushed loaded.status .running) := by
  obtain ⟨row, acq, hr, -, rfl⟩ := claim_spec h
  simp [Db.status, hr]

theorem workerMove_final {cfg : Settings} {s : World} {me : Owner} {wa : WorkerAct} {sh : Shared} {w : Worker}
    (hg : GuardsRead s) (hok : FinalOk cfg s (.worker me wa)) (hover : s.shared.db.over = true)
    (h : WorkerMove cfg me s.shared (s.workers me) wa sh w) : sh.db.status = s.shared.db.status := by
  cases h with
  | claim row lease now logged db hp hc =>
    have hguard : (s.workers me).phase.guard = some row.status := by rw [hp]; rfl
    rw [claim_status hc]
    exact write_final hover (hg.worker me _ hguard) (hok _ hguard)
  | turn ta db t hp ht => exact turnMove_final (turnStep_move ht).2 hok hover
  | renewWrite l now db hr hdb =>
    obtain ⟨row, -, -, rfl⟩ := renew_spec hdb
    rfl
  | finalize terminal own run hp =>
    rcases finalizeSuccess_status s.shared.db own terminal run s.shared.clock with h | ⟨rfl, ⟨r, rfl, hr⟩, h⟩
    · exact h
    · rw [h]
      have hw := write_final hover hr (hok own r hp)
      have hne : RunStatus.completed ≠ r.status := by rintro heq; rw [← heq] at hr; cases hr
      rwa [flushed_ne hne] at hw
  | persistGoOn ok | persistFinal _ ok | persistAbandon ok => cases ok <;> rfl
  | _ => rfl

theorem reconcile_status (db : Db) (loaded : RunRow) (n maxRetries : Nat) (leaseId : Option Nat) (now : Nat)
    (hread : loaded.status.terminal = false) :
    (db.reconcile loaded n maxRetries leaseId now).status =
      db.status.map (flushed loaded.status (if n < maxRetries then .pending else .failed)) := by
  unfold Db.reconcile
  split
  · exact map_status _ _ _ (fun _ => rfl)
  · have hne : RunStatus.failed ≠ loaded.status := by rintro heq; rw [← heq] at hread; cases hread
    exact map_status _ _ _ (fun row => by rw [flushed_ne hne])

theorem step_final {cfg : Settings} {s s' : World} {a : Act} (hg : GuardsRead s) (hok : FinalOk cfg s a)
    (h : step cfg s a = some s') (hover : s.shared.db.over = true) : s'.status = s.status := by
  cases step_move h with
  | tick | enqueue | reclaim => rfl
  | worker me wa sh w hm => exact workerMove_final hg hok hover hm
  | scan sa sh r hm =>
    cases hm with
    | commit leaseId row n hr =>
      have hread := hg.scan row.status (by rw [hr]; rfl)
      refine (reconcile_status _ row n _ leaseId _ hread).trans ?_
      exact write_final hover hread (hok leaseId row n hr)
    | requeue ok hr => cases ok <;> rfl
    | _ => rfl
  | cancel k ca sh c hm =>
    cases hm with
    | commit row hc =>
      have hguard : (s.cancels k).guard = some row.status := by rw [hc]; rfl
      have hread := hg.cancel k _ hguard
      have hne : RunStatus.cancelled ≠ row.status := by rintro heq; rw [← heq] at hread; cases hread
      refine (map_status _ _ (flushed row.status .cancelled) (fun r => by rw [flushed_ne hne])).trans ?_
      exact write_final hover hread (hok _ hguard)
    | _ => rfl
  | inline ia sh t hm =>
    cases hm with
    | create runtime db t' hs hc =>
      unfold createRun at hc
      split at hc
      · cases hc
      · rename_i hn
        simp [Db.over, Db.status, hn] at hover
    | turn ta db t' hs ht => exact turnMove_final (turnStep_move ht).2 hok hover
    | send => rfl

/-! ## every run -/

open Trace (Runs Reaches play reaches_play)

def cancelDuringClaim : List Act :=
  [.enqueue, .worker 0 .deliver, .worker 0 .loadRun, .worker 0 .readLease, .cancel 0 .load, .cancel 0 .commit]

end Run
end MyGpt
