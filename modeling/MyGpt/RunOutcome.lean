import MyGpt.RunFrames
/-!
# RunOutcome — when status, log and stream agree on how a run ended

The status is decided in `persist_terminal_run`, the durable event in `_finalize_run`, the finalization in the worker, each
from an input of its own.  They agree when a worker has finalized a run (`outcome_agrees`) in every run of the system whose
turns end in the orchestrator with its two writes done, with no cancel, reconcile or second worker in between.
-/
namespace MyGpt
namespace Run

open Trace (Runs Reaches play reaches_play)

def outcomeOf (evt : RunEvent) : RunStatus :=
  if evt.kind = .done then if finishReason evt = some (.str "cancelled") then .cancelled else .completed else .failed

def outcomeEvent : RunStatus → EventKind
  | .completed => .runCompleted
  | .cancelled => .runCancelled
  | _ => .runFailed

def Db.outcomes (db : Db) : List EventKind := (db.events.map (·.kind)).filter (·.outcome)

def Agrees (evt : RunEvent) (db : Db) : Prop :=
  db.status = some (outcomeOf evt) ∧ db.outcomes = [outcomeEvent (outcomeOf evt)]

/-! ## the condition -/

/-- **The turn ends in the orchestrator**: not before it, not without a terminal event; its `SELECT`, its `UPDATE` and its
append go through; and a `done` that is no cancel does not meet a cancelled run. -/
def TurnOutcomeOk (t : Turn) : TurnAct → Prop
  | .earlyError _ | .refuse _ true | .runOut | .select false | .update false | .append false => False
  | .update true => ∀ e output, t.stage = .selected e output .cancelled → outcomeOf e.evt ≠ .completed
  | _ => True

/-- **One worker at a time, and no status write from outside after the end**: a claim finds no other worker past its claim
and no outcome in the log, a reconcile under a worker finds a run that is not over, a cancel one that is not over
otherwise. -/
def OutcomeOk (s : World) : Act → Prop
  | .worker w (.claim _) => (∀ v, v ≠ w → (s.workers v).phase.pastClaim = false) ∧ s.shared.db.outcomes = []
  | .worker w (.turn ta) => TurnOutcomeOk (s.workers w).turn ta
  | .scan .commit => s.shared.db.over = true → ∀ v, (s.workers v).phase.pastClaim = false
  | .cancel _ .commit => s.shared.db.over = true → s.status = some .cancelled
  | _ => True

/-! ## the executor -/

def EndingOk (e : Ending) (held : RunStatus) : Prop :=
  (e.evt.kind = .done ∨ e.evt.kind = .error) ∧ (held = .cancelled → outcomeOf e.evt = .cancelled)

def TurnAgrees (db : Db) (t : Turn) : Prop :=
  match t.stage with
  | .start | .loaded => db.outcomes = []
  | .streaming => db.outcomes = [] ∧ t.run.status ≠ .cancelled
  | .persisting e | .selected e _ _ => db.outcomes = [] ∧ EndingOk e t.run.status
  | .appending e => db.outcomes = [] ∧ EndingOk e t.run.status ∧ db.status = some (outcomeOf e.evt)
  | .settling e => (e.evt.kind = .done ∨ e.evt.kind = .error) ∧ Agrees e.evt db
  | .ended => ∃ evt, t.out = [evt] ∧ (evt.kind = .done ∨ evt.kind = .error) ∧ Agrees evt db
  | .raised | .killed => True

theorem outcomeOf_terminal (evt : RunEvent) : (outcomeOf evt).terminal = true := by
  unfold outcomeOf
  split
  · split <;> rfl
  · rfl

theorem Agrees.over {evt : RunEvent} {db : Db} (h : Agrees evt db) : db.over = true := by
  unfold Db.over
  rw [h.1, Option.any_some]
  exact outcomeOf_terminal evt

theorem outcomes_append (db : Db) (evs : List RunEvent) :
    (db.append evs).outcomes = db.outcomes ++ (evs.map (·.kind)).filter (·.outcome) := by
  simp [Db.outcomes]

theorem terminalStatus_eq_outcome {evt : RunEvent} {selected : RunStatus}
    (h : selected = .cancelled → outcomeOf evt ≠ .completed) : terminalStatus evt selected = outcomeOf evt := by
  unfold terminalStatus outcomeOf at *
  by_cases hk : evt.kind = .done
  · by_cases hf : finishReason evt = some (.str "cancelled")
    · simp [hk, hf]
    · have hs : selected ≠ .cancelled := fun hs => h hs (by simp [hk, hf])
      simp [hk, hf, hs]
  · simp [hk]

theorem terminalType_eq_outcome {e : Ending} {held : RunStatus} (h : EndingOk e held) :
    terminalType e.evt held = outcomeEvent (outcomeOf e.evt) := by
  obtain ⟨-, hheld⟩ := h
  unfold terminalType outcomeOf at *
  by_cases hk : e.evt.kind = .done
  · by_cases hf : finishReason e.evt = some (.str "cancelled")
    · simp [hk, hf, outcomeEvent]
    · have hs : held ≠ .cancelled := by
        intro hs
        have := hheld hs
        simp [hk, hf] at this
      simp [hk, hf, hs, outcomeEvent]
  · simp [hk, outcomeEvent]

theorem outcomeEvent_outcome (status : RunStatus) : (outcomeEvent status).outcome = true := by
  cases status <;> rfl

theorem wellFormed_kind {e : Ending} (h : e.wellFormed = true) : e.evt.kind = .done ∨ e.evt.kind = .error := by
  unfold Ending.wellFormed at h
  split at h
  · have he : e = cancelledEnding := by simpa using h
    rw [he]
    exact .inl rfl
  · simpa using h

theorem setRunStatus_held {db : Db} {t : Turn} {status : RunStatus} {ok : Bool} (ht : t.run.status ≠ .cancelled)
    (hs : status ≠ .cancelled) : (setRunStatus db t status ok).2.run.status ≠ .cancelled := by
  unfold setRunStatus
  split
  · exact ht
  · exact hs

theorem outcomes_of_events {db db' : Db} (h : db'.events = db.events) : db'.outcomes = db.outcomes := by
  unfold Db.outcomes; rw [h]

theorem turnMove_agrees {now : Nat} {db db' : Db} {t t' : Turn} {a : TurnAct} (h : TurnMove now db t a db' t')
    (hrun : db.run.isSome = true) (hinv : TurnAgrees db t) (hok : TurnOutcomeOk t a) : TurnAgrees db' t' := by
  cases h with
  | notFound hs hn => rw [hn] at hrun; cases hrun
  | load row hs | select e row hs => unfold TurnAgrees at hinv ⊢; rw [hs] at hinv; exact hinv
  | earlyError | refuse | runOut | updateFails | appendFails => exact absurd hok (fun h => h)
  | setupFails | refuseFails | startFails | gateFails | interrupt => trivial
  | startRun runtime hs =>
    unfold TurnAgrees at hinv ⊢
    rw [hs] at hinv
    exact ⟨hinv, by simp⟩
  | emit name data hs =>
    unfold TurnAgrees at hinv ⊢
    rcases hs with hs | ⟨e, hs, -⟩
    · rw [hs] at hinv; dsimp only; rw [hs]; exact hinv
    · rw [hs] at hinv; dsimp only; rw [hs]; exact hinv
  | checkpoint content hs => unfold TurnAgrees at hinv ⊢; rw [hs] at hinv; dsimp only; rw [hs]; exact hinv
  | flip _ status ok hs hcase =>
    unfold TurnAgrees at hinv ⊢
    rw [hs] at hinv
    rw [setRunStatus_stage, hs]
    refine ⟨(outcomes_of_events (setRunStatus_events _ _ _ _)).trans hinv.1, setRunStatus_held hinv.2 ?_⟩
    rcases hcase with ⟨-, rfl⟩ | ⟨-, rfl⟩ <;> simp
  | approvalCancelled ok hs =>
    unfold TurnAgrees at hinv ⊢
    rw [hs] at hinv
    exact ⟨(outcomes_of_events (setRunStatus_events _ _ _ _)).trans hinv.1, .inl rfl, fun _ => rfl⟩
  | finish e hs hw =>
    unfold TurnAgrees at hinv ⊢
    rw [hs] at hinv
    exact ⟨hinv.1, wellFormed_kind hw, fun hc => absurd hc hinv.2⟩
  | selectNothing e ok hs hor =>
    rcases hor with rfl | hn
    · exact absurd hok (fun h => h)
    · rw [hn] at hrun; cases hrun
  | update e output status hs =>
    unfold TurnAgrees at hinv ⊢
    rw [hs] at hinv
    have hsel : status = .cancelled → outcomeOf e.evt ≠ .completed := by
      rintro rfl
      exact hok e output hs
    refine ⟨hinv.1, hinv.2, ?_⟩
    obtain ⟨row, hrow⟩ := Option.isSome_iff_exists.1 hrun
    rw [persistTerminalRun_status, terminalStatus_eq_outcome hsel]
    simp [Db.status, hrow]
  | append e hs =>
    unfold TurnAgrees at hinv ⊢
    rw [hs] at hinv
    obtain ⟨hnil, hend, hst⟩ := hinv
    refine ⟨hend.1, hst, ?_⟩
    rw [outcomes_append, hnil]
    simp [terminalEvent, terminalType_eq_outcome hend, outcomeEvent_outcome]
  | settle e answer ok hs =>
    have hst : (settleTurn db t e answer ok).1.status = db.status := by simp only [Db.status, settleTurn_run]
    have hout : (settleTurn db t e answer ok).1.outcomes = db.outcomes := outcomes_of_events (settleTurn_events _ _ _ _ _)
    unfold TurnAgrees at hinv
    rw [hs] at hinv
    have hagree : Agrees e.evt (settleTurn db t e answer ok).1 := ⟨hst.trans hinv.2.1, hout.trans hinv.2.2⟩
    have hstage : (settleTurn db t e answer ok).2.stage = .raised ∨
        (settleTurn db t e answer ok).2.stage = .ended ∧ (settleTurn db t e answer ok).2.out = [e.evt] := by
      unfold settleTurn
      split
      · exact .inl rfl
      · split <;> exact .inr ⟨rfl, rfl⟩
    unfold TurnAgrees
    rcases hstage with h | ⟨h, ho⟩
    · rw [h]; trivial
    · rw [h]; exact ⟨e.evt, ho, hinv.1, hagree⟩

/-! ## what the worker takes from the executor -/

def NoOutcome (evs : List RunEvent) : Prop := ∀ evt ∈ evs, evt.kind.outcome = false

theorem outcomes_append_none {db : Db} {evs : List RunEvent} (h : NoOutcome evs) :
    (db.append evs).outcomes = db.outcomes := by
  have hnil : (evs.map (·.kind)).filter (·.outcome) = [] := by
    rw [List.filter_eq_nil_iff]
    intro kind hkind
    obtain ⟨evt, hevt, rfl⟩ := List.mem_map.1 hkind
    simp [h evt hevt]
  rw [outcomes_append, hnil, List.append_nil]

/-! ## the worker -/

def WorkerAgrees (db : Db) (w : Worker) : Prop :=
  match w.phase with
  | .running | .persisting .goOn => TurnAgrees db w.turn ∧ w.turn.OutOpen ∧ NoOutcome w.batch
  | .persisting (.finalize true) => NoOutcome w.batch ∧ ∃ evt, w.seen = some evt ∧ Agrees evt db
  | .finalizing true | .finLease true _ | .acking => ∃ evt, w.seen = some evt ∧ Agrees evt db
  | .finRun true _ run =>
    (∀ row, run = some row → row.status.terminal = true) ∧ ∃ evt, w.seen = some evt ∧ Agrees evt db
  | .persisting .abandon => NoOutcome w.batch
  | .persisting (.finalize false) | .finalizing false | .finLease false _ | .finRun false _ _ => False
  | _ => True

theorem workerAgrees_out {db : Db} {w : Worker} (h : w.phase.pastClaim = false) : WorkerAgrees db w := by
  unfold WorkerAgrees
  split <;> first | trivial | (rename_i hp; rw [hp] at h; cases h)

theorem TurnAgrees.of_open {db db' : Db} {t : Turn} (h : TurnAgrees db t) (hopen : db.over = false)
    (hev : db'.outcomes = db.outcomes) : TurnAgrees db' t := by
  unfold TurnAgrees at h ⊢
  split at h
  · exact hev.trans h
  · exact hev.trans h
  · exact ⟨hev.trans h.1, h.2⟩
  · exact ⟨hev.trans h.1, h.2⟩
  · exact ⟨hev.trans h.1, h.2⟩
  · obtain ⟨-, -, hst⟩ := h
    rw [Db.over, hst, Option.any_some, outcomeOf_terminal] at hopen
    cases hopen
  · rw [h.2.over] at hopen; cases hopen
  · obtain ⟨evt, -, -, ha⟩ := h
    rw [ha.over] at hopen
    cases hopen
  · trivial
  · trivial

theorem WorkerAgrees.of_open {db db' : Db} {w : Worker} (h : WorkerAgrees db w) (hopen : db.over = false)
    (hev : db'.outcomes = db.outcomes) : WorkerAgrees db' w := by
  have hclosed : ∀ P : Prop, (∃ evt, w.seen = some evt ∧ Agrees evt db) → P := by
    rintro P ⟨evt, -, ha⟩
    rw [ha.over] at hopen
    cases hopen
  unfold WorkerAgrees at h ⊢
  split at h
  · exact ⟨h.1.of_open hopen hev, h.2⟩
  · exact ⟨h.1.of_open hopen hev, h.2⟩
  · exact hclosed _ h.2
  · exact hclosed _ h
  · exact hclosed _ h
  · exact hclosed _ h
  · exact hclosed _ h.2
  · exact h
  · exact h
  · exact h
  · exact h
  · exact h
  · trivial

theorem Agrees.congr {evt : RunEvent} {db db' : Db} (h : Agrees evt db) (hst : db'.status = db.status)
    (hev : db'.outcomes = db.outcomes) : Agrees evt db' := ⟨hst.trans h.1, hev.trans h.2⟩

theorem WorkerAgrees.congr {db db' : Db} {w : Worker} (h : WorkerAgrees db w) (hst : db'.status = db.status)
    (hev : db'.outcomes = db.outcomes) : WorkerAgrees db' w := by
  unfold WorkerAgrees TurnAgrees Agrees at *
  rwa [hst, hev]

theorem persist_outcomes {s : Shared} {batch : List RunEvent} (ok : Bool) (h : NoOutcome batch) :
    (s.persist batch ok).db.outcomes = s.db.outcomes := by
  cases ok with
  | false => rfl
  | true => exact outcomes_append_none h

theorem terminal_noOutcome {evt : RunEvent} (h : evt.kind = .done ∨ evt.kind = .error) : evt.kind.outcome = false := by
  rcases h with h | h <;> rw [h] <;> rfl

theorem NoOutcome.snoc {batch : List RunEvent} {evt : RunEvent} (h : NoOutcome batch) (hevt : evt.kind.outcome = false) :
    NoOutcome (batch ++ [evt]) := by
  intro e he
  rcases List.mem_append.1 he with he | he
  · exact h e he
  · obtain rfl := List.mem_singleton.1 he
    exact hevt

theorem take_agrees {db : Db} {w : Worker} {evt : RunEvent} {rest : List RunEvent} (due : Bool) (hp : w.phase = .running)
    (hout : w.turn.out = evt :: rest) (hturn : TurnAgrees db w.turn) (hopen : w.turn.OutOpen) (hbatch : NoOutcome w.batch) :
    WorkerAgrees db (w.take evt rest due) := by
  by_cases hl : w.leaseLost = true
  · refine workerAgrees_out ?_
    rw [take_phase, if_pos hl]
    rfl
  by_cases hend : w.turn.stage = .ended
  · -- the terminal event
    unfold TurnAgrees at hturn
    rw [hend] at hturn
    obtain ⟨evt', hout', hkind, hagree⟩ := hturn
    rw [hout] at hout'
    obtain ⟨rfl, rfl⟩ := List.cons_eq_cons.1 hout'
    have hterm : evt.kind.terminal = true := by
      rcases hkind with h | h <;> rw [h] <;> rfl
    unfold WorkerAgrees
    rw [take_phase, if_neg hl, if_pos hterm]
    simp only [Worker.take, hl, hterm, if_true]
    exact ⟨hbatch.snoc (terminal_noOutcome hkind), evt, rfl, hagree⟩
  · obtain ⟨hterm, hnone⟩ := hopen hend evt (by rw [hout]; exact List.mem_cons_self)
    have hturn' : TurnAgrees db { w.turn with out := rest } := by
      unfold TurnAgrees at hturn ⊢
      dsimp only
      split at hturn
      all_goals first | exact hturn | (rename_i hst; exact absurd hst hend)
    have hopen' : Turn.OutOpen { w.turn with out := rest } := fun hne e he =>
      hopen hne e (by rw [hout]; exact List.mem_cons_of_mem _ he)
    unfold WorkerAgrees
    rw [take_phase, if_neg hl, if_neg (by simp [hterm])]
    cases due with
    | true =>
      simp only [Worker.take, hl, hterm, if_true]
      exact ⟨hturn', hopen', hbatch.snoc hnone⟩
    | false =>
      rw [if_neg (by decide), hp]
      simp only [Worker.take, hl, hterm]
      exact ⟨hturn', hopen', hbatch.snoc hnone⟩

theorem workerMove_agrees {cfg : Settings} {me : Owner} {s s' : Shared} {w w' : Worker} {a : WorkerAct}
    (h : WorkerMove cfg me s w a s' w') (hrun : s.db.run.isSome = true) (hinv : WorkerAgrees s.db w)
    (hclaim : ∀ logged, a = .claim logged → s.db.outcomes = [])
    (hturn : ∀ ta, a = .turn ta → TurnOutcomeOk w.turn ta) : WorkerAgrees s'.db w' := by
  cases h with
  | deliver | loadOver | load | skip | readLease | noClaim | abandon | abandonFails | finalizeFails | ack | killed
  | crash => exact workerAgrees_out rfl
  | claim row lease now logged db hp hc =>
    obtain ⟨row', acq, -, hacq, rfl⟩ := claim_spec hc
    have hnone := hclaim logged rfl
    obtain ⟨-, hev, -⟩ := acquire_frame hacq
    refine ⟨?_, fun _ _ he => (by cases he), fun _ he => (by cases he)⟩
    unfold TurnAgrees
    dsimp only [Worker.claimed]
    unfold Db.outcomes at hnone ⊢
    rw [List.map_append, List.filter_append, hev, hnone]
    cases logged <;> rfl
  | turn ta db t hp ht =>
    obtain ⟨hout, hm⟩ := turnStep_move ht
    unfold WorkerAgrees at hinv ⊢
    rw [hp] at hinv
    rw [hp]
    exact ⟨turnMove_agrees hm hrun hinv.1 (hturn ta rfl), turnMove_outOpen hm hout, hinv.2.2⟩
  | next evt rest due hp hout =>
    unfold WorkerAgrees at hinv
    rw [hp] at hinv
    exact take_agrees due hp hout hinv.1 hinv.2.1 hinv.2.2
  | exhausted hp hout hend =>
    unfold WorkerAgrees at hinv
    rw [hp] at hinv
    obtain ⟨hturn, -, -⟩ := hinv
    unfold TurnAgrees at hturn
    rw [hend] at hturn
    obtain ⟨evt, hout', -⟩ := hturn
    rw [hout] at hout'
    cases hout'
  | raised hp hst =>
    unfold WorkerAgrees at hinv
    rw [hp] at hinv
    exact hinv.2.2
  | persistGoOn ok hp =>
    unfold WorkerAgrees at hinv
    rw [hp] at hinv
    have hkept : WorkerAgrees s.db { w with batch := [], phase := .running } :=
      ⟨hinv.1, hinv.2.1, fun _ he => (by cases he)⟩
    exact hkept.congr (persist_status _ _ _) (persist_outcomes ok hinv.2.2)
  | persistFinal terminal ok hp =>
    unfold WorkerAgrees at hinv
    rw [hp] at hinv
    cases terminal with
    | false => exact absurd hinv (fun h => h)
    | true =>
      obtain ⟨hbatch, evt, hseen, hagree⟩ := hinv
      exact ⟨evt, hseen, hagree.congr (persist_status _ _ _) (persist_outcomes ok hbatch)⟩
  | persistAbandon => trivial
  | abandonRead => trivial
  | finLease terminal hp =>
    unfold WorkerAgrees at hinv
    rw [hp] at hinv
    cases terminal <;> exact hinv
  | finRun terminal own hp =>
    unfold WorkerAgrees at hinv
    rw [hp] at hinv
    cases terminal with
    | false => exact absurd hinv (fun h => h)
    | true =>
      obtain ⟨evt, hseen, hagree⟩ := hinv
      refine ⟨fun row hrow => ?_, evt, hseen, hagree⟩
      have hover := hagree.over
      rw [Db.over, Db.status, hrow] at hover
      exact hover
  | finalize terminal own run hp =>
    unfold WorkerAgrees at hinv
    rw [hp] at hinv
    cases terminal with
    | false => exact absurd hinv (fun h => h)
    | true =>
      obtain ⟨hover, evt, hseen, hagree⟩ := hinv
      have hst : (s.db.finalizeSuccess own true run s.clock).status = s.db.status := by
        rcases finalizeSuccess_status s.db own true run s.clock with h | ⟨-, ⟨r, hr, hrt⟩, -⟩
        · exact h
        · rw [hover r hr] at hrt; cases hrt
      exact ⟨evt, hseen, hagree.congr hst (outcomes_of_events (finalizeSuccess_events _ _ _ _ _))⟩
  | renewRead | renewLost | renewEnds => exact hinv
  | renewWrite l now db hr hdb =>
    obtain ⟨row, -, -, rfl⟩ := renew_spec hdb
    exact hinv

/-! ## every run -/

structure OutcomeSettled (s : World) : Prop where
  durable : DurableRun s
  alone : Alone s
  agrees : ∀ w, WorkerAgrees s.shared.db (s.workers w)

theorem outcomeSettled_durable : OutcomeSettled World.durable :=
  ⟨durableRun_initial, fun _ _ h _ => (by cases h), fun _ => trivial⟩

theorem workersAgree_worker {cfg : Settings} {s : World} {me : Owner} {wa : WorkerAct} {sh : Shared} {w : Worker}
    (hinv : OutcomeSettled s) (hok : OutcomeOk s (.worker me wa))
    (hm : WorkerMove cfg me s.shared (s.workers me) wa sh w) (v : Owner) :
    WorkerAgrees sh.db (Function.update s.workers me w v) := by
  by_cases hvm : v = me
  · subst hvm
    rw [Function.update_self]
    exact workerMove_agrees hm hinv.durable.exists_run (hinv.agrees v) (fun logged ha => by subst ha; exact hok.2)
      (fun ta ha => by subst ha; exact hok)
  · rw [Function.update_of_ne hvm]
    by_cases hpast : (s.workers v).phase.pastClaim = true
    · have hout : (s.workers me).phase.pastClaim = false := by
        by_contra hne
        exact hvm (hinv.alone v me hpast (by simpa using hne))
      have hnoClaim : ∀ logged, wa ≠ .claim logged := by
        rintro logged rfl
        rw [hok.1 v hvm] at hpast
        cases hpast
      obtain ⟨hst, hev⟩ := workerMove_outside hm hout hnoClaim
      exact (hinv.agrees v).congr hst (outcomes_of_events hev)
    · exact workerAgrees_out (by simpa using hpast)

theorem reconcile_outcomes (db : Db) (loaded : RunRow) (n maxRetries : Nat) (leaseId : Option Nat) (now : Nat) :
    (db.reconcile loaded n maxRetries leaseId now).outcomes = db.outcomes := by
  unfold Db.reconcile
  have hrequeued : NoOutcome
      [⟨.recoveryRequeued, [("retry", .num (n + 1)), ("reason", .str "lease expired")]⟩] := by
    intro evt he
    obtain rfl := List.mem_singleton.1 he
    rfl
  split
  · exact outcomes_append_none hrequeued
  · rfl

theorem outcomeSettled_step {cfg : Settings} {s s' : World} {a : Act} (hinv : OutcomeSettled s) (hok : OutcomeOk s a)
    (h : step cfg s a = some s') : OutcomeSettled s' := by
  have hmove := step_move h
  have hdurable := durableRun_step hinv.durable hmove
  cases hmove with
  | tick | enqueue | reclaim => exact ⟨hdurable, hinv.alone, hinv.agrees⟩
  | worker me wa sh w hm =>
    exact ⟨hdurable, alone_worker hinv.alone hm (fun logged ha => by subst ha; exact hok.1),
      workersAgree_worker hinv hok hm⟩
  | scan sa sh r hm =>
    refine ⟨hdurable, hinv.alone, fun w => ?_⟩
    cases hm with
    | commit leaseId row n =>
      cases hover : s.shared.db.over with
      | true => exact workerAgrees_out (hok hover w)
      | false => exact (hinv.agrees w).of_open hover (reconcile_outcomes _ _ _ _ _ _)
    | requeue ok => cases ok <;> exact hinv.agrees w
    | _ => exact hinv.agrees w
  | cancel k ca sh c hm =>
    refine ⟨hdurable, hinv.alone, fun w => ?_⟩
    cases hm with
    | commit row hc =>
      cases hover : s.shared.db.over with
      | true =>
        have hst : (s.shared.db.cancelRun s.shared.clock).status = s.shared.db.status := by
          rw [show s.shared.db.status = some .cancelled from hok hover]
          obtain ⟨r, hr⟩ := Option.isSome_iff_exists.1 hinv.durable.exists_run
          simp [Db.status, Db.cancelRun, hr]
        exact (hinv.agrees w).congr hst rfl
      | false => exact (hinv.agrees w).of_open hover rfl
    | _ => exact hinv.agrees w
  | inline ia sh t hm => exact absurd hm (fun hm => hinv.durable.not_inline hm)

/-- The stored status is the one of the terminal event that worker `w` got, and the log names it and no other outcome. -/
def OutcomeAgreed (s : World) (w : Owner) : Prop :=
  (∀ evt, (s.workers w).seen = some evt → s.status = some (outcomeOf evt)) ∧
    ∃ status, s.status = some status ∧ status.terminal = true ∧ s.shared.db.outcomes = [outcomeEvent status]

/-- **Outcome agreement**: in every run whose turns end in the orchestrator with both writes done, one worker at a time
and no status write from outside after the end, the worker that finalized the run leaves the status and exactly one
outcome in the log, both the one of the terminal event its executor yielded. -/
theorem outcome_agrees (cfg : Settings) {s : World} (h : Runs (step cfg) OutcomeOk World.durable s) {w : Owner}
    (hp : (s.workers w).phase = .acking) : OutcomeAgreed s w := by
  have hinv : OutcomeSettled s :=
    h.invariant outcomeSettled_durable (fun _ _ _ hinv hok hs => outcomeSettled_step hinv hok hs)
  have hagrees := hinv.agrees w
  unfold WorkerAgrees at hagrees
  rw [hp] at hagrees
  obtain ⟨evt, hseen, hst, hlog⟩ := hagrees
  refine ⟨fun evt' hseen' => ?_, outcomeOf evt, hst, outcomeOf_terminal evt, hlog⟩
  cases hseen.symm.trans hseen'
  exact hst

/-- Worker 0 takes the run and its turn ends with `done`. -/
def endedTurn : List Act :=
  [.enqueue, .worker 0 .deliver, .worker 0 .loadRun, .worker 0 .readLease, .worker 0 (.claim true),
    .worker 0 (.turn .load), .worker 0 (.turn (.startRun "native" true)),
    .worker 0 (.turn (.finish { evt := doneEvent "stop" })), .worker 0 (.turn (.select true)),
    .worker 0 (.turn (.update true)), .worker 0 (.turn (.append true)), .worker 0 (.turn (.settle "answer" true))]

def finalizedTurn : List Act :=
  [.worker 0 (.next false), .worker 0 (.persist true), .worker 0 .readOwnLease, .worker 0 .loadForFinal,
    .worker 0 (.commitFinal true)]

theorem outcome_agrees_done : OutcomeAgreed (play (step {}) World.durable (endedTurn ++ finalizedTurn)) 0 := by
  have hclaimed : Runs (step {}) OutcomeOk World.durable (play (step {}) World.durable (endedTurn.take 5)) :=
    .next (.worker 0 (.claim true)) (.next (.worker 0 .readLease) (.next (.worker 0 .loadRun)
      (.next (.worker 0 .deliver) (.next .enqueue .refl trivial rfl) trivial rfl) trivial rfl) trivial rfl)
      ⟨fun v hv => by cases v with | zero => exact absurd rfl hv | succ v => rfl, rfl⟩ rfl
  have hselected : Runs (step {}) OutcomeOk World.durable (play (step {}) World.durable (endedTurn.take 9)) :=
    .next (.worker 0 (.turn (.select true))) (.next (.worker 0 (.turn (.finish { evt := doneEvent "stop" })))
      (.next (.worker 0 (.turn (.startRun "native" true))) (.next (.worker 0 (.turn .load)) hclaimed trivial rfl)
      trivial rfl) trivial rfl) trivial rfl
  have hended : Runs (step {}) OutcomeOk World.durable (play (step {}) World.durable endedTurn) :=
    .next (.worker 0 (.turn (.settle "answer" true))) (.next (.worker 0 (.turn (.append true)))
      (.next (.worker 0 (.turn (.update true))) hselected (fun _ _ h => (by cases h)) rfl) trivial rfl) trivial rfl
  have hfinal : Runs (step {}) OutcomeOk World.durable (play (step {}) World.durable (endedTurn ++ finalizedTurn)) :=
    .next (.worker 0 (.commitFinal true)) (.next (.worker 0 .loadForFinal) (.next (.worker 0 .readOwnLease)
      (.next (.worker 0 (.persist true)) (.next (.worker 0 (.next false)) hended trivial rfl) trivial rfl) trivial rfl)
      trivial rfl) trivial rfl
  exact outcome_agrees {} hfinal rfl

/-- An error before the orchestrator: the worker finalizes the run as completed, and no event names an outcome. -/
theorem early_error_completed :
    ¬ ∀ (cfg : Settings) (s : World) (w : Owner), Reaches (step cfg) World.durable s → (s.workers w).phase = .acking →
      OutcomeAgreed s w := by
  intro h
  let early : List Act := endedTurn.take 6 ++ [.worker 0 (.turn (.earlyError .userNotFound))] ++ finalizedTurn
  obtain ⟨-, status, -, -, hnone⟩ := h {} (play (step {}) World.durable early) 0 (reaches_play (by decide)) rfl
  have hempty : (play (step {}) World.durable early).shared.db.outcomes = [] := by decide
  rw [hempty] at hnone
  cases hnone

end Run
end MyGpt
