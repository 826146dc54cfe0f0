import MyGpt.RunFrames
import MyGpt.TerminalStatus
/-!
# FinishedMessage — when a completed run has a finished message

The orchestrator commits `completed` on its own session before `run_durable_turn` commits the message, its metadata and
the charge, and the recovery takes no run that is over.  Outside of that gap a completed run has a finished message
(`completed_message_finished`) in every run in which no worker dies or gives its turn up in the gap, no turn ends with an
error before the orchestrator, and one worker has the run at a time.
-/
namespace MyGpt
namespace Run

open Trace (Runs Reaches play reaches_play)

/-! ## the condition -/

def Turn.unsettled (t : Turn) : Bool :=
  match t.stage with
  | .appending _ | .settling _ => true
  | _ => false

def Worker.inGap (w : Worker) : Bool := w.phase.executing && w.turn.unsettled

def TurnAct.drops : TurnAct → Bool
  | .settle _ ok => !ok
  | .gateFails => true
  | .interrupt usage ok => !(usage && ok)
  | _ => false

def TurnMessageOk (db : Db) : TurnAct → Prop
  | .earlyError _ => False
  | a => a.drops = true → db.status ≠ some .completed

/-- **Nothing ends a turn in the gap of a completed run**: neither a crash, nor the fence, nor a commit that fails; no
turn ends with an error before the orchestrator; and a claim finds no other worker past its claim. -/
def MessageOk (s : World) : Act → Prop
  | .worker w (.claim _) => ∀ v, v ≠ w → (s.workers v).phase.pastClaim = false
  | .worker _ (.turn ta) => TurnMessageOk s.shared.db ta
  | .worker w .crash => (s.workers w).inGap = true → s.status ≠ some .completed
  | .worker w (.next _) => (s.workers w).inGap = true → (s.workers w).leaseLost = true → s.status ≠ some .completed
  | _ => True

/-! ## the executor -/

def TurnMessage (db : Db) (t : Turn) : Prop :=
  match t.stage with
  | .loaded => db.status = some .completed → t.run.status = .completed
  | .streaming | .persisting _ | .selected .. => db.status ≠ some .completed
  | .ended => (∃ evt ∈ t.out, evt.kind.terminal = true) → db.message.finished = true
  | _ => True

def TurnCovers (db : Db) (t : Turn) : Prop :=
  db.status = some .completed → db.message.finished = true ∨ t.unsettled = true

theorem setRunStatus_status (db : Db) (t : Turn) (status : RunStatus) (ok : Bool) :
    (setRunStatus db t status ok).1.status = db.status ∨
      (setRunStatus db t status ok).1.status = db.status.map (flushed t.run.status status) := by
  unfold setRunStatus
  split
  · exact .inl rfl
  · exact .inr (map_status _ _ _ (fun _ => rfl))

theorem setRunStatus_ne_completed {db : Db} {t : Turn} {status : RunStatus} {ok : Bool}
    (h : db.status ≠ some .completed) (hs : status ≠ .completed) :
    (setRunStatus db t status ok).1.status ≠ some .completed := by
  intro hc
  rcases setRunStatus_status db t status ok with heq | heq
  · exact h (heq ▸ hc)
  · rw [heq] at hc
    obtain ⟨st, hst, hflush⟩ := Option.map_eq_some_iff.1 hc
    unfold flushed at hflush
    split at hflush
    · exact h (by rw [hst, hflush])
    · exact hs hflush

theorem persistPartial_finished (db : Db) (content : String) : (db.persistPartial content true).message.finished = true := by
  simp [Db.persistPartial, Message.finished, statusForFinish_ne_pending]

theorem settleTurn_ok_finished (db : Db) (t : Turn) (e : Ending) (answer : String) :
    (settleTurn db t e answer true).1.message.finished = true := by
  unfold settleTurn
  rw [if_neg (by decide)]
  split <;> exact settleMessage_finished _ _ _

theorem settleTurn_fails (db : Db) (t : Turn) (e : Ending) (answer : String) :
    settleTurn db t e answer false = (db, { t with stage := .raised }) := rfl

theorem turnMove_message {now : Nat} {db db' : Db} {t t' : Turn} {a : TurnAct} (h : TurnMove now db t a db' t')
    (hrun : db.run.isSome = true) (hout : t.out = []) (hinv : TurnMessage db t) (hcov : TurnCovers db t)
    (hok : TurnMessageOk db a) :
    TurnMessage db' t' ∧ TurnCovers db' t' := by
  have hkept : t.unsettled = false → TurnCovers db t' := by
    intro hu hc
    rcases hcov hc with hf | hg
    · exact .inl hf
    · rw [hu] at hg; cases hg
  cases h with
  | notFound hs hn => rw [hn] at hrun; cases hrun
  | load row hs hrow =>
    refine ⟨fun hc => ?_, hkept (by simp [Turn.unsettled, hs])⟩
    rw [Db.status, hrow] at hc
    exact Option.some.inj hc
  | earlyError e => exact absurd hok (fun h => h)
  | setupFails hs | refuseFails _ hs | startFails _ hs => exact ⟨trivial, hkept (by simp [Turn.unsettled, hs])⟩
  | refuse refusal hs =>
    have hf := settleMessage_finished db refusal "stop"
    exact ⟨fun _ => hf, fun _ => .inl hf⟩
  | startRun runtime hs =>
    unfold TurnMessage at hinv
    rw [hs] at hinv
    have hne : (db.status.map (flushed t.run.status .running)) ≠ some .completed := by
      intro hc
      obtain ⟨st, hst, hflush⟩ := Option.map_eq_some_iff.1 hc
      unfold flushed at hflush
      split at hflush
      · rename_i heq
        rw [hinv (by rw [hst, hflush])] at heq
        cases heq
      · cases hflush
    have hst : ({ db.flushMessage t.msg.content t.msg with
        run := db.run.map (fun row => { row with
          status := flushed t.run.status .running row.status
          runtime := flushed t.run.runtime runtime row.runtime }) } : Db).status =
        db.status.map (flushed t.run.status .running) := map_status _ _ _ (fun _ => rfl)
    exact ⟨fun hc => hne (hst ▸ hc), fun hc => absurd (hst ▸ hc) hne⟩
  | emit name data hs =>
    rcases hs with hs | ⟨e, hs, -⟩
    · unfold TurnMessage at hinv ⊢
      rw [hs] at hinv
      rw [hs]
      exact ⟨hinv, fun hc => absurd hc hinv⟩
    · unfold TurnMessage
      rw [hs]
      exact ⟨trivial, fun _ => .inr (by simp [Turn.unsettled])⟩
  | checkpoint content hs =>
    unfold TurnMessage at hinv ⊢
    rw [hs] at hinv
    rw [hs]
    exact ⟨hinv, fun hc => absurd hc hinv⟩
  | flip _ status ok hs hcase =>
    unfold TurnMessage at hinv ⊢
    rw [hs] at hinv
    have hne : status ≠ .completed := by rcases hcase with ⟨-, rfl⟩ | ⟨-, rfl⟩ <;> simp
    have hnot : (setRunStatus db t status ok).1.status ≠ some .completed := setRunStatus_ne_completed hinv hne
    rw [setRunStatus_stage, hs]
    exact ⟨hnot, fun hc => absurd hc hnot⟩
  | approvalCancelled ok hs =>
    unfold TurnMessage at hinv
    rw [hs] at hinv
    have hnot : (setRunStatus db t .cancelled ok).1.status ≠ some .completed :=
      setRunStatus_ne_completed hinv (by simp)
    exact ⟨hnot, fun hc => absurd hc hnot⟩
  | runOut hs =>
    refine ⟨?_, hkept (by simp [Turn.unsettled, hs])⟩
    rintro ⟨evt, hevt, -⟩
    rw [hout] at hevt
    cases hevt
  | finish e hs | select e row hs =>
    unfold TurnMessage at hinv
    rw [hs] at hinv
    exact ⟨hinv, fun hc => absurd hc hinv⟩
  | selectNothing | updateFails | update | append | appendFails => exact ⟨trivial, fun _ => .inr rfl⟩
  | settle e answer ok hs =>
    cases ok with
    | true =>
      have hf := settleTurn_ok_finished db t e answer
      have hend : (settleTurn db t e answer true).2.stage = .ended := by
        unfold settleTurn
        rw [if_neg (by decide)]
        split <;> rfl
      refine ⟨?_, fun _ => .inl hf⟩
      unfold TurnMessage
      rw [hend]
      exact fun _ => hf
    | false =>
      rw [settleTurn_fails]
      exact ⟨trivial, fun hc => absurd hc (hok rfl)⟩
  | gateFails e hs => exact ⟨trivial, fun hc => absurd hc (hok rfl)⟩
  | interrupt e usage ok hs =>
    refine ⟨trivial, fun hc => ?_⟩
    by_cases hcommit : usage = true ∧ ok = true
    · obtain ⟨rfl, rfl⟩ := hcommit
      exact .inl (persistPartial_finished _ _)
    · have hst : db.status = some .completed := by
        cases ok <;> exact hc
      have hdrops : TurnAct.drops (.interrupt usage ok) = true := by
        cases usage <;> cases ok <;> simp_all [TurnAct.drops]
      exact absurd hst (hok hdrops)

/-! ## the worker -/

def WorkerMessage (db : Db) (w : Worker) : Prop :=
  match w.phase with
  | .running | .persisting .goOn => TurnMessage db w.turn ∧ w.turn.OutOpen
  | .persisting (.finalize true) | .finalizing true | .finLease true _ | .finRun true _ _ => db.message.finished = true
  | _ => True

def WorkerCovers (db : Db) (w : Worker) : Prop :=
  db.status = some .completed → db.message.finished = true ∨ w.inGap = true

theorem workerMessage_out {db : Db} {w : Worker} (h : w.phase.pastClaim = false) : WorkerMessage db w := by
  unfold WorkerMessage
  split <;> first | trivial | (rename_i hp; rw [hp] at h; cases h)

theorem inGap_pastClaim {w : Worker} (h : w.inGap = true) : w.phase.pastClaim = true := by
  simp only [Worker.inGap, Bool.and_eq_true] at h
  have hex := h.1
  unfold Phase.executing at hex
  split at hex
  · rename_i hp; rw [hp]; rfl
  · rename_i hp; rw [hp]; rfl
  · cases hex

theorem workerMove_keepsMessage {cfg : Settings} {me : Owner} {s s' : Shared} {w w' : Worker} {a : WorkerAct}
    (h : WorkerMove cfg me s w a s' w') (ha : ∀ ta, a ≠ .turn ta) : s'.db.message = s.db.message := by
  cases h with
  | claim row lease now logged db hp hc =>
    obtain ⟨_, acq, -, hacq, rfl⟩ := claim_spec hc
    exact (acquire_frame hacq).2.2
  | turn ta => exact absurd rfl (ha ta)
  | persistGoOn ok | persistFinal _ ok | persistAbandon ok => cases ok <;> rfl
  | finalize terminal own run => exact finalizeSuccess_message _ _ _ _ _
  | renewWrite l now db hr hdb =>
    obtain ⟨row, -, -, rfl⟩ := renew_spec hdb
    rfl
  | _ => rfl

theorem workerMove_completes {cfg : Settings} {me : Owner} {s s' : Shared} {w w' : Worker} {a : WorkerAct}
    (h : WorkerMove cfg me s w a s' w') (ha : ∀ ta, a ≠ .turn ta) (hc : s'.db.status = some .completed) :
    s.db.status = some .completed ∨ ∃ own run, w.phase = .finRun true own run := by
  cases h with
  | claim row lease now logged db hp hclaim =>
    rw [claim_status hclaim] at hc
    obtain ⟨st, hst, hflush⟩ := Option.map_eq_some_iff.1 hc
    unfold flushed at hflush
    split at hflush
    · exact .inl (by rw [hst, hflush])
    · cases hflush
  | turn ta => exact absurd rfl (ha ta)
  | persistGoOn ok | persistFinal _ ok | persistAbandon ok => cases ok <;> exact .inl hc
  | finalize terminal own run hp =>
    rcases finalizeSuccess_status s.db own terminal run s.clock with hst | ⟨rfl, -, -⟩
    · exact .inl (hst ▸ hc)
    · exact .inr ⟨own, run, hp⟩
  | renewWrite l now db hr hdb =>
    obtain ⟨row, -, -, rfl⟩ := renew_spec hdb
    exact .inl hc
  | _ => exact .inl hc

theorem take_message {db : Db} {w : Worker} {evt : RunEvent} {rest : List RunEvent} (due : Bool)
    (hp : w.phase = .running) (hout : w.turn.out = evt :: rest) (hturn : TurnMessage db w.turn)
    (hopen : w.turn.OutOpen) : WorkerMessage db (w.take evt rest due) := by
  by_cases hl : w.leaseLost = true
  · refine workerMessage_out ?_
    rw [take_phase, if_pos hl]
    rfl
  · have hmem : evt ∈ w.turn.out := by rw [hout]; exact List.mem_cons_self
    by_cases hterm : evt.kind.terminal = true
    · -- only a turn that ended yields one
      have hend : w.turn.stage = .ended := by
        by_contra hne
        rw [(hopen hne evt hmem).1] at hterm
        cases hterm
      unfold TurnMessage at hturn
      rw [hend] at hturn
      unfold WorkerMessage
      rw [take_phase, if_neg hl, if_pos hterm]
      exact hturn ⟨evt, hmem, hterm⟩
    · have hturn' : TurnMessage db { w.turn with out := rest } := by
        unfold TurnMessage at hturn ⊢
        dsimp only
        split at hturn
        all_goals first
          | exact hturn
          | (rintro ⟨e, he, het⟩; exact hturn ⟨e, by rw [hout]; exact List.mem_cons_of_mem _ he, het⟩)
      have hopen' : Turn.OutOpen { w.turn with out := rest } := fun hne e he =>
        hopen hne e (by rw [hout]; exact List.mem_cons_of_mem _ he)
      unfold WorkerMessage
      rw [take_phase, if_neg hl, if_neg hterm]
      cases due with
      | true =>
        simp only [Worker.take, hl, hterm, if_true]
        exact ⟨hturn', hopen'⟩
      | false =>
        rw [if_neg (by decide), hp]
        simp only [Worker.take, hl, hterm]
        exact ⟨hturn', hopen'⟩

theorem take_inGap {w : Worker} {evt : RunEvent} {rest : List RunEvent} (due : Bool) (hp : w.phase = .running)
    (hout : w.turn.out = evt :: rest) (hopen : w.turn.OutOpen) (hl : w.leaseLost = false) (hg : w.inGap = true) :
    (w.take evt rest due).inGap = true := by
  have hu : w.turn.unsettled = true := by
    simp only [Worker.inGap, Bool.and_eq_true] at hg
    exact hg.2
  have hne : w.turn.stage ≠ .ended := by
    intro hend
    rw [Turn.unsettled, hend] at hu
    cases hu
  have hterm := (hopen hne evt (by rw [hout]; exact List.mem_cons_self)).1
  have hturn : (w.take evt rest due).turn.unsettled = true := by
    cases due <;> simpa [Worker.take, hl, hterm, Turn.unsettled] using hu
  have hphase : (w.take evt rest due).phase.executing = true := by
    rw [take_phase, hl, hterm, hp]
    cases due <;> rfl
  simp [Worker.inGap, hphase, hturn]

theorem workerMove_message {cfg : Settings} {me : Owner} {s s' : Shared} {w w' : Worker} {a : WorkerAct}
    (h : WorkerMove cfg me s w a s' w') (hrun : s.db.run.isSome = true) (hinv : WorkerMessage s.db w)
    (hcov : WorkerCovers s.db w) (hturn : ∀ ta, a = .turn ta → TurnMessageOk s.db ta) : WorkerMessage s'.db w' := by
  have hkept : (∀ ta, a ≠ .turn ta) → s'.db.message = s.db.message := workerMove_keepsMessage h
  unfold WorkerMessage at hinv
  cases h with
  | deliver | loadOver | load | skip | readLease | noClaim | abandon | abandonFails | finalizeFails | ack | killed
  | crash => exact workerMessage_out rfl
  | claim => exact ⟨trivial, fun _ _ he => (by cases he)⟩
  | turn ta db t hp ht =>
    obtain ⟨hout, hm⟩ := turnStep_move ht
    rw [hp] at hinv
    have hcov' : TurnCovers s.db w.turn := by
      intro hc
      rcases hcov hc with hf | hg
      · exact .inl hf
      · simp only [Worker.inGap, Bool.and_eq_true] at hg
        exact .inr hg.2
    rw [hp]
    exact ⟨(turnMove_message hm hrun hout hinv.1 hcov' (hturn ta rfl)).1, turnMove_outOpen hm hout⟩
  | next evt rest due hp hout =>
    rw [hp] at hinv
    exact take_message due hp hout hinv.1 hinv.2
  | persistGoOn ok hp =>
    rw [hp] at hinv
    refine ⟨?_, hinv.2⟩
    have hst := persist_status s w.batch ok
    have hmsg := hkept (by rintro ta ha; cases ha)
    have hturn := hinv.1
    unfold TurnMessage at hturn ⊢
    rwa [hst, hmsg]
  | persistFinal terminal ok hp =>
    rw [hp] at hinv
    cases terminal with
    | false => trivial
    | true =>
      have hmsg := hkept (by rintro ta ha; cases ha)
      unfold WorkerMessage
      dsimp only [Worker.leave]
      rw [hmsg]
      exact hinv
  | finLease terminal hp => rw [hp] at hinv; cases terminal <;> exact hinv
  | finRun terminal own hp => rw [hp] at hinv; cases terminal <;> exact hinv
  | exhausted | raised | persistAbandon | abandonRead | finalize => trivial
  | renewRead | renewLost | renewEnds => exact hinv
  | renewWrite l now db hr hdb =>
    obtain ⟨row, -, -, rfl⟩ := renew_spec hdb
    exact hinv

/-- **Every step of a worker leaves a completed run with a finished message, or its executor in the gap.** -/
theorem workerMove_covers {cfg : Settings} {s : World} {me : Owner} {wa : WorkerAct} {sh : Shared} {w : Worker}
    (h : WorkerMove cfg me s.shared (s.workers me) wa sh w) (hrun : s.shared.db.run.isSome = true)
    (hinv : WorkerMessage s.shared.db (s.workers me)) (hcov : WorkerCovers s.shared.db (s.workers me))
    (hok : MessageOk s (.worker me wa)) : WorkerCovers sh.db w := by
  by_cases hturn : ∃ ta, wa = .turn ta
  · obtain ⟨ta, rfl⟩ := hturn
    cases h with
    | turn _ db t hp ht =>
      obtain ⟨hout, hm⟩ := turnStep_move ht
      unfold WorkerMessage at hinv
      rw [hp] at hinv
      have hcov' : TurnCovers s.shared.db (s.workers me).turn := by
        intro hc
        rcases hcov hc with hf | hg
        · exact .inl hf
        · simp only [Worker.inGap, Bool.and_eq_true] at hg
          exact .inr hg.2
      intro hc
      rcases (turnMove_message hm hrun hout hinv.1 hcov' hok).2 hc with hf | hu
      · exact .inl hf
      · exact .inr (by simp [Worker.inGap, hp, hu, Phase.executing])
    | noClaim row lease now _ hp =>
      intro hc
      rcases hcov hc with hf | hg
      · exact .inl hf
      · simp [Worker.inGap, hp, Phase.executing] at hg
    | renewEnds _ hor => rcases hor with h | h <;> cases h
  · have hnot : ∀ ta, wa ≠ .turn ta := fun ta ha => hturn ⟨ta, ha⟩
    have hmsg := workerMove_keepsMessage h hnot
    intro hc
    rw [hmsg]
    rcases workerMove_completes h hnot hc with hbefore | ⟨own, run, hp⟩
    · rcases hcov hbefore with hf | hg
      · exact .inl hf
      · -- the executor was in the gap, and nothing took it out
        have hg' := hg
        simp only [Worker.inGap, Bool.and_eq_true] at hg'
        obtain ⟨hex, hu⟩ := hg'
        refine .inr ?_
        cases h with
        | turn ta => exact absurd rfl (hnot ta)
        | next evt rest due hp hout =>
          unfold WorkerMessage at hinv
          rw [hp] at hinv
          cases hl : (s.workers me).leaseLost with
          | true => exact absurd hbefore (hok hg hl)
          | false => exact take_inGap due hp hout hinv.2 hl hg
        | crash => exact absurd hbefore (hok hg)
        | exhausted hp hout hst => rw [Turn.unsettled, hst] at hu; cases hu
        | raised hp hst | killed hp hst => rw [Turn.unsettled, hst] at hu; cases hu
        | persistGoOn ok hp => exact hu
        | renewRead | renewLost | renewWrite | renewEnds => exact hg
        | deliver _ hp | loadOver hp | load _ hp | skip _ hp | readLease _ hp | claim _ _ _ _ _ hp | noClaim _ _ _ _ hp
        | persistFinal _ _ hp | persistAbandon _ hp | abandonRead hp | abandon _ hp | abandonFails _ hp | finLease _ hp
        | finRun _ _ hp | finalize _ _ _ hp | finalizeFails _ _ _ hp | ack _ hp => rw [hp] at hex; cases hex
    · unfold WorkerMessage at hinv
      rw [hp] at hinv
      exact .inl hinv

/-! ## every run -/

def Covered (s : World) : Prop :=
  s.status = some .completed → s.shared.db.message.finished = true ∨ ∃ w, (s.workers w).inGap = true

structure MessageKept (s : World) : Prop where
  durable : DurableRun s
  alone : Alone s
  worker : ∀ w, WorkerMessage s.shared.db (s.workers w)
  covered : Covered s

theorem messageKept_durable : MessageKept World.durable :=
  ⟨durableRun_initial, fun _ _ h _ => (by cases h), fun _ => trivial, fun h => (by cases h)⟩

theorem WorkerMessage.congr {db db' : Db} {w : Worker} (h : WorkerMessage db w)
    (hst : db'.status = some .completed → db.status = some .completed) (hmsg : db'.message = db.message) :
    WorkerMessage db' w := by
  have hturn : TurnMessage db w.turn → TurnMessage db' w.turn := by
    intro ht
    unfold TurnMessage at ht ⊢
    split at ht
    · exact fun hc => ht (hst hc)
    · exact fun hc => ht (hst hc)
    · exact fun hc => ht (hst hc)
    · exact fun hc => ht (hst hc)
    · rw [hmsg]; exact ht
    · trivial
  unfold WorkerMessage at h ⊢
  split at h
  · exact ⟨hturn h.1, h.2⟩
  · exact ⟨hturn h.1, h.2⟩
  · rw [hmsg]; exact h
  · rw [hmsg]; exact h
  · rw [hmsg]; exact h
  · rw [hmsg]; exact h
  · trivial

theorem messageKept_worker {cfg : Settings} {s : World} {me : Owner} {wa : WorkerAct} {sh : Shared} {w : Worker}
    (hinv : MessageKept s) (hok : MessageOk s (.worker me wa))
    (hm : WorkerMove cfg me s.shared (s.workers me) wa sh w) :
    (∀ v, WorkerMessage sh.db (Function.update s.workers me w v)) ∧
      (sh.db.status = some .completed →
        sh.db.message.finished = true ∨ ∃ v, (Function.update s.workers me w v).inGap = true) := by
  by_cases hinvolved : (s.workers me).phase.pastClaim = true ∨ ∃ logged, wa = .claim logged
  · -- every other worker is out of the run
    have hothers : ∀ v, v ≠ me → (s.workers v).phase.pastClaim = false := by
      intro v hv
      rcases hinvolved with hpast | ⟨logged, rfl⟩
      · by_contra hne
        exact hv (hinv.alone v me (by simpa using hne) hpast)
      · exact hok v hv
    have hcov : WorkerCovers s.shared.db (s.workers me) := by
      intro hc
      rcases hinv.covered hc with hf | ⟨v, hg⟩
      · exact .inl hf
      · by_cases hv : v = me
        · subst hv; exact .inr hg
        · have hpast := inGap_pastClaim hg
          rw [hothers v hv] at hpast
          cases hpast
    refine ⟨fun v => ?_, fun hc => ?_⟩
    · by_cases hv : v = me
      · subst hv
        rw [Function.update_self]
        exact workerMove_message hm hinv.durable.exists_run (hinv.worker v) hcov (fun ta ha => by subst ha; exact hok)
      · rw [Function.update_of_ne hv]
        exact workerMessage_out (hothers v hv)
    · rcases workerMove_covers hm hinv.durable.exists_run (hinv.worker me) hcov hok hc with hf | hg
      · exact .inl hf
      · exact .inr ⟨me, by rw [Function.update_self]; exact hg⟩
  · obtain ⟨hout, hnoClaim⟩ := not_or.1 hinvolved
    have hfalse : (s.workers me).phase.pastClaim = false := by simpa using hout
    have hclaims : ∀ logged, wa ≠ .claim logged := fun logged ha => hnoClaim ⟨logged, ha⟩
    obtain ⟨hst, -⟩ := workerMove_outside hm hfalse hclaims
    have hmsg : sh.db.message = s.shared.db.message := by
      cases hm with
      | turn _ _ _ hp | finalize _ _ _ hp | persistGoOn _ hp | persistFinal _ _ hp | persistAbandon _ hp => rw [hp] at hfalse; cases hfalse
      | claim _ _ _ logged => exact absurd rfl (hclaims logged)
      | renewWrite l now db hr hdb => obtain ⟨row, -, -, rfl⟩ := renew_spec hdb; rfl
      | _ => rfl
    have hstays : w.phase.pastClaim = false := by
      by_contra hne
      rcases workerMove_pastClaim hm (by simpa using hne) with ⟨logged, ha⟩ | hbefore
      · exact hclaims logged ha
      · rw [hfalse] at hbefore; cases hbefore
    refine ⟨fun v => ?_, fun hc => ?_⟩
    · by_cases hv : v = me
      · subst hv
        rw [Function.update_self]
        exact workerMessage_out hstays
      · rw [Function.update_of_ne hv]
        exact (hinv.worker v).congr (fun hc => hst ▸ hc) hmsg
    · rw [hst] at hc
      rcases hinv.covered hc with hf | ⟨v, hg⟩
      · exact .inl (by rw [hmsg]; exact hf)
      · refine .inr ⟨v, ?_⟩
        have hne : v ≠ me := by
          rintro rfl
          rw [inGap_pastClaim hg] at hfalse
          cases hfalse
        rw [Function.update_of_ne hne]
        exact hg

theorem scanMove_completes {cfg : Settings} {s s' : Shared} {r r' : Scanner} {a : ScanAct}
    (h : ScanMove cfg s r a s' r') :
    (s'.db.status = some .completed → s.db.status = some .completed) ∧ s'.db.message = s.db.message := by
  cases h with
  | commit leaseId row n =>
    dsimp only [Db.reconcile]
    split
    · refine ⟨fun hc => ?_, rfl⟩
      rw [Db.status, Option.map_map] at hc
      obtain ⟨stored, hrow, hflush⟩ := Option.map_eq_some_iff.1 hc
      dsimp only [Function.comp, flushed] at hflush
      split at hflush
      · exact Option.map_eq_some_iff.2 ⟨stored, hrow, hflush⟩
      · cases hflush
    · refine ⟨fun hc => ?_, rfl⟩
      rw [Db.status, Option.map_map] at hc
      obtain ⟨stored, -, hfail⟩ := Option.map_eq_some_iff.1 hc
      cases hfail
  | requeue ok => cases ok <;> exact ⟨fun hc => hc, rfl⟩
  | _ => exact ⟨fun hc => hc, rfl⟩

theorem cancelMove_completes {s s' : Shared} {c c' : CancelReq} {a : CancelAct} (h : CancelMove s c a s' c') :
    (s'.db.status = some .completed → s.db.status = some .completed) ∧ s'.db.message = s.db.message := by
  cases h with
  | commit row hc =>
    refine ⟨fun hst => ?_, rfl⟩
    rw [Db.status, Db.cancelRun, Option.map_map] at hst
    obtain ⟨stored, -, hcancelled⟩ := Option.map_eq_some_iff.1 hst
    cases hcancelled
  | _ => exact ⟨fun hc => hc, rfl⟩

theorem messageKept_step {cfg : Settings} {s s' : World} {a : Act} (hinv : MessageKept s) (hok : MessageOk s a)
    (h : step cfg s a = some s') : MessageKept s' := by
  have hmove := step_move h
  have hdurable := durableRun_step hinv.durable hmove
  -- a step that completes no run and leaves the message and the workers alone
  have hrest : (s'.status = some .completed → s.status = some .completed) →
      s'.shared.db.message = s.shared.db.message → s'.workers = s.workers → MessageKept s' := by
    intro hst hmsg hws
    refine ⟨hdurable, fun v w hv hw => hinv.alone v w (by rwa [hws] at hv) (by rwa [hws] at hw), fun w => ?_, fun hc => ?_⟩
    · rw [hws]
      exact (hinv.worker w).congr hst hmsg
    · rw [hmsg, hws]
      exact hinv.covered (hst hc)
  cases hmove with
  | tick | enqueue | reclaim => exact hrest (fun hc => hc) rfl rfl
  | worker me wa sh w hm =>
    obtain ⟨hworkers, hcovered⟩ := messageKept_worker hinv hok hm
    exact ⟨hdurable, alone_worker hinv.alone hm (fun logged ha => by subst ha; exact hok), hworkers, hcovered⟩
  | scan sa sh r hm => exact hrest (scanMove_completes hm).1 (scanMove_completes hm).2 rfl
  | cancel k ca sh c hm => exact hrest (cancelMove_completes hm).1 (cancelMove_completes hm).2 rfl
  | inline ia sh t hm => exact absurd hm (fun hm => hinv.durable.not_inline hm)

/-- **A completed run has a finished message** outside of the gap, in every run in which nothing ends a turn in the gap of
a completed run, no turn ends with an error before the orchestrator, and one worker has the run at a time. -/
theorem completed_message_finished (cfg : Settings) {s : World} (h : Runs (step cfg) MessageOk World.durable s)
    (hgap : ∀ w, (s.workers w).inGap = false) (hc : s.status = some .completed) :
    s.shared.db.message.finished = true := by
  have hinv : MessageKept s :=
    h.invariant messageKept_durable (fun _ _ _ hinv hok hs => messageKept_step hinv hok hs)
  rcases hinv.covered hc with hf | ⟨w, hg⟩
  · exact hf
  · rw [hgap w] at hg
    cases hg

/-- Worker 0 runs the turn up to the commit of `completed`. -/
def completedTurn : List Act :=
  [.enqueue, .worker 0 .deliver, .worker 0 .loadRun, .worker 0 .readLease, .worker 0 (.claim true),
    .worker 0 (.turn .load), .worker 0 (.turn (.startRun "native" true)),
    .worker 0 (.turn (.finish { evt := doneEvent "stop" })), .worker 0 (.turn (.select true)),
    .worker 0 (.turn (.update true))]

theorem completed_message_finished_settled :
    (play (step {}) World.durable
      (completedTurn ++ [.worker 0 (.turn (.append true)), .worker 0 (.turn (.settle "answer" true))])).shared.db.message.finished
      = true := by
  have hclaimed : Runs (step {}) MessageOk World.durable (play (step {}) World.durable (completedTurn.take 5)) :=
    .next (.worker 0 (.claim true)) (.next (.worker 0 .readLease) (.next (.worker 0 .loadRun)
      (.next (.worker 0 .deliver) (.next .enqueue .refl trivial rfl) trivial rfl) trivial rfl) trivial rfl)
      (fun v hv => by cases v with | zero => exact absurd rfl hv | succ v => rfl) rfl
  have hcompleted : Runs (step {}) MessageOk World.durable (play (step {}) World.durable completedTurn) :=
    .next (.worker 0 (.turn (.update true))) (.next (.worker 0 (.turn (.select true)))
      (.next (.worker 0 (.turn (.finish { evt := doneEvent "stop" })))
      (.next (.worker 0 (.turn (.startRun "native" true))) (.next (.worker 0 (.turn .load)) hclaimed nofun rfl)
      nofun rfl) nofun rfl) nofun rfl) nofun rfl
  have hsettled : Runs (step {}) MessageOk World.durable (play (step {}) World.durable
      (completedTurn ++ [.worker 0 (.turn (.append true)), .worker 0 (.turn (.settle "answer" true))])) :=
    .next (.worker 0 (.turn (.settle "answer" true))) (.next (.worker 0 (.turn (.append true))) hcompleted nofun rfl)
      nofun rfl
  exact completed_message_finished {} hsettled (fun w => by cases w <;> rfl) rfl

/-- Worker 0 dies right after the commit of `completed`, and 130 seconds later the recovery scan finds nothing to do. -/
def crashedInGap : List Act :=
  completedTurn ++ [.worker 0 .crash, .tick 130, .scan .findLease, .scan .findRun, .scan .findActive, .scan .findNoLease]

/-- The reply stays pending, and no one is left to finish it. -/
theorem completed_run_left_pending :
    ¬ ∀ (cfg : Settings) (s : World), Reaches (step cfg) World.durable s → (∀ w, (s.workers w).inGap = false) →
      s.status = some .completed → s.shared.db.message.finished = true := by
  intro h
  have hfinished := h {} (play (step {}) World.durable crashedInGap) (reaches_play (by decide))
    (fun w => by cases w <;> rfl) (by decide)
  exact absurd hfinished (by decide)

end Run
end MyGpt
