import MyGpt.RunSystem
/-!
# RunMoves — what a step of each process can do

`turnStep`, `workerStep` and `scanStep` inverted once: every way a step can go, with what it read and what it left.
The invariants of the run are proved by cases on these.
-/
namespace MyGpt
namespace Run

/-! ## the executor -/

/-- **What a step of the executor can do.** -/
inductive TurnMove (now : Nat) (db : Db) (t : Turn) : TurnAct → Db → Turn → Prop
  | notFound : t.stage = .start → db.run = none →
      TurnMove now db t .load db { t with stage := .ended, out := [errorEvent "run_not_found"] }
  | load (row : RunRow) : t.stage = .start → db.run = some row →
      TurnMove now db t .load db { t with stage := .loaded, run := row, msg := db.message }
  | earlyError (e : EarlyError) : t.stage = .loaded →
      TurnMove now db t (.earlyError e) db { t with stage := .ended, out := [errorEvent e.code] }
  | setupFails : t.stage = .loaded → TurnMove now db t .setupFails db { t with stage := .raised }
  | refuse (refusal : String) : t.stage = .loaded →
      TurnMove now db t (.refuse refusal true) (db.settleMessage refusal "stop")
        { t with stage := .ended
                 out := [⟨.other "validation", []⟩, ⟨.other "token", [("delta", .str refusal)]⟩, doneEvent "stop"] }
  | refuseFails (refusal : String) : t.stage = .loaded →
      TurnMove now db t (.refuse refusal false) db { t with stage := .raised }
  | startRun (runtime : String) : t.stage = .loaded →
      TurnMove now db t (.startRun runtime true)
        { db.flushMessage t.msg.content t.msg with
          run := db.run.map (fun row => { row with
            status := flushed t.run.status .running row.status
            runtime := flushed t.run.runtime runtime row.runtime }) }
        { t with stage := .streaming, run := { t.run with status := .running, runtime := runtime } }
  | startFails (runtime : String) : t.stage = .loaded →
      TurnMove now db t (.startRun runtime false) db { t with stage := .raised }
  | emit (name : String) (data : Payload) :
      (t.stage = .streaming ∨ ∃ e, t.stage = .settling e ∧ e.unwinding = false) →
      TurnMove now db t (.emit name data) db { t with out := [⟨.other name, data⟩] }
  | checkpoint (content : String) : t.stage = .streaming →
      TurnMove now db t (.checkpoint content) (db.flushMessage t.msg.content { t.msg with content := content })
        { t with msg := { t.msg with content := content } }
  | flip (a : TurnAct) (status : RunStatus) (ok : Bool) : t.stage = .streaming →
      (a = .awaitApproval ok ∧ status = .waitingApproval ∨ a = .resumeRunning ok ∧ status = .running) →
      TurnMove now db t a (setRunStatus db t status ok).1 (setRunStatus db t status ok).2
  | approvalCancelled (ok : Bool) : t.stage = .streaming →
      TurnMove now db t (.approvalCancelled ok) (setRunStatus db t .cancelled ok).1
        { (setRunStatus db t .cancelled ok).2 with stage := .persisting cancelledEnding }
  | finish (e : Ending) : t.stage = .streaming → e.wellFormed = true →
      TurnMove now db t (.finish e) db { t with stage := .persisting e }
  | runOut : t.stage = .streaming → TurnMove now db t .runOut db { t with stage := .ended }
  | select (e : Ending) (row : RunRow) : t.stage = .persisting e → db.run = some row →
      TurnMove now db t (.select true) db { t with stage := .selected e row.output row.status }
  | selectNothing (e : Ending) (ok : Bool) : t.stage = .persisting e → ok = false ∨ db.run = none →
      TurnMove now db t (.select ok) db { t with stage := .appending e }
  | update (e : Ending) (output : Payload) (status : RunStatus) : t.stage = .selected e output status →
      TurnMove now db t (.update true) (db.persistTerminalRun e.evt output status now) { t with stage := .appending e }
  | updateFails (e : Ending) (output : Payload) (status : RunStatus) : t.stage = .selected e output status →
      TurnMove now db t (.update false) db { t with stage := .appending e }
  | append (e : Ending) : t.stage = .appending e →
      TurnMove now db t (.append true) (db.append [terminalEvent e.evt t.run.status]) { t with stage := .settling e }
  | appendFails (e : Ending) : t.stage = .appending e →
      TurnMove now db t (.append false) db { t with stage := .settling e }
  | settle (e : Ending) (answer : String) (ok : Bool) : t.stage = .settling e → e.unwinding = false →
      TurnMove now db t (.settle answer ok) (settleTurn db t e answer ok).1 (settleTurn db t e answer ok).2
  | gateFails (e : Ending) : t.stage = .settling e → e.unwinding = false →
      TurnMove now db t .gateFails db { t with stage := .raised }
  | interrupt (e : Ending) (usage ok : Bool) : t.stage = .settling e →
      TurnMove now db t (.interrupt usage ok) (if ok then db.persistPartial t.msg.content usage else db)
        { t with stage := .killed }

theorem of_some_pair {α β : Type} {p : α × β} {a : α} {b : β} (h : some p = some (a, b)) : p.1 = a ∧ p.2 = b := by
  cases h
  exact ⟨rfl, rfl⟩

theorem turnStep_move {now : Nat} {db db' : Db} {t t' : Turn} {a : TurnAct}
    (h : turnStep now db t a = some (db', t')) : t.out = [] ∧ TurnMove now db t a db' t' := by
  unfold turnStep at h
  split at h
  · cases h
  · rename_i hout
    refine ⟨by simpa using hout, ?_⟩
    split at h
    · rename_i hs
      split at h
      · rename_i hn; cases h; exact .notFound hs hn
      · rename_i row hr; cases h; exact .load row hs hr
    · rename_i e hs; cases h; exact .earlyError e hs
    · rename_i hs; cases h; exact .setupFails hs
    · rename_i refusal ok hs
      cases ok with
      | true => cases h; exact .refuse refusal hs
      | false => cases h; exact .refuseFails refusal hs
    · rename_i runtime ok hs
      cases ok with
      | true => cases h; exact .startRun runtime hs
      | false => cases h; exact .startFails runtime hs
    · rename_i name data hs; cases h; exact .emit name data (.inl hs)
    · rename_i e name data hs
      split at h
      · cases h
      · rename_i hu; cases h; exact .emit name data (.inr ⟨e, hs, by simpa using hu⟩)
    · rename_i content hs; cases h; exact .checkpoint content hs
    · rename_i ok hs
      obtain ⟨rfl, rfl⟩ := of_some_pair h
      exact .flip _ .waitingApproval ok hs (.inl ⟨rfl, rfl⟩)
    · rename_i ok hs
      obtain ⟨rfl, rfl⟩ := of_some_pair h
      exact .flip _ .running ok hs (.inr ⟨rfl, rfl⟩)
    · rename_i ok hs; cases h; exact .approvalCancelled ok hs
    · rename_i e hs
      split at h
      · rename_i hw; cases h; exact .finish e hs hw
      · cases h
    · rename_i hs; cases h; exact .runOut hs
    · rename_i e ok hs
      cases ok with
      | false => cases h; exact .selectNothing e false hs (.inl rfl)
      | true =>
        cases hr : db.run with
        | none => rw [hr] at h; cases h; exact .selectNothing e true hs (.inr hr)
        | some row => rw [hr] at h; cases h; exact .select e row hs hr
    · rename_i e output status ok hs
      cases ok with
      | true => cases h; exact .update e output status hs
      | false => cases h; exact .updateFails e output status hs
    · rename_i e ok hs
      cases ok with
      | true => cases h; exact .append e hs
      | false => cases h; exact .appendFails e hs
    · rename_i e answer ok hs
      split at h
      · cases h
      · rename_i hu
        obtain ⟨rfl, rfl⟩ := of_some_pair h
        exact .settle e answer ok hs (by simpa using hu)
    · rename_i e hs
      split at h
      · cases h
      · rename_i hu; cases h; exact .gateFails e hs (by simpa using hu)
    · rename_i e usage ok hs; cases h; exact .interrupt e usage ok hs
    · cases h

/-! ## the worker -/

def Worker.claimed : Worker := { phase := .running, renewal := .sleeping }

/-- **What a step of a worker can do.** -/
inductive WorkerMove (cfg : Settings) (me : Owner) (s : Shared) (w : Worker) : WorkerAct → Shared → Worker → Prop
  | deliver (q : Stream) : w.phase = .idle → s.queue.dequeue me s.clock = some q →
      WorkerMove cfg me s w .deliver { s with queue := q } { w with phase := .delivered }
  | loadOver : w.phase = .delivered → WorkerMove cfg me s w .loadRun s { w with phase := .skipping }
  | load (row : RunRow) : w.phase = .delivered → s.db.run = some row → row.status.terminal = false →
      WorkerMove cfg me s w .loadRun s { w with phase := .loaded row }
  | skip (reached : Delivery → Bool) : w.phase = .skipping →
      WorkerMove cfg me s w (.skip reached) { s with queue := s.queue.ack reached } { w with phase := .idle }
  | readLease (row : RunRow) : w.phase = .loaded row →
      WorkerMove cfg me s w .readLease s { w with phase := .leaseRead row s.db.lease s.clock }
  | claim (row : RunRow) (lease : Option RunLease) (now : Nat) (logged : Bool) (db : Db) :
      w.phase = .leaseRead row lease now → s.db.claim row lease me now cfg.leaseTtl logged = some db →
      WorkerMove cfg me s w (.claim logged) { s with db := db } .claimed
  | noClaim (row : RunRow) (lease : Option RunLease) (now : Nat) (a : WorkerAct) : w.phase = .leaseRead row lease now →
      WorkerMove cfg me s w a s { w with phase := .idle }
  | turn (ta : TurnAct) (db : Db) (t : Turn) : w.phase = .running → turnStep s.clock s.db w.turn ta = some (db, t) →
      WorkerMove cfg me s w (.turn ta) { s with db := db } { w with turn := t }
  | next (evt : RunEvent) (rest : List RunEvent) (due : Bool) : w.phase = .running → w.turn.out = evt :: rest →
      WorkerMove cfg me s w (.next due) s (w.take evt rest due)
  | exhausted : w.phase = .running → w.turn.out = [] → w.turn.stage = .ended →
      WorkerMove cfg me s w .exhausted s (w.leave (.persisting (.finalize false)))
  | raised : w.phase = .running → w.turn.stage = .raised →
      WorkerMove cfg me s w .raised s { w with phase := .persisting .abandon }
  | killed : w.phase = .running → w.turn.stage = .killed → WorkerMove cfg me s w .raised s (w.leave .dead)
  | persistGoOn (ok : Bool) : w.phase = .persisting .goOn →
      WorkerMove cfg me s w (.persist ok) (s.persist w.batch ok) { w with batch := [], phase := .running }
  | persistFinal (terminal ok : Bool) : w.phase = .persisting (.finalize terminal) →
      WorkerMove cfg me s w (.persist ok) (s.persist w.batch ok) { w.leave (.finalizing terminal) with batch := [] }
  | persistAbandon (ok : Bool) : w.phase = .persisting .abandon →
      WorkerMove cfg me s w (.persist ok) (s.persist w.batch ok) { w with batch := [], phase := .abandoning }
  | abandonRead : w.phase = .abandoning →
      WorkerMove cfg me s w .readOwnLease s { w with phase := .abandonRead (ownLease s.db.lease me) }
  | abandon (own : Option RunLease) : w.phase = .abandonRead own →
      WorkerMove cfg me s w (.commitFinal true) { s with db := s.db.deleteLease (own.map (·.id)) } (w.leave .idle)
  | abandonFails (own : Option RunLease) : w.phase = .abandonRead own →
      WorkerMove cfg me s w (.commitFinal false) s (w.leave .idle)
  | finLease (terminal : Bool) : w.phase = .finalizing terminal →
      WorkerMove cfg me s w .readOwnLease s { w with phase := .finLease terminal (ownLease s.db.lease me) }
  | finRun (terminal : Bool) (own : Option RunLease) : w.phase = .finLease terminal own →
      WorkerMove cfg me s w .loadForFinal s { w with phase := .finRun terminal own s.db.run }
  | finalize (terminal : Bool) (own : Option RunLease) (run : Option RunRow) : w.phase = .finRun terminal own run →
      WorkerMove cfg me s w (.commitFinal true) { s with db := s.db.finalizeSuccess own terminal run s.clock }
        { w with phase := .acking }
  | finalizeFails (terminal : Bool) (own : Option RunLease) (run : Option RunRow) :
      w.phase = .finRun terminal own run → WorkerMove cfg me s w (.commitFinal false) s { w with phase := .idle }
  | ack (reached : Delivery → Bool) : w.phase = .acking →
      WorkerMove cfg me s w (.ack reached) { s with queue := s.queue.ack reached } { w with phase := .idle }
  | renewRead (l : RunLease) : w.renewal = .sleeping → ownLease s.db.lease me = some l →
      WorkerMove cfg me s w .renewRead s { w with renewal := .read l s.clock }
  | renewLost : w.renewal = .sleeping → ownLease s.db.lease me = none →
      WorkerMove cfg me s w .renewRead s { w with renewal := .stopped, leaseLost := true }
  | renewWrite (l : RunLease) (now : Nat) (db : Db) : w.renewal = .read l now →
      s.db.renew l now cfg.leaseTtl = some db →
      WorkerMove cfg me s w .renewWrite { s with db := db } { w with renewal := .sleeping }
  | renewEnds (a : WorkerAct) : a = .renewWrite ∨ a = .renewFails → w.renewal ≠ .stopped →
      WorkerMove cfg me s w a s { w with renewal := .stopped }
  | crash : w.phase ≠ .dead → WorkerMove cfg me s w .crash s (w.leave .dead)

theorem workerStep_move {cfg : Settings} {me : Owner} {s s' : Shared} {w w' : Worker} {a : WorkerAct}
    (h : workerStep cfg me s w a = some (s', w')) : WorkerMove cfg me s w a s' w' := by
  unfold workerStep at h
  split at h
  · rename_i hp
    obtain ⟨q, hq, he⟩ := Option.map_eq_some_iff.1 h
    cases he
    exact .deliver q hp hq
  · rename_i hp
    split at h
    · cases h; exact .loadOver hp
    · rename_i row hr
      split at h
      · cases h; exact .loadOver hp
      · rename_i ht; cases h; exact .load row hp hr (by simpa using ht)
  · rename_i reached hp; cases h; exact .skip reached hp
  · rename_i row hp; cases h; exact .readLease row hp
  · rename_i row lease now logged hp
    split at h
    · cases h; exact .noClaim row lease now _ hp
    · rename_i db hdb; cases h; exact .claim row lease now logged db hp hdb
  · rename_i row lease now hp; cases h; exact .noClaim row lease now _ hp
  · rename_i ta hp
    obtain ⟨⟨db, t⟩, ht, he⟩ := Option.map_eq_some_iff.1 h
    cases he
    exact .turn ta db t hp ht
  · rename_i due hp
    split at h
    · cases h
    · rename_i evt rest ho; cases h; exact .next evt rest due hp ho
  · rename_i hp
    split at h
    · rename_i he; cases h; exact .exhausted hp he.1 he.2
    · cases h
  · rename_i hp
    split at h
    · rename_i hst; cases h; exact .raised hp hst
    · rename_i hst; cases h; exact .killed hp hst
    · cases h
  · rename_i after ok hp
    cases after with
    | goOn => cases h; exact .persistGoOn ok hp
    | finalize terminal => cases h; exact .persistFinal terminal ok hp
    | abandon => cases h; exact .persistAbandon ok hp
  · rename_i hp; cases h; exact .abandonRead hp
  · rename_i own ok hp
    cases ok with
    | true => cases h; exact .abandon own hp
    | false => cases h; exact .abandonFails own hp
  · rename_i terminal hp; cases h; exact .finLease terminal hp
  · rename_i terminal own hp; cases h; exact .finRun terminal own hp
  · rename_i terminal own run ok hp
    cases ok with
    | true => cases h; exact .finalize terminal own run hp
    | false => cases h; exact .finalizeFails terminal own run hp
  · rename_i reached hp; cases h; exact .ack reached hp
  · split at h
    · rename_i hr
      split at h
      · rename_i l hl; cases h; exact .renewRead l hr hl
      · rename_i hl; cases h; exact .renewLost hr hl
    · cases h
  · split at h
    · rename_i l now hr
      split at h
      · rename_i db hdb; cases h; exact .renewWrite l now db hr hdb
      · cases h; exact .renewEnds _ (.inl rfl) (by rw [hr]; simp)
    · cases h
  · split at h
    · cases h
    · rename_i hr; cases h; exact .renewEnds _ (.inr rfl) hr
  · cases h
  · rename_i hd; cases h; exact .crash hd
  · cases h

/-! ## the recovery scan, a cancel request, the API process -/

/-- **What a step of the recovery scan can do.** -/
inductive ScanMove (cfg : Settings) (s : Shared) (r : Scanner) : ScanAct → Shared → Scanner → Prop
  | findLease : r = .idle → ScanMove cfg s r .findLease s (.readLease (expiredLease s.db.lease s.clock))
  | findRun (expired : Option Nat) : r = .readLease expired →
      ScanMove cfg s r .findRun s
        (.readRun (expired.filter (fun _ => s.db.run.any (fun row => !row.status.terminal))))
  | findActive (c : Option Nat) : r = .readRun c →
      ScanMove cfg s r .findActive s (.readActive c (s.db.run.any (·.status.active)))
  | expired (id : Nat) (active : Bool) : r = .readActive (some id) active →
      ScanMove cfg s r .findNoLease s (.candidate (some id))
  | noLease : r = .readActive none true → s.db.lease = none → ScanMove cfg s r .findNoLease s (.candidate none)
  | nothing (active : Bool) : r = .readActive none active → ScanMove cfg s r .findNoLease s .idle
  | loadOver (leaseId : Option Nat) : r = .candidate leaseId → ScanMove cfg s r .load s .idle
  | load (leaseId : Option Nat) (row : RunRow) : r = .candidate leaseId → s.db.run = some row →
      row.status.terminal = false → ScanMove cfg s r .load s (.loaded leaseId row)
  | count (leaseId : Option Nat) (row : RunRow) : r = .loaded leaseId row →
      ScanMove cfg s r .count s (.counted leaseId row s.db.countRetries)
  | commit (leaseId : Option Nat) (row : RunRow) (n : Nat) : r = .counted leaseId row n →
      ScanMove cfg s r .commit { s with db := s.db.reconcile row n cfg.maxRetries leaseId s.clock }
        (if n < cfg.maxRetries then .requeueing else .idle)
  | requeue (ok : Bool) : r = .requeueing →
      ScanMove cfg s r (.requeue ok) (if ok then { s with queue := s.queue.xadd } else s) .idle
  | fails : r ≠ .idle → ScanMove cfg s r .fails s .idle

theorem scanStep_move {cfg : Settings} {s s' : Shared} {r r' : Scanner} {a : ScanAct}
    (h : scanStep cfg s r a = some (s', r')) : ScanMove cfg s r a s' r' := by
  unfold scanStep at h
  split at h
  · cases h; exact .findLease rfl
  · rename_i expired; cases h; exact .findRun expired rfl
  · rename_i c; cases h; exact .findActive c rfl
  · rename_i c active
    cases c with
    | some id => cases h; exact .expired id active rfl
    | none =>
      cases active with
      | false => cases h; exact .nothing false rfl
      | true =>
        cases hl : s.db.lease with
        | none => rw [hl] at h; cases h; exact .noLease rfl hl
        | some l => rw [hl] at h; cases h; exact .nothing true rfl
  · rename_i leaseId
    split at h
    · cases h; exact .loadOver leaseId rfl
    · rename_i row hr
      cases ht : row.status.terminal with
      | true => rw [ht] at h; cases h; exact .loadOver leaseId rfl
      | false => rw [ht] at h; cases h; exact .load leaseId row rfl hr ht
  · rename_i leaseId row; cases h; exact .count leaseId row rfl
  · rename_i leaseId row n; cases h; exact .commit leaseId row n rfl
  · rename_i ok; cases h; exact .requeue ok rfl
  · cases h
  · rename_i hr; cases h; exact .fails hr
  · cases h

/-- **What a step of a cancel request can do.** -/
inductive CancelMove (s : Shared) (c : CancelReq) : CancelAct → Shared → CancelReq → Prop
  | refused : c = .idle → CancelMove s c .load s .idle
  | load (row : RunRow) : c = .idle → s.db.run = some row → row.status.terminal = false →
      CancelMove s c .load s (.loaded row)
  | commit (row : RunRow) : c = .loaded row → CancelMove s c .commit { s with db := s.db.cancelRun s.clock } .idle
  | fails (row : RunRow) : c = .loaded row → CancelMove s c .fails s .idle

theorem cancelStep_move {s s' : Shared} {c c' : CancelReq} {a : CancelAct} (h : cancelStep s c a = some (s', c')) :
    CancelMove s c a s' c' := by
  unfold cancelStep at h
  split at h
  · split at h
    · cases h
    · rename_i row hr
      cases ht : row.status.terminal with
      | true => rw [ht] at h; cases h; exact .refused rfl
      | false => rw [ht] at h; cases h; exact .load row rfl hr ht
  · rename_i row; cases h; exact .commit row rfl
  · rename_i row; cases h; exact .fails row rfl
  · cases h

/-- **What a step of the API process streaming the turn can do.** -/
inductive InlineMove (s : Shared) (t : Turn) : InlineAct → Shared → Turn → Prop
  | create (runtime : String) (db : Db) (t' : Turn) : t.stage = .start → createRun s.clock s.db runtime = some (db, t') →
      InlineMove s t (.create runtime) { s with db := db } t'
  | turn (ta : TurnAct) (db : Db) (t' : Turn) : t.stage ≠ .start → turnStep s.clock s.db t ta = some (db, t') →
      InlineMove s t (.turn ta) { s with db := db } t'
  | send (evt : RunEvent) (rest : List RunEvent) : t.out = evt :: rest →
      InlineMove s t .send s { t with out := rest }

theorem inlineStep_move {s s' : Shared} {t t' : Turn} {a : InlineAct} (h : inlineStep s t a = some (s', t')) :
    InlineMove s t a s' t' := by
  unfold inlineStep at h
  split at h
  · rename_i runtime
    split at h
    · rename_i hs
      obtain ⟨⟨db, u⟩, hc, he⟩ := Option.map_eq_some_iff.1 h
      cases he
      exact .create runtime _ _ hs hc
    · cases h
  · rename_i ta
    split at h
    · cases h
    · rename_i hs
      obtain ⟨⟨db, u⟩, ht, he⟩ := Option.map_eq_some_iff.1 h
      cases he
      exact .turn ta _ _ hs ht
  · split at h
    · cases h
    · rename_i evt rest ho; cases h; exact .send evt rest ho

/-! ## the system -/

/-- **What a step of the system can do**: one process moves. -/
inductive Move (cfg : Settings) (s : World) : Act → World → Prop
  | tick (seconds : Nat) :
      Move cfg s (.tick seconds) { s with shared := { s.shared with clock := s.shared.clock + seconds } }
  | enqueue : Move cfg s .enqueue
      { s with shared := { s.shared with queue := s.shared.queue.enqueue s.shared.liveLease } }
  | reclaim (d : Delivery) (reclaimer : Owner) (ok : Bool) (q : Stream) :
      Move cfg s (.reclaim d reclaimer ok) { s with shared := { s.shared with queue := q } }
  | worker (me : Owner) (wa : WorkerAct) (sh : Shared) (w : Worker) : WorkerMove cfg me s.shared (s.workers me) wa sh w →
      Move cfg s (.worker me wa)
        { s with shared := sh
                 workers := Function.update s.workers me w
                 lastClaim := if claims (s.workers me) w then some me else s.lastClaim }
  | scan (sa : ScanAct) (sh : Shared) (r : Scanner) : ScanMove cfg s.shared s.scanner sa sh r →
      Move cfg s (.scan sa) { s with shared := sh, scanner := r }
  | cancel (k : Nat) (ca : CancelAct) (sh : Shared) (c : CancelReq) : CancelMove s.shared (s.cancels k) ca sh c →
      Move cfg s (.cancel k ca) { s with shared := sh, cancels := Function.update s.cancels k c }
  | inline (ia : InlineAct) (sh : Shared) (t : Turn) : InlineMove s.shared s.inline ia sh t →
      Move cfg s (.inline ia) { s with shared := sh, inline := t }

theorem step_move {cfg : Settings} {s s' : World} {a : Act} (h : step cfg s a = some s') : Move cfg s a s' := by
  unfold step at h
  split at h
  · rename_i seconds; cases h; exact .tick seconds
  · cases h; exact .enqueue
  · rename_i d reclaimer ok
    obtain ⟨q, -, he⟩ := Option.map_eq_some_iff.1 h
    cases he
    exact .reclaim d reclaimer ok q
  · rename_i me wa
    obtain ⟨⟨sh, w⟩, hw, he⟩ := Option.map_eq_some_iff.1 h
    cases he
    exact .worker me wa sh w (workerStep_move hw)
  · rename_i sa
    obtain ⟨⟨sh, r⟩, hr, he⟩ := Option.map_eq_some_iff.1 h
    cases he
    exact .scan sa sh r (scanStep_move hr)
  · rename_i k ca
    obtain ⟨⟨sh, c⟩, hc, he⟩ := Option.map_eq_some_iff.1 h
    cases he
    exact .cancel k ca sh c (cancelStep_move hc)
  · rename_i ia
    obtain ⟨⟨sh, t⟩, ht, he⟩ := Option.map_eq_some_iff.1 h
    cases he
    exact .inline ia sh t (inlineStep_move ht)

end Run
end MyGpt
