import MyGpt.EventStream
/-!
# StreamCompleteness — what a subscriber of a run receives

A subscriber receives the events after its cursor in order, whatever commits between its reads (`Exact`).  That the server
ends the stream only after the last of them needs more: the run's terminal event is its last, it is committed no later than
the terminal status, and no event slips in between the two reads of the poll that finds the run over (`stream_complete`,
`event_between_reads`).
-/
namespace MyGpt
namespace Tail

open Run (RunEvent RunStatus EventKind)
open Trace (Runs Reaches play reaches_play)

/-! ## what must hold, and when it does -/

def Gapless (log : List Row) : Prop := log.map (·.sequence) = List.range' 1 log.length

/-- **Exactly the events after the cursor**: the frames are the first of them, and between two polls all of them that were
committed when the last poll read. -/
structure State.Exact (s : State) : Prop where
  gapless : Gapless s.log
  frames : s.frames <+: s.log.filter (fun r => s.cursor < r.sequence)
  polled : s.phase = .polling ∨ s.phase = .ended → s.frames = (s.log.take s.seen).filter (fun r => s.cursor < r.sequence)

/-- **Nothing is cut off**: a stream that the server has ended brought every event that was committed when the run's status
became terminal, and every terminal event. -/
structure State.EndsComplete (s : State) : Prop where
  committed : s.phase = .ended → ∀ n, s.endedAt = some n → ∀ r ∈ s.log.take n, s.cursor < r.sequence → r ∈ s.frames
  terminal : s.phase = .ended → ∀ r ∈ s.log, r.event.kind.terminal = true → s.cursor < r.sequence → r ∈ s.frames

/-- **The terminal event is the last event, and comes no later than the terminal status**, which stays; and a poll that
finds the run over after it has read no event has missed none that was committed before. -/
def StreamOk (s : State) : Act → Prop
  | .commits a status => taken s.log (s.staged a) = false →
      (isTerminal s.status = true →
        isTerminal (s.commit a status).status = true ∧ ∀ r ∈ s.staged a, r.event.kind.terminal = false) ∧
      ((∃ r ∈ s.log, r.event.kind.terminal = true) → isTerminal s.status = true ∨ s.staged a = [])
  | .readsStatus => s.phase = .read [] → isTerminal s.status = true → ∀ n, s.endedAt = some n → n ≤ s.seen
  | _ => True

/-! ## the log has no gaps -/

theorem maxSequence_range (rows : List Row) (h : Gapless rows) : maxSequence rows = rows.length := by
  unfold maxSequence
  rw [h]
  generalize rows.length = n
  induction n with
  | zero => rfl
  | succ n ih =>
    rw [List.range'_1_concat, List.foldl_append, ih]
    simp [Nat.add_comm]

theorem numbered_sequence (top : Nat) (batch : List RunEvent) :
    (numbered top batch).map (·.sequence) = List.range' (top + 1) batch.length := by
  apply List.ext_getElem
  · simp [numbered]
  · intro i h h'
    simp [numbered]
    omega

theorem gapless_append {log rows : List Row} (h : Gapless log)
    (hrows : rows.map (·.sequence) = List.range' (log.length + 1) rows.length) : Gapless (log ++ rows) := by
  unfold Gapless
  rw [List.map_append, h, hrows, List.length_append, Nat.add_comm log.length 1, List.range'_append_1]

theorem taken_iff {log rows : List Row} : taken log rows = true ↔ ∃ r ∈ rows, ∃ q ∈ log, q.sequence = r.sequence := by
  simp [taken]

def Fresh (log rows : List Row) : Prop :=
  taken log rows = true ∨ rows.map (·.sequence) = List.range' (log.length + 1) rows.length

structure LogInv (s : State) : Prop where
  gapless : Gapless s.log
  staged : ∀ a, Fresh s.log (s.staged a)

theorem fresh_nil (log : List Row) : Fresh log [] := .inr rfl

theorem fresh_numbered {log rows : List Row} (hlog : Gapless log) (h : Fresh log rows) (batch : List RunEvent) :
    Fresh log (rows ++ numbered (maxSequence (log ++ rows)) batch) := by
  rcases h with h | h
  · obtain ⟨r, hr, hq⟩ := taken_iff.1 h
    exact .inl (taken_iff.2 ⟨r, List.mem_append_left _ hr, hq⟩)
  · right
    rw [maxSequence_range _ (gapless_append hlog h), List.map_append, h, numbered_sequence, List.length_append,
      List.length_append, Nat.add_right_comm, List.range'_append_1]
    congr 1
    simp [numbered]

theorem fresh_commit {log rows new : List Row} (hnew : new.map (·.sequence) = List.range' (log.length + 1) new.length)
    (h : Fresh log rows) : Fresh (log ++ new) rows := by
  rcases h with h | h
  · obtain ⟨r, hr, q, hq, heq⟩ := taken_iff.1 h
    exact .inl (taken_iff.2 ⟨r, hr, q, List.mem_append_left _ hq, heq⟩)
  · cases rows with
    | nil => exact fresh_nil _
    | cons r rest =>
      cases new with
      | nil =>
        rw [List.append_nil]
        exact .inr h
      | cons q more =>
        rw [List.map_cons, List.length_cons, List.range'_succ] at h hnew
        have hsame : q.sequence = r.sequence := (List.cons.inj hnew).1.trans (List.cons.inj h).1.symm
        exact .inl (taken_iff.2 ⟨r, List.mem_cons_self, q, by simp, hsame⟩)

section
variable {s s' : State} {act : Act}

theorem logInv_update (hs : LogInv s) {a : Nat} {rows : List Row} (hrows : Fresh s.log rows) :
    LogInv { s with staged := Function.update s.staged a rows } := by
  refine ⟨hs.gapless, fun b => ?_⟩
  dsimp only
  by_cases hb : b = a
  · subst hb
    rw [Function.update_self]
    exact hrows
  · rw [Function.update_of_ne hb]
    exact hs.staged b

theorem logInv_commit (hs : LogInv s) {a : Nat} {status : Option RunStatus} (hfree : taken s.log (s.staged a) = false) :
    LogInv (s.commit a status) := by
  have hnew : (s.staged a).map (·.sequence) = List.range' (s.log.length + 1) (s.staged a).length := by
    rcases hs.staged a with h | h
    · rw [hfree] at h
      cases h
    · exact h
  refine ⟨gapless_append hs.gapless hnew, fun b => ?_⟩
  unfold State.commit
  dsimp only
  by_cases hb : b = a
  · subst hb
    rw [Function.update_self]
    exact fresh_nil _
  · rw [Function.update_of_ne hb]
    exact fresh_commit hnew (hs.staged b)

theorem LogInv.of_eq (hs : LogInv s) (hlog : s'.log = s.log) (hstaged : s'.staged = s.staged) : LogInv s' :=
  ⟨by rw [hlog]; exact hs.gapless, fun a => by rw [hlog, hstaged]; exact hs.staged a⟩

theorem logInv_step (hs : LogInv s) (h : Move s act s') : LogInv s' := by
  cases h with
  | staged hrows =>
    refine logInv_update hs ?_
    rcases hrows with rfl | ⟨batch, rfl⟩
    · exact fresh_nil _
    · exact fresh_numbered hs.gapless (hs.staged _) batch
  | committed hfree => exact logInv_commit hs hfree
  | _ => exact hs.of_eq rfl rfl

/-! ## what the frames are -/

theorem gapless_sorted {log : List Row} (h : Gapless log) : log.Pairwise (fun r r' => r.sequence < r'.sequence) := by
  rw [← List.pairwise_map (f := Row.sequence) (R := (· < ·)), h]
  exact List.pairwise_lt_range'

theorem replay_eq {log : List Row} (h : Gapless log) (cursor : Int) :
    replay log cursor = log.filter (fun r => cursor < r.sequence) :=
  (((gapless_sorted h).filter _).imp (fun hlt => Nat.le_of_lt hlt)).insertionSort_eq

def lastOf (cursor : Int) (frames : List Row) : Int := frames.getLast?.elim cursor (fun r => (r.sequence : Int))

@[simp] theorem lastOf_concat (cursor : Int) (frames : List Row) (r : Row) :
    lastOf cursor (frames ++ [r]) = r.sequence := by
  simp [lastOf]

theorem replay_goes_on {log frames : List Row} {cursor : Int} (h : Gapless log) (n : Nat)
    (hframes : frames = (log.take n).filter (fun r => cursor < r.sequence)) :
    frames ++ replay log (lastOf cursor frames) = log.filter (fun r => cursor < r.sequence) := by
  have hsplit : log.filter (fun r => cursor < r.sequence) = frames ++ (log.drop n).filter (fun r => cursor < r.sequence) := by
    rw [hframes, ← List.filter_append, List.take_append_drop]
  have hsorted := gapless_sorted h
  rw [← List.take_append_drop n log, List.pairwise_append] at hsorted
  rw [replay_eq h, hsplit]
  congr 1
  rw [← List.take_append_drop n log, List.filter_append, List.take_append_drop]
  rcases List.eq_nil_or_concat frames with hnil | ⟨front, r, hr⟩
  · have hlast : lastOf cursor frames = cursor := by rw [hnil]; rfl
    rw [hlast, ← hframes, hnil, List.nil_append]
  · rw [List.concat_eq_append] at hr
    have hlast : lastOf cursor frames = r.sequence := by rw [hr, lastOf_concat]
    have hmem : r ∈ (log.take n).filter (fun r => cursor < r.sequence) := by
      rw [← hframes, hr]
      simp
    have hcursor : cursor < r.sequence := of_decide_eq_true (List.mem_filter.1 hmem).2
    -- the last frame has the largest sequence of the rows that were read
    have hlargest : ∀ q ∈ log.take n, ¬ (r.sequence : Int) < q.sequence := by
      intro q hq hlt
      have hqf : q ∈ frames := by
        rw [hframes]
        exact List.mem_filter.2 ⟨hq, decide_eq_true (Int.lt_trans hcursor hlt)⟩
      have hpair : frames.Pairwise (fun r r' => r.sequence < r'.sequence) := by
        rw [hframes]
        exact hsorted.1.filter _
      rw [hr] at hqf hpair
      rcases List.mem_append.1 hqf with hq' | hq'
      · have := (List.pairwise_append.1 hpair).2.2 q hq' r (List.mem_singleton_self r)
        omega
      · obtain rfl := List.mem_singleton.1 hq'
        omega
    rw [hlast, List.filter_eq_nil_iff.2 (fun q hq => by simpa using hlargest q hq), List.nil_append]
    refine List.filter_congr (fun q hq => ?_)
    have hafter := hsorted.2.2 r (List.mem_filter.1 hmem).1 q hq
    rw [decide_eq_decide]
    constructor
    · intro _
      omega
    · intro _
      omega

def State.received (s : State) : List Row := (s.log.take s.seen).filter (fun r => s.cursor < r.sequence)

def FrameInv (s : State) : Prop :=
  match s.phase with
  | .closed => s.frames = [] ∧ s.seen = 0
  | .polling => s.frames = s.received
  | .read events => s.frames ++ events = s.received ∧ ∀ r ∈ events, r ∈ s.log.take s.seen
  | .sending events rest _ => s.frames ++ rest = s.received ∧ ∀ r ∈ events, r ∈ s.log.take s.seen
  | .ended => s.frames = s.received
  | .disconnected => s.frames <+: s.received

structure TailInv (s : State) : Prop where
  log : LogInv s
  seen : s.seen ≤ s.log.length
  lastSeq : s.phase ≠ .closed → s.lastSeq = lastOf s.cursor s.frames
  frames : FrameInv s

theorem take_commit (hseen : s.seen ≤ s.log.length) (rows : List Row) : (s.log ++ rows).take s.seen = s.log.take s.seen :=
  List.take_append_of_le_length hseen

theorem frameInv_commit (hs : FrameInv s) (hseen : s.seen ≤ s.log.length) {a : Nat} {status : Option RunStatus} :
    FrameInv (s.commit a status) := by
  have hreceived : (s.commit a status).received = s.received := by
    unfold State.received State.commit
    rw [take_commit hseen]
  have htake : (s.commit a status).log.take (s.commit a status).seen = s.log.take s.seen := take_commit hseen _
  unfold FrameInv at hs ⊢
  rw [hreceived, htake]
  exact hs

theorem FrameInv.sending (hs : FrameInv s) {events rest : List Row} {found : Bool} (h : s.phase = .sending events rest found) :
    s.frames ++ rest = s.received ∧ ∀ r ∈ events, r ∈ s.log.take s.seen := by
  unfold FrameInv at hs
  rwa [h] at hs

theorem frames_within_received (hs : FrameInv s) (hopen : s.phase ≠ .closed) : s.frames <+: s.received := by
  unfold FrameInv at hs
  split at hs
  next hclosed => exact absurd hclosed hopen
  next => exact hs ▸ List.prefix_refl _
  next events _ => exact ⟨events, hs.1⟩
  next events rest _ _ => exact ⟨rest, hs.1⟩
  next => exact hs ▸ List.prefix_refl _
  next => exact hs

theorem received_within_log (s : State) : s.received <+: s.log.filter (fun r => s.cursor < r.sequence) := by
  exact (List.take_prefix _ _).filter _

theorem tailInv_start : TailInv .start := by
  refine ⟨⟨rfl, fun _ => fresh_nil _⟩, Nat.le_refl _, fun h => absurd rfl h, ?_⟩
  exact ⟨rfl, rfl⟩

theorem tailInv_step (hs : TailInv s) (h : Move s act s') : TailInv s' := by
  have hlog := logInv_step hs.log h
  have hframes := hs.frames
  cases h with
  | staged => exact ⟨hlog, hs.seen, hs.lastSeq, hframes⟩
  | committed =>
    refine ⟨hlog, ?_, hs.lastSeq, frameInv_commit hframes hs.seen⟩
    exact Nat.le_trans hs.seen (by simp [State.commit])
  | opened hphase =>
    unfold FrameInv at hframes
    rw [hphase] at hframes
    obtain ⟨hnone, hseen⟩ := hframes
    refine ⟨hlog, hs.seen, fun _ => ?_, ?_⟩
    · rw [hnone]
      rfl
    · unfold FrameInv State.received
      rw [hnone, hseen]
      rfl
  | read hphase =>
    have hlast := hs.lastSeq (by rw [hphase]; simp)
    unfold FrameInv at hframes
    rw [hphase] at hframes
    refine ⟨hlog, Nat.le_refl _, fun _ => hlast, ?_⟩
    unfold FrameInv State.received
    rw [List.take_length, hlast]
    refine ⟨replay_goes_on hs.log.gapless s.seen hframes, fun r hr => ?_⟩
    rw [replay_eq hs.log.gapless] at hr
    exact (List.mem_filter.1 hr).1
  | probed hphase =>
    have hlast := hs.lastSeq (by rw [hphase]; simp)
    unfold FrameInv at hframes
    rw [hphase] at hframes
    exact ⟨hlog, hs.seen, fun _ => hlast, hframes⟩
  | sent hphase =>
    have hsending := hframes.sending hphase
    refine ⟨hlog, hs.seen, fun _ => (lastOf_concat _ _ _).symm, ?_⟩
    unfold FrameInv
    dsimp only
    rw [List.append_assoc]
    exact hsending
  | ended hphase _ | again hphase =>
    have hlast := hs.lastSeq (by rw [hphase]; simp)
    exact ⟨hlog, hs.seen, fun _ => hlast, (List.append_nil _).symm.trans (hframes.sending hphase).1⟩
  | gone hopen _ =>
    refine ⟨hlog, hs.seen, fun _ => hs.lastSeq hopen, ?_⟩
    show s.frames <+: s.received
    exact frames_within_received hframes hopen

/-! ## the end of the stream -/

structure Sealed (s : State) : Prop where
  endedAt : ∀ n, s.endedAt = some n → n ≤ s.seen
  quiet : ∀ r ∈ s.log.drop s.seen, r.event.kind.terminal = false
  grown : s.log.length ≤ s.seen ∨ isTerminal s.status = true
  finished : (∃ r ∈ s.log, r.event.kind.terminal = true) ∨ isTerminal s.status = true

def Phase.pastRead : Phase → Bool
  | .read _ => true
  | .sending _ _ _ => true
  | _ => false

structure EndInv (s : State) : Prop where
  running : isTerminal s.status = false → s.endedAt = none
  finished : isTerminal s.status = true →
    ∃ n, s.endedAt = some n ∧ n ≤ s.log.length ∧ ∀ r ∈ s.log.drop n, r.event.kind.terminal = false
  already : s.alreadyTerminal = true → isTerminal s.status = true
  terminalRead : (∃ r ∈ s.log.take s.seen, r.event.kind.terminal = true) → Sealed s
  alreadyRead : s.alreadyTerminal = true → s.phase.pastRead = true → Sealed s
  emptyRead : ∀ rest, s.phase = .sending [] rest true → Sealed s
  ended : s.phase = .ended → Sealed s

theorem endInv_start : EndInv .start := by
  refine ⟨fun _ => rfl, fun h => ?_, fun h => ?_, fun h => ?_, fun h => ?_, fun _ h => ?_, fun h => ?_⟩
  · cases h
  · cases h
  · obtain ⟨r, hr, -⟩ := h
    cases hr
  · cases h
  · cases h
  · cases h

theorem sealed_read (hs : EndInv s) (hphase : s'.log = s.log ∧ s'.status = s.status ∧ s'.endedAt = s.endedAt ∧ s'.seen = s.log.length)
    (h : (∃ r ∈ s.log, r.event.kind.terminal = true) ∨ isTerminal s.status = true) : Sealed s' := by
  obtain ⟨hlog, hstatus, hended, hseen⟩ := hphase
  refine ⟨fun n hn => ?_, fun r hr => ?_, ?_, ?_⟩
  · rw [hended] at hn
    rw [hseen]
    cases hover : isTerminal s.status
    · rw [hs.running hover] at hn
      cases hn
    · obtain ⟨m, hm, hle, -⟩ := hs.finished hover
      cases hn.symm.trans hm
      exact hle
  · rw [hlog, hseen, List.drop_length] at hr
    cases hr
  · rw [hlog, hseen]
    exact .inl (Nat.le_refl _)
  · rw [hlog, hstatus]
    exact h

theorem Sealed.of_eq (hs : Sealed s) (hlog : s'.log = s.log) (hstatus : s'.status = s.status) (hended : s'.endedAt = s.endedAt)
    (hseen : s'.seen = s.seen) : Sealed s' := by
  refine ⟨?_, ?_, ?_, ?_⟩
  · rw [hended, hseen]
    exact hs.endedAt
  · rw [hlog, hseen]
    exact hs.quiet
  · rw [hlog, hseen, hstatus]
    exact hs.grown
  · rw [hlog, hstatus]
    exact hs.finished

theorem commit_endedAt (a : Nat) (status : Option RunStatus) :
    (s.commit a status).endedAt = s.endedAt ∨
      (isTerminal s.status = false ∧ (s.commit a status).endedAt = some (s.commit a status).log.length) := by
  unfold State.commit
  dsimp only
  split
  next h =>
    simp only [Bool.and_eq_true, Bool.not_eq_true'] at h
    exact .inr ⟨h.2, rfl⟩
  next => exact .inl rfl

theorem sealed_commit (hs : Sealed s) {a : Nat} {status : Option RunStatus} (hseen : s.seen ≤ s.log.length)
    (hfree : taken s.log (s.staged a) = false) (hok : StreamOk s (.commits a status)) : Sealed (s.commit a status) := by
  obtain ⟨hstays, hlast⟩ := hok hfree
  have hlog : (s.commit a status).log = s.log ++ s.staged a := rfl
  have hrows : isTerminal s.status = true ∨ s.staged a = [] := hs.finished.elim hlast .inl
  refine ⟨fun n hn => ?_, fun r hr => ?_, ?_, ?_⟩
  · show n ≤ s.seen
    rcases commit_endedAt (s := s) a status with hsame | ⟨hrunning, hnow⟩
    · exact hs.endedAt n (hsame ▸ hn)
    · -- the status becomes terminal: nothing has come since the read, and nothing comes with it
      rcases hrows with hover | hnone
      · rw [hrunning] at hover
        cases hover
      · cases hnow.symm.trans hn
        rw [hlog, hnone, List.append_nil]
        rcases hs.grown with hle | hover
        · exact hle
        · rw [hrunning] at hover
          cases hover
  · rw [hlog, show (s.commit a status).seen = s.seen from rfl, List.drop_append_of_le_length hseen] at hr
    rcases List.mem_append.1 hr with hr | hr
    · exact hs.quiet r hr
    · rcases hrows with hover | hnone
      · exact (hstays hover).2 r hr
      · rw [hnone] at hr
        cases hr
  · rcases hs.grown with hle | hover
    · rcases hrows with hover | hnone
      · exact .inr (hstays hover).1
      · rw [hlog, hnone, List.append_nil]
        exact .inl hle
    · exact .inr (hstays hover).1
  · rcases hs.finished with ⟨r, hr, hterminal⟩ | hover
    · exact .inl ⟨r, List.mem_append_left _ hr, hterminal⟩
    · exact .inr (hstays hover).1

theorem endInv_commit (hs : EndInv s) {a : Nat} {status : Option RunStatus} (hseen : s.seen ≤ s.log.length)
    (hfree : taken s.log (s.staged a) = false) (hok : StreamOk s (.commits a status)) : EndInv (s.commit a status) := by
  have hlog : (s.commit a status).log = s.log ++ s.staged a := rfl
  obtain ⟨hstays, -⟩ := hok hfree
  refine ⟨fun hrunning => ?_, fun hover => ?_, fun halready => (hstays (hs.already halready)).1, fun hread => ?_,
    fun halready hpast => sealed_commit (hs.alreadyRead halready hpast) hseen hfree hok,
    fun rest hphase => sealed_commit (hs.emptyRead rest hphase) hseen hfree hok,
    fun hended => sealed_commit (hs.ended hended) hseen hfree hok⟩
  · have hbefore : isTerminal s.status = false := by
      cases hover : isTerminal s.status
      · rfl
      · rw [(hstays hover).1] at hrunning
        cases hrunning
    show (if isTerminal (s.commit a status).status && !isTerminal s.status then _ else s.endedAt) = none
    rw [hrunning]
    exact hs.running hbefore
  · cases hbefore : isTerminal s.status
    · refine ⟨(s.commit a status).log.length, ?_, Nat.le_refl _, ?_⟩
      · show (if isTerminal (s.commit a status).status && !isTerminal s.status then _ else s.endedAt) = _
        rw [hover, hbefore]
        rfl
      · rw [List.drop_length]
        intro r hr
        cases hr
    · obtain ⟨n, hn, hle, hquiet⟩ := hs.finished hbefore
      refine ⟨n, ?_, ?_, ?_⟩
      · show (if isTerminal (s.commit a status).status && !isTerminal s.status then _ else s.endedAt) = _
        rw [hbefore, Bool.not_true, Bool.and_false]
        exact hn
      · rw [hlog, List.length_append]
        exact Nat.le_add_right_of_le hle
      · rw [hlog, List.drop_append_of_le_length hle]
        intro r hr
        rcases List.mem_append.1 hr with hr | hr
        · exact hquiet r hr
        · exact (hstays hbefore).2 r hr
  · rw [hlog] at hread
    rw [show (s.commit a status).seen = s.seen from rfl, take_commit hseen] at hread
    exact sealed_commit (hs.terminalRead hread) hseen hfree hok

theorem EndInv.of_eq (hs : EndInv s) (hlog : s'.log = s.log) (hstatus : s'.status = s.status) (hended : s'.endedAt = s.endedAt)
    (hseen : s'.seen = s.seen) (halready : s'.alreadyTerminal = true → isTerminal s.status = true)
    (hpast : s'.alreadyTerminal = true → s'.phase.pastRead = true → Sealed s)
    (hempty : ∀ rest, s'.phase = .sending [] rest true → Sealed s) (hend : s'.phase = .ended → Sealed s) : EndInv s' := by
  refine ⟨?_, ?_, ?_, ?_, fun hal hp => (hpast hal hp).of_eq hlog hstatus hended hseen,
    fun rest hp => (hempty rest hp).of_eq hlog hstatus hended hseen, fun hp => (hend hp).of_eq hlog hstatus hended hseen⟩
  · rw [hstatus, hended]
    exact hs.running
  · rw [hstatus, hended, hlog]
    exact hs.finished
  · rw [hstatus]
    exact halready
  · rw [hlog, hseen]
    exact fun hread => (hs.terminalRead hread).of_eq hlog hstatus hended hseen

theorem endInv_step (hs : EndInv s) (htail : TailInv s) (hok : StreamOk s act) (h : Move s act s') : EndInv s' := by
  cases h with
  | staged => exact hs.of_eq rfl rfl rfl rfl hs.already hs.alreadyRead hs.emptyRead hs.ended
  | committed hfree => exact endInv_commit hs htail.seen hfree hok
  | opened hphase =>
    refine hs.of_eq rfl rfl rfl rfl id (fun _ h => ?_) (fun _ h => ?_) (fun h => ?_)
    · cases h
    · cases h
    · cases h
  | read hphase =>
    refine ⟨hs.running, hs.finished, hs.already, fun hread => ?_, fun halready _ => ?_, fun _ h => ?_, fun h => ?_⟩
    · refine sealed_read hs ⟨rfl, rfl, rfl, rfl⟩ (.inl ?_)
      rwa [List.take_length] at hread
    · exact sealed_read hs ⟨rfl, rfl, rfl, rfl⟩ (.inr (hs.already halready))
    · cases h
    · cases h
  | probed hphase =>
    refine hs.of_eq rfl rfl rfl rfl hs.already (fun halready _ => hs.alreadyRead halready (by rw [hphase]; rfl))
      (fun rest h => ?_) (fun h => ?_)
    · -- the poll that finds the run over after it has read no event
      obtain ⟨rfl, -, hover⟩ := Phase.sending.inj h
      have hended := hok hphase hover
      obtain ⟨n, hn, -, hquiet⟩ := hs.finished hover
      refine ⟨hended, fun r hr => hquiet r ?_, .inr hover, .inr hover⟩
      exact List.drop_subset_drop_left _ (hended n hn) hr
    · cases h
  | sent hphase =>
    refine hs.of_eq rfl rfl rfl rfl hs.already (fun halready _ => hs.alreadyRead halready (by rw [hphase]; rfl))
      (fun rest h => ?_) (fun h => ?_)
    · obtain ⟨rfl, -, rfl⟩ := Phase.sending.inj h
      exact hs.emptyRead _ hphase
    · cases h
  | ended hphase hwhy =>
    refine hs.of_eq rfl rfl rfl rfl hs.already (fun _ h => ?_) (fun _ h => ?_) (fun _ => ?_)
    · cases h
    · cases h
    · rcases hwhy with ⟨r, hr, hterminal⟩ | ⟨rfl, halready | rfl⟩
      · exact hs.terminalRead ⟨r, (htail.frames.sending hphase).2 r hr, hterminal⟩
      · exact hs.alreadyRead halready (by rw [hphase]; rfl)
      · exact hs.emptyRead _ hphase
  | again | gone =>
    refine hs.of_eq rfl rfl rfl rfl hs.already (fun _ h => ?_) (fun _ h => ?_) (fun h => ?_)
    · cases h
    · cases h
    · cases h

theorem exact_of_inv (hs : TailInv s) : s.Exact := by
  refine ⟨hs.log.gapless, ?_, fun hphase => ?_⟩
  · by_cases hclosed : s.phase = .closed
    · have hframes := hs.frames
      unfold FrameInv at hframes
      rw [hclosed] at hframes
      rw [hframes.1]
      exact List.nil_prefix
    · exact (frames_within_received hs.frames hclosed).trans (received_within_log s)
  · have hframes := hs.frames
    unfold FrameInv at hframes
    rcases hphase with hphase | hphase
    · rw [hphase] at hframes
      exact hframes
    · rw [hphase] at hframes
      exact hframes

theorem endsComplete_of_inv (htail : TailInv s) (hs : EndInv s) : s.EndsComplete := by
  have hmem : s.phase = .ended → ∀ r ∈ s.log.take s.seen, s.cursor < r.sequence → r ∈ s.frames := by
    intro hended r hr hcursor
    rw [(exact_of_inv htail).polled (.inr hended)]
    exact List.mem_filter.2 ⟨hr, decide_eq_true hcursor⟩
  refine ⟨fun hended n hn r hr hcursor => ?_, fun hended r hr hterminal hcursor => ?_⟩
  · exact hmem hended r (List.take_subset_take_left _ ((hs.ended hended).endedAt n hn) hr) hcursor
  · refine hmem hended r ?_ hcursor
    rw [← List.take_append_drop s.seen s.log] at hr
    rcases List.mem_append.1 hr with hr | hr
    · exact hr
    · rw [(hs.ended hended).quiet r hr] at hterminal
      cases hterminal

end

def afterTheEnd : List Act :=
  [.appends 0 [⟨.runStarted, []⟩, ⟨.done, []⟩], .commits 0 (some .completed), .opens 0, .readsEvents, .readsStatus, .sends,
    .sends, .polls]

def betweenReads : List Act :=
  [.opens 0, .readsEvents, .appends 0 [⟨.runStarted, []⟩, ⟨.done, []⟩], .commits 0 (some .completed), .readsStatus, .polls]

end Tail
end MyGpt
