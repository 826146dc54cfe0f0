import MyGpt.RunEventReplay
import MyGpt.Lib.Trace
import Mathlib.Algebra.GroupWithZero.Nat
/-!
# RunSubscription — the events of a run across disconnects

`useDurableAgentRun` over `streamRunEvents`, with the log that the server sends from.  A connection may end at any moment, with
frames on their way; the next one asks for what lies past the cursor.  The page may be loaded again, with the cursor of any tab
in its storage.  Nothing is lost and nothing is counted twice (`subscription_faithful`).
-/
namespace MyGpt
namespace Client
namespace RunEvents

open Trace (Reaches)

/-! ## the cursors that are kept -/

/-- `memoryCursors` and `localStorage`, for the run. -/
structure Cursors where
  memory : Option Int := none
  storage : Option Int := none
  deriving DecidableEq

def readCursor (kept : Cursors) : Cursors × Int :=
  match kept.memory with
  | some cursor => (kept, cursor)
  | none =>
    match kept.storage with
    | some cursor => if 0 ≤ cursor then ({ kept with memory := some cursor }, cursor) else (kept, 0)
    | none => (kept, 0)

/-- `saves`: the storage takes the value. -/
def writeCursor (saves : Bool) (kept : Cursors) (cursor : Int) : Cursors :=
  if cursor ≤ kept.memory.getD 0 then kept
  else { memory := some cursor, storage := if saves then some cursor else kept.storage }

/-! ## the hook -/

/-- A row of `run_events`. -/
structure LogRow where
  sequence : Int
  eventType : String
  data : List (String × Json)

/-- The event that the hook makes of a frame; `now` is its clock. -/
def frameEvent (runId : String) (now : String) (row : LogRow) : DurableRunEvent where
  id := toString row.sequence
  runId := runId
  sequence := row.sequence
  eventType := row.eventType
  data := row.data
  createdAt := now

structure Stream where
  /-- `cursor` of `streamRunEvents`. -/
  cursor : Int
  /-- How far the server has sent. -/
  sent : Int
  frames : List LogRow

structure Hook where
  runId : String
  /-- The rows that are committed. -/
  log : List LogRow
  kept : Cursors
  mounted : Bool
  /-- The cursor of the mount. -/
  initial : Int
  state : DurableRunState
  /-- `stateRef.current`, the state of the last render. -/
  shown : DurableRunState
  cursorRef : Int
  attempt : Nat
  /-- The delay of the timer that is set. -/
  timer : Option Nat
  stream : Option Stream

inductive Act
  | commits (row : LogRow)
  | mounts
  | unmounts
  /-- The page is left, and with it the memory. -/
  | reloads
  | otherTab (cursor : Int)
  | fires
  | sends
  | receives (now : String) (saves : Bool)
  | renders
  | disconnects
  /-- A rejected response, or the network. -/
  | fails (message : String)
  | clears

def backoff (attempt : Nat) : Nat := min 30000 (1000 * 2 ^ min (attempt - 1) 5)

def reconnectionShouldStop (s : DurableRunState) : Bool := s.runStatus.terminal

def connect (h : Hook) : Hook :=
  if reconnectionShouldStop h.shown then { h with state := disconnectSubscription h.state }
  else
    { h with
      state := { h.state with subscriptionStatus := if h.attempt = 0 then .connecting else .reconnecting }
      stream := some ⟨h.cursorRef, h.cursorRef, []⟩ }

def scheduleReconnect (h : Hook) : Hook :=
  if reconnectionShouldStop h.shown then h
  else { h with attempt := h.attempt + 1, timer := some (backoff (h.attempt + 1)) }

def advance (saves : Bool) (cursor : Int) (h : Hook) : Hook :=
  if h.cursorRef < cursor then { h with cursorRef := cursor, kept := writeCursor saves h.kept cursor } else h

def onEvent (now : String) (saves : Bool) (row : LogRow) (h : Hook) : Hook :=
  if row.sequence < 0 then h
  else advance saves row.sequence { h with state := applyEvent h.state (frameEvent h.runId now row) }

def step (h : Hook) : Act → Option Hook
  | .commits row =>
    if 0 < row.sequence ∧ ∀ r ∈ h.log, r.sequence < row.sequence then some { h with log := h.log ++ [row] } else none
  | .mounts =>
    if h.mounted then none
    else
      let read := readCursor h.kept
      let fresh := subscribed h.runId read.2
      some (connect
        { h with
          kept := read.1, mounted := true, initial := read.2, state := fresh, shown := fresh, cursorRef := read.2
          attempt := 0, timer := none, stream := none })
  | .unmounts => some { h with mounted := false, timer := none, stream := none }
  | .reloads => some { h with mounted := false, timer := none, stream := none, kept := { h.kept with memory := none } }
  | .otherTab cursor =>
    if cursor ∈ h.log.map (·.sequence) then some { h with kept := { h.kept with storage := some cursor } } else none
  | .fires => h.timer.map (fun _ => connect { h with timer := none })
  | .sends => do
    let stream ← h.stream
    let row ← (h.log.filter (fun r => stream.sent < r.sequence)).head?
    some { h with stream := some { stream with sent := row.sequence, frames := stream.frames ++ [row] } }
  | .receives now saves =>
    match h.stream with
    | some ⟨cursor, sent, row :: frames⟩ =>
      let cursor := max cursor row.sequence
      some (advance saves cursor (onEvent now saves row { h with stream := some ⟨cursor, sent, frames⟩ }))
    | _ => none
  | .renders => some { h with shown := h.state }
  | .disconnects =>
    h.stream.map (fun _ => scheduleReconnect { h with stream := none, state := disconnectSubscription h.state })
  | .fails message =>
    h.stream.map (fun _ => scheduleReconnect
      { h with stream := none, state := { h.state with error := some message, subscriptionStatus := .disconnected } })
  | .clears => some { h with mounted := false, timer := none, stream := none, kept := {} }

def Hook.start (runId : String) : Hook where
  runId := runId
  log := []
  kept := {}
  mounted := false
  initial := 0
  state := emptyRunState runId
  shown := emptyRunState runId
  cursorRef := 0
  attempt := 0
  timer := none
  stream := none

/-! ## the rows between two cursors -/

def between (log : List LogRow) (lo hi : Int) : List LogRow := log.filter (fun r => lo < r.sequence && r.sequence ≤ hi)

def Ascending (log : List LogRow) : Prop := log.Pairwise (fun r r' => r.sequence < r'.sequence)

theorem between_append {lo mid hi : Int} (hlo : lo ≤ mid) (hhi : mid ≤ hi) : ∀ {log : List LogRow}, Ascending log →
    between log lo mid ++ between log mid hi = between log lo hi
  | [], _ => rfl
  | row :: log, h => by
    obtain ⟨hlater, hlog⟩ := List.pairwise_cons.1 h
    have ih := between_append hlo hhi hlog
    unfold between at ih ⊢
    by_cases hmid : row.sequence ≤ mid
    · have hnot : ¬ mid < row.sequence := Int.not_lt.2 hmid
      by_cases hrow : lo < row.sequence
      · simpa [hmid, hrow, hnot, le_trans hmid hhi] using ih
      · simpa [hrow, hnot] using ih
    · -- what comes behind is past `mid` as well
      have hnone : log.filter (fun r => lo < r.sequence && r.sequence ≤ mid) = [] := by
        refine List.filter_eq_nil_iff.2 (fun r hr => ?_)
        have := hlater r hr
        simp only [Bool.and_eq_true, decide_eq_true_eq]
        omega
      rw [hnone, List.nil_append] at ih
      have hpast : mid < row.sequence := Int.not_le.1 hmid
      rw [List.filter_cons_of_neg (by simp [hmid]), hnone, List.nil_append]
      simp only [List.filter_cons, hpast, lt_of_le_of_lt hlo hpast, ih]

/-- **The next row**: up to it there is nothing else. -/
theorem between_head {lo : Int} {row : LogRow} {rest log : List LogRow} (h : Ascending log) {p : LogRow → Bool}
    (hp : log.filter p = row :: rest) (hlo : ∀ r ∈ log, r.sequence ≤ row.sequence → (p r = true ↔ lo < r.sequence)) :
    between log lo row.sequence = [row] := by
  have hmem : row ∈ log := (List.mem_filter.1 (hp ▸ List.mem_cons_self)).1
  have hlater : ∀ r ∈ rest, row.sequence < r.sequence := (List.pairwise_cons.1 (hp ▸ h.filter p)).1
  have hsame : between log lo row.sequence = (log.filter p).filter (fun r => r.sequence ≤ row.sequence) := by
    rw [between, List.filter_filter]
    refine List.filter_congr (fun r hr => ?_)
    by_cases hle : r.sequence ≤ row.sequence
    · have heq : decide (lo < r.sequence) = p r := by rw [Bool.eq_iff_iff, hlo r hr hle, decide_eq_true_iff]
      simp [hle, heq]
    · simp [hle]
  have hrest : rest.filter (fun r => r.sequence ≤ row.sequence) = [] := by
    refine List.filter_eq_nil_iff.2 (fun r hr => ?_)
    have := hlater r hr
    simp only [decide_eq_true_eq]
    omega
  rw [hsame, hp, List.filter_cons_of_pos (by simp), hrest]

theorem between_commit {lo hi : Int} {log : List LogRow} {row : LogRow} (h : hi < row.sequence) :
    between (log ++ [row]) lo hi = between log lo hi := by
  simp [between, List.filter_append, Int.not_le.2 h]

theorem between_self (log : List LogRow) (n : Int) : between log n n = [] :=
  List.filter_eq_nil_iff.2 (fun r _ => by simp only [Bool.and_eq_true, decide_eq_true_eq]; omega)

/-! ## what the events say -/

/-- A state without what the connection writes: its status, its error, and when an event was heard. -/
def DurableRunState.core (s : DurableRunState) : DurableRunState :=
  { s with subscriptionStatus := .idle, error := none, events := s.events.map (fun e => { e with createdAt := "" }) }

theorem core_apply {s t : DurableRunState} (h : s.core = t.core) (runId now now' : String) (row : LogRow) :
    (s.apply (frameEvent runId now row)).core = (t.apply (frameEvent runId now' row)).core := by
  obtain ⟨hrun, hstatus, -, -, hevents, hpaused, hblocked, -⟩ := DurableRunState.mk.inj h
  have hpatch : (frameEvent runId now row).patch = (frameEvent runId now' row).patch := rfl
  simp only [DurableRunState.apply, DurableRunState.core, hrun, hstatus, hpaused, hblocked, hpatch, List.map_append, hevents]
  rfl

/-- The rows between two cursors, taken in without a break. -/
def Hook.replayed (h : Hook) (hi : Int) : DurableRunState :=
  applyAll (subscribed h.runId h.initial) ((between h.log h.initial hi).map (frameEvent h.runId ""))

/-! ## the invariant -/

/-- The cursor of a row, or the beginning. -/
def Hook.Known (h : Hook) (n : Int) : Prop := n = 0 ∨ ∃ r ∈ h.log, r.sequence = n

/-- At a cursor that is passed, the events said that the run was over. -/
def Hook.Ended (h : Hook) : Prop := ∃ n, h.initial ≤ n ∧ n ≤ h.cursorRef ∧ reconnectionShouldStop (h.replayed n) = true

structure Hook.Sound (h : Hook) : Prop where
  exact : h.state.core = (h.replayed h.cursorRef).core
  cursor : h.state.cursor = h.cursorRef
  past : h.initial ≤ h.cursorRef
  known : h.Known h.cursorRef
  memory : h.kept.memory.getD 0 = h.cursorRef
  shown : ∃ n, h.initial ≤ n ∧ n ≤ h.cursorRef ∧ h.shown.core = (h.replayed n).core
  /-- What is on its way is what lies between the cursor and the last row that was sent. -/
  underway : ∀ st, h.stream = some st →
    st.cursor = h.cursorRef ∧ h.cursorRef ≤ st.sent ∧ h.Known st.sent ∧ st.frames = between h.log h.cursorRef st.sent

/-- A stream is open, or a reconnect is due, or there is nothing to come. -/
def Hook.GoesOn (h : Hook) : Prop := h.stream.isSome ∨ (∃ d, h.timer = some d ∧ d ≤ 30000) ∨ h.Ended

structure Hook.Inv (h : Hook) : Prop where
  ascending : Ascending h.log
  positive : ∀ r ∈ h.log, 0 < r.sequence
  kept : ∀ n, h.kept.memory = some n ∨ h.kept.storage = some n → h.Known n
  live : h.mounted = true → h.Sound ∧ h.GoesOn
  left : h.mounted = false → h.stream = none ∧ h.timer = none

section
variable {h h' : Hook}

theorem ended_of_shown (hs : h.Sound) (hstop : reconnectionShouldStop h.shown = true) : h.Ended := by
  obtain ⟨n, hlo, hhi, hshown⟩ := hs.shown
  have hstatus : h.shown.runStatus = (h.replayed n).runStatus := congrArg (·.runStatus) hshown
  refine ⟨n, hlo, hhi, ?_⟩
  rwa [reconnectionShouldStop, ← hstatus]

theorem Hook.Known.lt {n : Int} {row : LogRow} (hn : h.Known n) (hpos : 0 < row.sequence)
    (hlog : ∀ r ∈ h.log, r.sequence < row.sequence) : n < row.sequence := by
  rcases hn with rfl | ⟨r, hr, rfl⟩
  · exact hpos
  · exact hlog r hr

/-- **A frame is taken in.** -/
theorem receives_keeps (hi : h.Inv) (hs : h.Sound) {cursor sent : Int} {row : LogRow} {frames : List LogRow}
    (hst : h.stream = some ⟨cursor, sent, row :: frames⟩) (now : String) (saves : Bool) :
    let h₁ := advance saves (max cursor row.sequence)
      (onEvent now saves row { h with stream := some ⟨max cursor row.sequence, sent, frames⟩ })
    h₁.Sound ∧ h₁.log = h.log ∧ h₁.mounted = h.mounted ∧ h₁.stream.isSome ∧
      ∀ n, h₁.kept.memory = some n ∨ h₁.kept.storage = some n → n = row.sequence ∨ h.kept.storage = some n := by
  obtain ⟨rfl, hsent, hknown, hframes⟩ := hs.underway _ hst
  have hmem : row ∈ between h.log h.cursorRef sent := hframes ▸ List.mem_cons_self
  obtain ⟨hlog, hbounds⟩ := List.mem_filter.1 hmem
  rw [Bool.and_eq_true, decide_eq_true_eq, decide_eq_true_eq] at hbounds
  have hpos : ¬ row.sequence < 0 := by
    have := hi.positive row hlog
    omega
  have hone : between h.log h.cursorRef row.sequence = [row] := between_head hi.ascending hframes.symm (fun r _ hr => by
    simp only [Bool.and_eq_true, decide_eq_true_eq]
    omega)
  have hrest : frames = between h.log row.sequence sent := by
    have happend := between_append (le_of_lt hbounds.1) hbounds.2 hi.ascending
    rw [hone, ← hframes] at happend
    exact (List.cons.inj happend).2.symm
  have htaken : between h.log h.initial row.sequence = between h.log h.initial h.cursorRef ++ [row] := by
    rw [← hone, between_append hs.past (le_of_lt hbounds.1) hi.ascending]
  have hrun : h.state.runId = h.runId := by
    have hruns : h.state.runId = (h.replayed h.cursorRef).runId := congrArg (·.runId) hs.exact
    exact hruns.trans (applyAll_runId _ _)
  have hcursors : h.state.cursor = (h.replayed h.cursorRef).cursor := congrArg (·.cursor) hs.exact
  have hfresh : ∀ {s : DurableRunState} (time : String), s.runId = h.runId → s.cursor = h.cursorRef →
      applyEvent s (frameEvent h.runId time row) = s.apply (frameEvent h.runId time row) := by
    intro s time hid hcur
    refine applyEvent_of_not_skips (not_or.2 ⟨not_not.2 hid.symm, ?_⟩)
    rw [hcur]
    exact Int.not_le.2 hbounds.1
  have hreplayed : h.replayed row.sequence = (h.replayed h.cursorRef).apply (frameEvent h.runId "" row) := by
    rw [Hook.replayed, htaken, List.map_append, List.map_singleton, applyAll_snoc]
    exact hfresh "" (applyAll_runId _ _) (hcursors.symm.trans hs.cursor)
  have hwrite : writeCursor saves h.kept row.sequence =
      { memory := some row.sequence, storage := if saves then some row.sequence else h.kept.storage } := by
    rw [writeCursor, if_neg (by rw [hs.memory]; omega)]
  have hmax : max h.cursorRef row.sequence = row.sequence := max_eq_right (le_of_lt hbounds.1)
  obtain ⟨n, hlo, hn, hshown⟩ := hs.shown
  simp only [onEvent, if_neg hpos, advance, if_pos hbounds.1, hmax, lt_irrefl, if_false, hwrite, hfresh now hrun hs.cursor]
  refine ⟨{
    exact := (core_apply hs.exact h.runId now "" row).trans (congrArg DurableRunState.core hreplayed).symm
    cursor := rfl
    past := by have := hs.past; dsimp only; omega
    known := .inr ⟨row, hlog, rfl⟩
    memory := rfl
    shown := ⟨n, hlo, by dsimp only; omega, hshown⟩
    underway := by
      rintro _ ⟨⟩
      exact ⟨rfl, hbounds.2, hknown, hrest⟩ }, trivial, trivial, rfl, fun m hm => ?_⟩
  rcases hm with hm | hm
  · exact .inl (Option.some.inj hm).symm
  · cases saves with
    | true => exact .inl (Option.some.inj hm).symm
    | false => exact .inr hm

theorem commits_keeps (hi : h.Inv) {row : LogRow} (hpos : 0 < row.sequence) (hnew : ∀ r ∈ h.log, r.sequence < row.sequence) :
    ({ h with log := h.log ++ [row] } : Hook).Inv := by
  have hknown : ∀ n, h.Known n → ({ h with log := h.log ++ [row] } : Hook).Known n :=
    fun n hn => hn.imp_right (fun ⟨r, hr, heq⟩ => ⟨r, List.mem_append_left _ hr, heq⟩)
  have hreplayed : ∀ n, n < row.sequence → ({ h with log := h.log ++ [row] } : Hook).replayed n = h.replayed n := by
    intro n hn
    unfold Hook.replayed
    rw [between_commit hn]
  refine ⟨List.pairwise_append.2 ⟨hi.ascending, List.pairwise_singleton _ _, ?_⟩, ?_, fun n hn => hknown n (hi.kept n hn),
    fun hm => ?_, hi.left⟩
  · intro r hr r' hr'
    cases List.mem_singleton.1 hr'
    exact hnew r hr
  · intro r hr
    rcases List.mem_append.1 hr with hr | hr
    · exact hi.positive r hr
    · cases List.mem_singleton.1 hr
      exact hpos
  · obtain ⟨hs, hgoes⟩ := hi.live hm
    have hcursor := hs.known.lt hpos hnew
    constructor
    · obtain ⟨n, hlo, hn, hshown⟩ := hs.shown
      refine { hs with
        exact := by rw [hreplayed _ hcursor]; exact hs.exact
        known := hknown _ hs.known
        shown := ⟨n, hlo, hn, by rw [hreplayed n (lt_of_le_of_lt hn hcursor)]; exact hshown⟩
        underway := fun st hst => ?_ }
      obtain ⟨hcur, hsent, hk, hframes⟩ := hs.underway st hst
      exact ⟨hcur, hsent, hknown _ hk, by rw [between_commit (hk.lt hpos hnew)]; exact hframes⟩
    · refine hgoes.imp_right (Or.imp_right ?_)
      rintro ⟨n, hlo, hn, hstop⟩
      exact ⟨n, hlo, hn, by rw [hreplayed n (lt_of_le_of_lt hn hcursor)]; exact hstop⟩

/-- Whoever mounts begins with an empty state at the cursor that is kept. -/
theorem mounts_keeps (hi : h.Inv) :
    (∀ n, (readCursor h.kept).1.memory = some n ∨ (readCursor h.kept).1.storage = some n → h.Known n) ∧
      h.Known (readCursor h.kept).2 ∧ (readCursor h.kept).1.memory.getD 0 = (readCursor h.kept).2 := by
  unfold readCursor
  split
  · rename_i cursor hmem
    exact ⟨hi.kept, hi.kept cursor (.inl hmem), by rw [hmem]; rfl⟩
  · rename_i hmem
    split
    · rename_i cursor hstored
      split
      · refine ⟨fun n hn => hi.kept n (.inr (hn.elim (fun heq => ?_) id)), hi.kept cursor (.inr hstored), rfl⟩
        cases heq
        exact hstored
      · exact ⟨hi.kept, .inl rfl, by rw [hmem]; rfl⟩
    · exact ⟨hi.kept, .inl rfl, by rw [hmem]; rfl⟩

theorem replayed_initial (h : Hook) : h.replayed h.initial = subscribed h.runId h.initial := by
  unfold Hook.replayed
  rw [between_self]
  rfl

theorem inv_of_log (hi : h.Inv) (hlog : h'.log = h.log)
    (hkept : ∀ n, h'.kept.memory = some n ∨ h'.kept.storage = some n → h.Known n)
    (hlive : h'.mounted = true → h'.Sound ∧ h'.GoesOn) (hleft : h'.mounted = false → h'.stream = none ∧ h'.timer = none) :
    h'.Inv := by
  refine ⟨hlog ▸ hi.ascending, hlog ▸ hi.positive, fun n hn => ?_, hlive, hleft⟩
  have := hkept n hn
  rwa [Hook.Known, ← hlog] at this

theorem inv_connect (hi : h.Inv) (hlog : h'.log = h.log) (hm : h'.mounted = true)
    (hkept : ∀ n, h'.kept.memory = some n ∨ h'.kept.storage = some n → h.Known n) (hs : h'.Sound) : (connect h').Inv := by
  have hleft : ∀ {P : Prop}, h'.mounted = false → P := fun hno => nomatch hm.symm.trans hno
  unfold connect
  split
  · rename_i hstop
    have hended := ended_of_shown hs hstop
    exact inv_of_log hi hlog hkept (fun _ => ⟨{ hs with }, .inr (.inr hended)⟩) hleft
  · refine inv_of_log hi hlog hkept (fun _ => ⟨{ hs with underway := ?_ }, .inl rfl⟩) hleft
    rintro _ ⟨⟩
    exact ⟨rfl, le_refl _, hs.known, (between_self _ _).symm⟩

theorem inv_scheduleReconnect (hi : h.Inv) (hlog : h'.log = h.log) (hm : h'.mounted = true) (hkept : h'.kept = h.kept)
    (hs : h'.Sound) : (scheduleReconnect h').Inv := by
  have hkept : ∀ n, h'.kept.memory = some n ∨ h'.kept.storage = some n → h.Known n := hkept ▸ hi.kept
  have hleft : ∀ {P : Prop}, h'.mounted = false → P := fun hno => nomatch hm.symm.trans hno
  unfold scheduleReconnect
  split
  · rename_i hstop
    exact inv_of_log hi hlog hkept (fun _ => ⟨hs, .inr (.inr (ended_of_shown hs hstop))⟩) hleft
  · exact inv_of_log hi hlog hkept (fun _ => ⟨{ hs with }, .inr (.inl ⟨_, rfl, Nat.min_le_left _ _⟩)⟩) hleft

theorem mounted_of_stream (hi : h.Inv) {st : Stream} (hst : h.stream = some st) : h.mounted = true := by
  cases hm : h.mounted with
  | true => rfl
  | false =>
    rw [(hi.left hm).1] at hst
    cases hst

theorem inv_step (hi : h.Inv) {act : Act} (hstep : step h act = some h') : h'.Inv := by
  cases act with
  | commits row =>
    obtain ⟨⟨hpos, hnew⟩, heq⟩ := Option.ite_none_right_eq_some.1 hstep
    cases heq
    exact commits_keeps hi hpos hnew
  | mounts =>
    obtain ⟨hkept, hknown, hmem⟩ := mounts_keeps hi
    obtain ⟨-, heq⟩ := Option.ite_none_left_eq_some.1 hstep
    have heq := Option.some.inj heq
    generalize readCursor h.kept = read at hkept hknown hmem heq
    have hbegin := congrArg DurableRunState.core (replayed_initial { h with initial := read.2 }).symm
    subst heq
    exact inv_connect hi rfl rfl hkept ⟨hbegin, rfl, le_refl _, hknown, hmem, ⟨read.2, le_refl _, le_refl _, hbegin⟩, nofun⟩
  | unmounts =>
    cases hstep
    exact inv_of_log hi rfl hi.kept nofun (fun _ => ⟨rfl, rfl⟩)
  | reloads =>
    cases hstep
    exact inv_of_log hi rfl (fun n hn => hi.kept n (.inr (hn.resolve_left nofun))) nofun (fun _ => ⟨rfl, rfl⟩)
  | clears =>
    cases hstep
    exact inv_of_log hi rfl (fun _ hn => hn.elim nofun nofun) nofun (fun _ => ⟨rfl, rfl⟩)
  | otherTab cursor =>
    obtain ⟨hmem, heq⟩ := Option.ite_none_right_eq_some.1 hstep
    cases heq
    obtain ⟨r, hr, rfl⟩ := List.mem_map.1 hmem
    refine inv_of_log hi rfl (fun n hn => ?_) (fun hm => ⟨{ (hi.live hm).1 with }, (hi.live hm).2⟩) hi.left
    rcases hn with hn | hn
    · exact hi.kept n (.inl hn)
    · cases hn
      exact .inr ⟨r, hr, rfl⟩
  | renders =>
    cases hstep
    refine inv_of_log hi rfl hi.kept (fun hm => ?_) hi.left
    obtain ⟨hs, hgoes⟩ := hi.live hm
    exact ⟨{ hs with shown := ⟨h.cursorRef, hs.past, le_refl _, hs.exact⟩ }, hgoes⟩
  | fires =>
    obtain ⟨delay, htimer, heq⟩ := Option.map_eq_some_iff.1 hstep
    cases heq
    have hm : h.mounted = true := by
      cases hm : h.mounted with
      | true => rfl
      | false =>
        rw [(hi.left hm).2] at htimer
        cases htimer
    exact inv_connect hi rfl hm hi.kept { (hi.live hm).1 with }
  | sends =>
    obtain ⟨⟨cursor, sent, frames⟩, hst, hsend⟩ := Option.bind_eq_some_iff.1 hstep
    obtain ⟨row, hrow, heq⟩ := Option.bind_eq_some_iff.1 hsend
    cases heq
    have hm := mounted_of_stream hi hst
    have hs := (hi.live hm).1
    obtain ⟨hcur, hle, -, hframes⟩ := hs.underway _ hst
    obtain ⟨rest, hrest⟩ := List.head?_eq_some_iff.1 hrow
    have hmem : row ∈ h.log.filter (fun r => sent < r.sequence) := hrest ▸ List.mem_cons_self
    obtain ⟨hlog, hlt⟩ := List.mem_filter.1 hmem
    have hlt : sent < row.sequence := of_decide_eq_true hlt
    refine inv_of_log hi rfl hi.kept (fun _ => ⟨{ hs with underway := ?_ }, .inl rfl⟩) (fun hno => nomatch hm.symm.trans hno)
    rintro _ ⟨⟩
    refine ⟨hcur, le_trans hle (le_of_lt hlt), .inr ⟨row, hlog, rfl⟩, ?_⟩
    show frames ++ [row] = between h.log h.cursorRef row.sequence
    rw [← between_append hle (le_of_lt hlt) hi.ascending, ← hframes,
      between_head hi.ascending hrest (fun r _ _ => decide_eq_true_iff)]
  | receives now saves =>
    unfold step at hstep
    dsimp only at hstep
    split at hstep
    · rename_i cursor sent row frames hst
      have hm := mounted_of_stream hi hst
      obtain ⟨hs, hlog, hm', hopen, hkept⟩ := receives_keeps hi (hi.live hm).1 hst now saves
      cases hstep
      refine inv_of_log hi hlog (fun n hn => ?_) (fun _ => ⟨hs, .inl hopen⟩) (fun hno => nomatch (hm'.trans hm).symm.trans hno)
      rcases hkept n hn with rfl | hold
      · have hframes := ((hi.live hm).1.underway _ hst).2.2.2
        have hmem : row ∈ between h.log h.cursorRef sent := hframes ▸ List.mem_cons_self
        exact .inr ⟨row, (List.mem_filter.1 hmem).1, rfl⟩
      · exact hi.kept n (.inr hold)
    · cases hstep
  | disconnects =>
    obtain ⟨st, hst, heq⟩ := Option.map_eq_some_iff.1 hstep
    cases heq
    have hm := mounted_of_stream hi hst
    exact inv_scheduleReconnect hi rfl hm rfl { (hi.live hm).1 with underway := nofun }
  | fails message =>
    obtain ⟨st, hst, heq⟩ := Option.map_eq_some_iff.1 hstep
    cases heq
    have hm := mounted_of_stream hi hst
    exact inv_scheduleReconnect hi rfl hm rfl { (hi.live hm).1 with underway := nofun }

end

theorem inv_start (runId : String) : (Hook.start runId).Inv :=
  ⟨.nil, nofun, fun _ hn => hn.elim nofun nofun, nofun, fun _ => ⟨rfl, rfl⟩⟩

/-! ## the subscription -/

/-- **What a client that is mounted knows of the run**, whatever has happened to its connections. -/
structure Hook.Faithful (h : Hook) : Prop where
  /-- Its state is that of the rows past the cursor it began with, up to its own, each taken in once and in order. -/
  exact : h.state.core = (h.replayed h.cursorRef).core
  /-- A reconnect asks for what lies past the cursor of the state, and so does the next mount of this page. -/
  cursor : h.state.cursor = h.cursorRef ∧ h.kept.memory.getD 0 = h.cursorRef
  /-- Nothing is missing between the cursor and what the server has sent. -/
  underway : ∀ st, h.stream = some st → st.frames = between h.log h.cursorRef st.sent
  goesOn : h.GoesOn

/-- **No event is lost, and none is taken in twice**, across disconnects, errors, mounts and loads of the page. -/
theorem subscription_faithful (runId : String) (h : Hook) (hreach : Reaches step (.start runId) h) (hm : h.mounted = true) :
    h.Faithful := by
  have hi : h.Inv := hreach.invariant (inv_start runId) (fun _ _ _ hi _ hstep => inv_step hi hstep)
  obtain ⟨hs, hgoes⟩ := hi.live hm
  exact ⟨hs.exact, ⟨hs.cursor, hs.memory⟩, fun st hst => (hs.underway st hst).2.2.2, hgoes⟩

/-- A frame is lost with its connection and comes again. -/
def frameLost : List Act :=
  [.commits ⟨1, "run_started", []⟩, .mounts, .sends, .receives "t0" true, .commits ⟨2, "run_paused", []⟩, .sends, .disconnects,
    .reloads, .mounts, .sends, .receives "t1" false]

theorem subscription_faithful_frameLost : (Trace.play step (.start "r1") frameLost).Faithful :=
  subscription_faithful "r1" _ (Trace.reaches_play (by decide)) (by decide)

end RunEvents
end Client
end MyGpt
