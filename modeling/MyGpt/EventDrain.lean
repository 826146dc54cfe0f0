import MyGpt.Lib.Trace
import Mathlib.Data.List.Basic
/-!
# EventDrain — the events of a run, and the end of them

The stages of a run, in threads of their own too, hand events to the loop; a callback puts each into the bounded queue,
and the runtime drains the queue until it reads the end marker.  The put is lossy, and the marker goes through it like
the events: a marker that meets a full queue is lost, and the drainer waits for ever (`marker_lost`).  Where the marker
and the structural events find room, the end is seen and all of these events before it (`drain_sees_end`).
-/
namespace MyGpt
namespace Drain

open Trace (Runs Reaches)

inductive EventKind
  | agentGraph
  | agentStatus
  | agentEdge
  | runStatus
  | toolCall
  | toolResult
  | other (name : String)
  deriving DecidableEq

structure AgentEvent where
  kind : EventKind
  agentId : String := ""
  id : String := ""
  data : String := ""
  deriving DecidableEq

def AgentEvent.structural (e : AgentEvent) : Bool :=
  e.kind = .agentStatus || e.kind = .agentEdge || e.kind = .runStatus

def queueMax : Nat := 512

structure StageContext where
  /-- The callbacks the loop has yet to run, in the order of `call_soon_threadsafe`; `none` is the end marker. -/
  scheduled : List (Option AgentEvent) := []
  queue : List (Option AgentEvent) := []
  seenToolCalls : List (String × String) := []
  dropped : Nat := 0
  dropWarned : Bool := false

def StageContext.callSoon (ctx : StageContext) (item : Option AgentEvent) : StageContext :=
  { ctx with scheduled := ctx.scheduled ++ [item] }

/-- `emit`; `permits`: the budget gate of a tool event does not raise. -/
def StageContext.emit (ctx : StageContext) (e : AgentEvent) (permits : Bool) : StageContext :=
  match e.kind with
  | .toolCall =>
    if e.id ≠ "" ∧ ctx.seenToolCalls.contains (e.agentId, e.id) then ctx
    else if permits = false then ctx
    else
      let seen := if e.id = "" then ctx.seenToolCalls else (e.agentId, e.id) :: ctx.seenToolCalls
      { ctx with seenToolCalls := seen }.callSoon (some e)
  | .toolResult => if permits then ctx.callSoon (some e) else ctx
  | _ => ctx.callSoon (some e)

def StageContext.close (ctx : StageContext) : StageContext := ctx.callSoon none

def StageContext.putNowait (ctx : StageContext) (item : Option AgentEvent) : StageContext :=
  if ctx.queue.length < queueMax then { ctx with queue := ctx.queue ++ [item] }
  else { ctx with dropped := ctx.dropped + 1, dropWarned := true }

structure Run where
  ctx : StageContext := {}
  closed : Bool := false
  delivered : List AgentEvent := []
  ended : Bool := false
  /-- Kept for the statements: the events emitted before `close`. -/
  emitted : List AgentEvent := []

inductive Act
  | emit (e : AgentEvent) (permits : Bool)
  | close
  | callback
  /-- The drainer's `queue.get()` returns. -/
  | get

def step (s : Run) : Act → Option Run
  | .emit e permits =>
    some { s with ctx := s.ctx.emit e permits, emitted := if s.closed then s.emitted else s.emitted ++ [e] }
  | .close => if s.closed then none else some { s with ctx := s.ctx.close, closed := true }
  | .callback =>
    match s.ctx.scheduled with
    | [] => none
    | item :: rest => some { s with ctx := { s.ctx with scheduled := rest }.putNowait item }
  | .get =>
    match s.ended, s.ctx.queue with
    | false, some e :: rest =>
      some { s with ctx := { s.ctx with queue := rest }, delivered := s.delivered ++ [e] }
    | false, none :: rest => some { s with ctx := { s.ctx with queue := rest }, ended := true }
    | _, _ => none

/-- `close` has been processed. -/
def Run.closeProcessed (s : Run) : Prop := s.closed = true ∧ none ∉ s.ctx.scheduled

/-- **The drain sees the end**: the marker waits for the drainer; what the drainer has yielded is a beginning of the
structural events before `close`, in their order, and all of them once it has read the marker. -/
structure Run.SeesEnd (s : Run) : Prop where
  marker : s.closeProcessed → s.ended = false → none ∈ s.ctx.queue
  inOrder : s.delivered.filter (·.structural) <+: s.emitted.filter (·.structural)
  all : s.ended = true → s.delivered.filter (·.structural) = s.emitted.filter (·.structural)

def FindsRoom (s : Run) : Act → Prop
  | .callback => ∀ item rest, s.ctx.scheduled = item :: rest → ¬s.closeProcessed →
      item.all (·.structural) = true → s.ctx.queue.length < queueMax
  | _ => True

/-! ## what is on its way -/

def ahead (items : List (Option AgentEvent)) : List AgentEvent :=
  ((items.takeWhile (·.isSome)).filterMap id).filter (·.structural)

theorem ahead_cons (e : AgentEvent) (items : List (Option AgentEvent)) :
    ahead (some e :: items) = (if e.structural then [e] else []) ++ ahead items := by
  unfold ahead
  rw [List.takeWhile_cons_of_pos (by rfl), List.filterMap_cons_some (by rfl), List.filter_cons]
  split <;> rfl

theorem ahead_marker (items : List (Option AgentEvent)) : ahead (none :: items) = [] := rfl

theorem ahead_append_of_mem {items : List (Option AgentEvent)} (h : none ∈ items) (more : List (Option AgentEvent)) :
    ahead (items ++ more) = ahead items := by
  induction items with
  | nil => cases h
  | cons item items ih =>
    cases item with
    | none => rfl
    | some e =>
      rw [List.cons_append, ahead_cons, ahead_cons, ih (by simpa using h)]

theorem ahead_append {items : List (Option AgentEvent)} (h : none ∉ items) (more : List (Option AgentEvent)) :
    ahead (items ++ more) = ahead items ++ ahead more := by
  induction items with
  | nil => rfl
  | cons item items ih =>
    cases item with
    | none => simp at h
    | some e =>
      rw [List.cons_append, ahead_cons, ahead_cons, ih (by simpa using h), List.append_assoc]

theorem ahead_drop {e : AgentEvent} (he : e.structural = false) (before after : List (Option AgentEvent)) :
    ahead (before ++ some e :: after) = ahead (before ++ after) := by
  by_cases h : none ∈ before
  · rw [ahead_append_of_mem h, ahead_append_of_mem h]
  · rw [ahead_append h, ahead_append h, ahead_cons, he]
    rfl

/-! ## every run -/

def Run.pending (s : Run) : List (Option AgentEvent) := s.ctx.queue ++ s.ctx.scheduled

/-- Where the marker is: nowhere before `close`, and among what is pending from then on until it is read. -/
structure MarkerInv (s : Run) : Prop where
  opened : s.closed = false → none ∉ s.pending ∧ s.ended = false
  marked : s.closed = true → s.ended = false → none ∈ s.pending

structure Inv (s : Run) : Prop where
  marker : MarkerInv s
  flow : s.delivered.filter (·.structural) ++ (if s.ended then [] else ahead s.pending) =
    s.emitted.filter (·.structural)

def MarkerFindsRoom (s : Run) : Act → Prop
  | .callback => ∀ rest, s.ctx.scheduled = none :: rest → s.ctx.queue.length < queueMax
  | _ => True

theorem markerFindsRoom_of {s : Run} {act : Act} (h : FindsRoom s act) : MarkerFindsRoom s act := by
  cases act with
  | callback =>
    intro rest hscheduled
    refine h none rest hscheduled (fun hprocessed => hprocessed.2 ?_) rfl
    rw [hscheduled]
    exact List.mem_cons_self ..
  | _ => trivial

theorem emit_cases (ctx : StageContext) (e : AgentEvent) (permits : Bool) :
    ((ctx.emit e permits).queue = ctx.queue ∧ (ctx.emit e permits).scheduled = ctx.scheduled ∧ e.structural = false) ∨
      ((ctx.emit e permits).queue = ctx.queue ∧ (ctx.emit e permits).scheduled = ctx.scheduled ++ [some e]) := by
  have hstructural : ∀ kind, e.kind = kind → e.structural = (kind = .agentStatus || kind = .agentEdge || kind = .runStatus) := by
    rintro kind rfl
    rfl
  unfold StageContext.emit
  split
  · rename_i hkind
    have hnot : e.structural = false := by rw [hstructural _ hkind]; decide
    split
    · exact .inl ⟨rfl, rfl, hnot⟩
    split
    · exact .inl ⟨rfl, rfl, hnot⟩
    · exact .inr ⟨rfl, rfl⟩
  · rename_i hkind
    have hnot : e.structural = false := by rw [hstructural _ hkind]; decide
    split
    · exact .inr ⟨rfl, rfl⟩
    · exact .inl ⟨rfl, rfl, hnot⟩
  · exact .inr ⟨rfl, rfl⟩

theorem emit_pending (s : Run) (e : AgentEvent) (permits : Bool) :
    ((s.ctx.emit e permits).queue ++ (s.ctx.emit e permits).scheduled = s.pending ∧ e.structural = false) ∨
      (s.ctx.emit e permits).queue ++ (s.ctx.emit e permits).scheduled = s.pending ++ [some e] := by
  rcases emit_cases s.ctx e permits with ⟨hqueue, hscheduled, hnot⟩ | ⟨hqueue, hscheduled⟩
  · left
    rw [hqueue, hscheduled]
    exact ⟨rfl, hnot⟩
  · right
    rw [hqueue, hscheduled, ← List.append_assoc]
    rfl

theorem callback_pending {s : Run} {item : Option AgentEvent} {rest : List (Option AgentEvent)}
    (h : s.ctx.scheduled = item :: rest) :
    s.pending = s.ctx.queue ++ item :: rest ∧
      let ctx := StageContext.putNowait { s.ctx with scheduled := rest } item
      ctx.queue ++ ctx.scheduled = s.pending ∨
        (¬s.ctx.queue.length < queueMax ∧ ctx.queue ++ ctx.scheduled = s.ctx.queue ++ rest) := by
  have hbefore : s.pending = s.ctx.queue ++ item :: rest := by
    unfold Run.pending
    rw [h]
  refine ⟨hbefore, ?_⟩
  unfold StageContext.putNowait
  split
  · left
    rw [hbefore, List.append_assoc]
    rfl
  · rename_i hfull
    exact .inr ⟨hfull, rfl⟩

/-! ## what a step does -/

inductive Move (s : Run) : Act → Run → Prop
  | emit (e : AgentEvent) (permits : Bool) : Move s (.emit e permits)
      { s with ctx := s.ctx.emit e permits, emitted := if s.closed then s.emitted else s.emitted ++ [e] }
  | close : s.closed = false → Move s .close { s with ctx := s.ctx.close, closed := true }
  | callback {item : Option AgentEvent} {rest : List (Option AgentEvent)} : s.ctx.scheduled = item :: rest →
      Move s .callback { s with ctx := { s.ctx with scheduled := rest }.putNowait item }
  | read {e : AgentEvent} {rest : List (Option AgentEvent)} : s.ended = false → s.ctx.queue = some e :: rest →
      Move s .get { s with ctx := { s.ctx with queue := rest }, delivered := s.delivered ++ [e] }
  | readEnd {rest : List (Option AgentEvent)} : s.ended = false → s.ctx.queue = none :: rest →
      Move s .get { s with ctx := { s.ctx with queue := rest }, ended := true }

theorem move_of_step {s s' : Run} {act : Act} (h : step s act = some s') : Move s act s' := by
  cases act with
  | emit e permits =>
    cases h
    exact .emit e permits
  | close =>
    simp only [step] at h
    split at h
    · cases h
    · rename_i hopen
      cases h
      exact .close (by simpa using hopen)
  | callback =>
    simp only [step] at h
    split at h
    · cases h
    · rename_i hscheduled
      cases h
      exact .callback hscheduled
  | get =>
    simp only [step] at h
    split at h
    · rename_i hended hqueue
      cases h
      exact .read hended hqueue
    · rename_i hended hqueue
      cases h
      exact .readEnd hended hqueue
    · cases h

theorem closed_of_step {s s' : Run} {act : Act} (hact : act ≠ .close) (h : step s act = some s') : s'.closed = s.closed := by
  cases move_of_step h with
  | close => exact absurd rfl hact
  | _ => rfl

theorem pending_read {s : Run} {item : Option AgentEvent} {rest : List (Option AgentEvent)}
    (hqueue : s.ctx.queue = item :: rest) : s.pending = item :: (rest ++ s.ctx.scheduled) := by
  unfold Run.pending
  rw [hqueue]
  rfl

theorem mem_emit_pending {s : Run} (e : AgentEvent) (permits : Bool) :
    none ∈ (s.ctx.emit e permits).queue ++ (s.ctx.emit e permits).scheduled ↔ none ∈ s.pending := by
  rcases emit_pending s e permits with ⟨hsame, -⟩ | hmore
  · rw [hsame]
  · rw [hmore]
    simp

theorem gone_of_step {s s' : Run} {act : Act} (hclosed : s.closed = true) (hgone : none ∉ s.pending)
    (hended : s.ended = false) (h : step s act = some s') : none ∉ s'.pending ∧ s'.ended = false := by
  cases move_of_step h with
  | emit e permits => exact ⟨fun hmem => hgone ((mem_emit_pending e permits).1 hmem), hended⟩
  | close hopen => exact absurd (hopen.symm.trans hclosed) Bool.false_ne_true
  | callback hscheduled =>
    refine ⟨?_, hended⟩
    show none ∉ _ ++ _
    obtain ⟨hbefore, hsame | ⟨-, hlost⟩⟩ := callback_pending hscheduled
    · rw [hsame]
      exact hgone
    · rw [hlost]
      rw [hbefore] at hgone
      simp only [List.mem_append, List.mem_cons, not_or] at hgone ⊢
      exact ⟨hgone.1, hgone.2.2⟩
  | read _ hqueue =>
    rw [pending_read hqueue] at hgone
    exact ⟨fun hmem => hgone (List.mem_cons_of_mem _ hmem), hended⟩
  | readEnd _ hqueue =>
    rw [pending_read hqueue] at hgone
    exact absurd (List.mem_cons_self ..) hgone

/-! ## the marker -/

theorem markerInv_step {s s' : Run} {act : Act} (hs : MarkerInv s) (hok : MarkerFindsRoom s act)
    (h : step s act = some s') : MarkerInv s' := by
  cases move_of_step h with
  | emit e permits =>
    refine ⟨fun hopen => ?_, fun hclosed hended => (mem_emit_pending e permits).2 (hs.marked hclosed hended)⟩
    obtain ⟨hno, hended⟩ := hs.opened hopen
    exact ⟨fun hin => hno ((mem_emit_pending e permits).1 hin), hended⟩
  | close =>
    refine ⟨nofun, fun _ _ => ?_⟩
    show none ∈ s.ctx.queue ++ (s.ctx.scheduled ++ [none])
    simp
  | @callback item rest hscheduled =>
    obtain ⟨hbefore, hsame | ⟨hfull, hlost⟩⟩ := callback_pending hscheduled
    · refine ⟨fun hopen => ?_, fun hclosed hended => ?_⟩
      · show none ∉ _ ++ _ ∧ _
        rw [hsame]
        exact hs.opened hopen
      · show none ∈ _ ++ _
        rw [hsame]
        exact hs.marked hclosed hended
    · have hitem : item ≠ none := by
        rintro rfl
        exact hfull (hok rest hscheduled)
      have hmem : none ∈ s.pending ↔ none ∈ s.ctx.queue ++ rest := by
        rw [hbefore]
        simp [hitem.symm]
      refine ⟨fun hopen => ?_, fun hclosed hended => ?_⟩
      · show none ∉ _ ++ _ ∧ _
        rw [hlost, ← hmem]
        exact hs.opened hopen
      · show none ∈ _ ++ _
        rw [hlost, ← hmem]
        exact hs.marked hclosed hended
  | read hended hqueue =>
    refine ⟨fun hopen => ?_, fun hclosed hopen => ?_⟩
    · obtain ⟨hno, -⟩ := hs.opened hopen
      rw [pending_read hqueue] at hno
      exact ⟨fun hmem => hno (List.mem_cons_of_mem _ hmem), hended⟩
    · have hmem := hs.marked hclosed hopen
      rw [pending_read hqueue] at hmem
      exact List.mem_of_ne_of_mem (by simp) hmem
  | readEnd hended hqueue =>
    refine ⟨fun hopen => ?_, nofun⟩
    obtain ⟨hno, -⟩ := hs.opened hopen
    rw [pending_read hqueue] at hno
    exact absurd (List.mem_cons_self ..) hno

/-- **The drainer gets to the end**: it reads what is in the queue, and when there is nothing the loop brings the next
item, which finds room. -/
theorem drains_to_end : ∀ (n : Nat) {s : Run}, 2 * s.pending.length + s.ctx.scheduled.length ≤ n → MarkerInv s →
    s.closed = true → s.ended = false →
    ∃ acts s', (∀ act ∈ acts, act = .callback ∨ act = .get) ∧ Trace.exec step s acts = some s' ∧ s'.ended = true ∧
      MarkerInv s' := by
  intro n
  induction n with
  | zero =>
    intro s hn hs hclosed hended
    have hmem := hs.marked hclosed hended
    have hpos := List.length_pos_of_mem hmem
    omega
  | succ n ih =>
    intro s hn hs hclosed hended
    have hmem := hs.marked hclosed hended
    cases hqueue : s.ctx.queue with
    | cons item rest =>
      cases item with
      | none =>
        have hstep : step s .get = some { s with ctx := { s.ctx with queue := rest }, ended := true } := by
          simp [step, hended, hqueue]
        refine ⟨[.get], _, by simp, ?_, rfl, @markerInv_step s _ .get hs trivial hstep⟩
        show (step s .get).bind _ = _
        rw [hstep]
        rfl
      | some e =>
        have hstep : step s .get = some { s with
            ctx := { s.ctx with queue := rest }, delivered := s.delivered ++ [e] } := by
          simp [step, hended, hqueue]
        have hnext := @markerInv_step s _ .get hs trivial hstep
        have hlength : s.pending.length = (rest ++ s.ctx.scheduled).length + 1 := by rw [pending_read hqueue]; rfl
        obtain ⟨acts, s', hacts, hexec, hend⟩ := ih (by
          show 2 * (rest ++ s.ctx.scheduled).length + s.ctx.scheduled.length ≤ n
          omega) hnext hclosed hended
        refine ⟨.get :: acts, s', by simpa using hacts, ?_, hend⟩
        show (step s .get).bind _ = _
        rw [hstep]
        exact hexec
    | nil =>
      have hscheduled : none ∈ s.ctx.scheduled := by
        unfold Run.pending at hmem
        rw [hqueue] at hmem
        exact hmem
      cases hsch : s.ctx.scheduled with
      | nil =>
        rw [hsch] at hscheduled
        cases hscheduled
      | cons item rest =>
        have hroom : s.ctx.queue.length < queueMax := by rw [hqueue]; exact Nat.zero_lt_succ _
        have hput : StageContext.putNowait { s.ctx with scheduled := rest } item =
            { s.ctx with scheduled := rest, queue := s.ctx.queue ++ [item] } := if_pos hroom
        have hstep : step s .callback =
            some { s with ctx := { s.ctx with scheduled := rest, queue := s.ctx.queue ++ [item] } } := by
          simp only [step, hsch, hput]
        have hnext := @markerInv_step s _ .callback hs (fun _ _ => hroom) hstep
        have hlength : s.pending.length = rest.length + 1 := by
          unfold Run.pending
          rw [hqueue, hsch]
          rfl
        obtain ⟨acts, s', hacts, hexec, hend⟩ := ih (by
          show 2 * ((s.ctx.queue ++ [item]) ++ rest).length + rest.length ≤ n
          rw [hsch, List.length_cons] at hn
          rw [hqueue, List.nil_append, List.length_append, List.length_singleton]
          omega) hnext hclosed hended
        refine ⟨.callback :: acts, s', by simpa using hacts, ?_, hend⟩
        show (step s .callback).bind _ = _
        rw [hstep]
        exact hexec

theorem flow_emit {s : Run} (hs : Inv s) (e : AgentEvent) (permits : Bool) :
    s.delivered.filter (·.structural) ++
        (if s.ended then [] else ahead ((s.ctx.emit e permits).queue ++ (s.ctx.emit e permits).scheduled)) =
      (if s.closed then s.emitted else s.emitted ++ [e]).filter (·.structural) := by
  have hflow := hs.flow
  cases hclosed : s.closed with
  | true =>
    simp only [if_true]
    cases hended : s.ended with
    | true =>
      rw [hended] at hflow
      exact hflow
    | false =>
      rw [hended] at hflow
      simp only [Bool.false_eq_true, if_false] at hflow ⊢
      rcases emit_pending s e permits with ⟨hsame, -⟩ | hmore
      · rw [hsame, hflow]
      · rw [hmore, ahead_append_of_mem (hs.marker.marked hclosed hended), hflow]
  | false =>
    obtain ⟨hnone, hended⟩ := hs.marker.opened hclosed
    rw [hended] at hflow ⊢
    simp only [Bool.false_eq_true, if_false] at hflow ⊢
    rw [List.filter_append, ← hflow]
    rcases emit_pending s e permits with ⟨hsame, hnot⟩ | hmore
    · simp [hsame, hnot]
    · have hnew : ahead [some e] = [e].filter (·.structural) := by
        rw [ahead_cons, List.filter_cons]
        split <;> rfl
      rw [hmore, ahead_append hnone, hnew, List.append_assoc]

theorem flow_callback {s : Run} (hs : Inv s) {item : Option AgentEvent} {rest : List (Option AgentEvent)}
    (hscheduled : s.ctx.scheduled = item :: rest) (hroom : FindsRoom s .callback)
    (hfull : ¬s.ctx.queue.length < queueMax) (hended : s.ended = false) :
    ahead (s.ctx.queue ++ rest) = ahead (s.ctx.queue ++ item :: rest) := by
  by_cases hprocessed : s.closeProcessed
  · have hqueue : none ∈ s.ctx.queue := by
      rcases List.mem_append.1 (hs.marker.marked hprocessed.1 hended) with hmem | hmem
      · exact hmem
      · exact absurd hmem hprocessed.2
    rw [ahead_append_of_mem hqueue, ahead_append_of_mem hqueue]
  · cases item with
    | none => exact absurd (hroom none rest hscheduled hprocessed rfl) hfull
    | some e =>
      cases hstructural : e.structural with
      | true => exact absurd (hroom (some e) rest hscheduled hprocessed hstructural) hfull
      | false => exact (ahead_drop hstructural s.ctx.queue rest).symm

theorem inv_step {s s' : Run} {act : Act} (hs : Inv s) (hok : FindsRoom s act) (h : step s act = some s') : Inv s' := by
  refine ⟨markerInv_step hs.marker (markerFindsRoom_of hok) h, ?_⟩
  have hflow := hs.flow
  cases move_of_step h with
  | emit e permits => exact flow_emit hs e permits
  | close hopen =>
    obtain ⟨hnone, hended⟩ := hs.marker.opened hopen
    show _ ++ (if s.ended then [] else ahead (s.ctx.queue ++ (s.ctx.scheduled ++ [none]))) = _
    rw [← List.append_assoc, show s.ctx.queue ++ s.ctx.scheduled = s.pending from rfl, ahead_append hnone, ahead_marker,
      List.append_nil]
    exact hflow
  | callback hscheduled =>
    show _ ++ (if s.ended then [] else ahead (_ ++ _)) = _
    obtain ⟨hbefore, hsame | ⟨hfull, hlost⟩⟩ := callback_pending hscheduled
    · rw [hsame]
      exact hflow
    · cases hended : s.ended with
      | true =>
        rw [hended] at hflow
        exact hflow
      | false =>
        rw [hlost, flow_callback hs hscheduled hok hfull hended, ← hbefore, ← hended]
        exact hflow
  | @read e rest hended hqueue =>
    rw [hended, pending_read hqueue, ahead_cons] at hflow
    rw [hended, ← hflow, List.filter_append, List.append_assoc, List.filter_cons]
    rfl
  | readEnd hended hqueue =>
    rw [hended, pending_read hqueue, ahead_marker] at hflow
    exact hflow

theorem inv_start : Inv {} := ⟨⟨fun _ => ⟨List.not_mem_nil, rfl⟩, nofun⟩, rfl⟩

theorem seesEnd_of_inv {s : Run} (hs : Inv s) : s.SeesEnd := by
  refine ⟨fun ⟨hclosed, hpassed⟩ hended => ?_, ?_, fun hended => ?_⟩
  · rcases List.mem_append.1 (hs.marker.marked hclosed hended) with hmem | hmem
    · exact hmem
    · exact absurd hmem hpassed
  · exact ⟨_, hs.flow⟩
  · have hflow := hs.flow
    rw [hended] at hflow
    simpa using hflow

/-- **The event drain sees the end**: in every run, with any events before and after `close` and any interleaving of the
callbacks with the drainer, in which the marker and the structural events before it find room in the queue. -/
theorem drain_sees_end {s : Run} (h : Runs step FindsRoom {} s) : s.SeesEnd :=
  seesEnd_of_inv (h.invariant inv_start (fun _ _ _ hs hok hstep => inv_step hs hok hstep))

def statusEvent : AgentEvent := { kind := .agentStatus, agentId := "researcher", data := "running" }

theorem drain_sees_end_status :
    (Run.SeesEnd { ctx := { queue := [none] }, closed := true, delivered := [statusEvent], emitted := [statusEvent] }) := by
  refine drain_sees_end ?_
  refine .next .callback (.next .close (.next .get (.next .callback (.next (.emit statusEvent true) .refl trivial rfl)
    ?_ rfl) trivial rfl) trivial rfl) ?_ rfl
  · intro item rest _ _ _
    exact Nat.zero_lt_succ _
  · intro item rest _ _ _
    exact Nat.zero_lt_succ _

/-! ## a burst -/

def tokenEvent : AgentEvent := { kind := .other "token", data := "…" }

/-- After `n` tokens the drainer has not come to read. -/
def burst (n : Nat) : Run where
  ctx := { queue := List.replicate n (some tokenEvent) }
  emitted := List.replicate n tokenEvent

theorem burst_steps (n : Nat) (h : n < queueMax) :
    ∃ mid, step (burst n) (.emit tokenEvent true) = some mid ∧ step mid .callback = some (burst (n + 1)) := by
  have hput : StageContext.putNowait { queue := List.replicate n (some tokenEvent) } (some tokenEvent) =
      { queue := List.replicate n (some tokenEvent) ++ [some tokenEvent] } := by
    refine if_pos ?_
    rw [List.length_replicate]
    exact h
  refine ⟨_, rfl, ?_⟩
  show some ({ ctx := StageContext.putNowait { queue := List.replicate n (some tokenEvent) } (some tokenEvent)
               emitted := List.replicate n tokenEvent ++ [tokenEvent] } : Run) = some (burst (n + 1))
  rw [hput, ← List.replicate_succ', ← List.replicate_succ']
  rfl

theorem burst_reached : ∀ n ≤ queueMax, Reaches step {} (burst n)
  | 0, _ => .refl
  | n + 1, h => by
    obtain ⟨mid, hemit, hput⟩ := burst_steps n h
    exact .next .callback (.next (.emit tokenEvent true) (burst_reached n (Nat.le_of_succ_le h)) trivial hemit) trivial
      hput

/-- The queue is full, and `close` has been processed. -/
def markerGone : Run :=
  { burst queueMax with ctx := { (burst queueMax).ctx with dropped := 1, dropWarned := true }, closed := true }

theorem markerGone_steps :
    ∃ mid, step (burst queueMax) .close = some mid ∧ step mid .callback = some markerGone := by
  have hlength : ¬(List.replicate queueMax (some tokenEvent)).length < queueMax := by
    rw [List.length_replicate]
    exact Nat.lt_irrefl _
  have hput : StageContext.putNowait { queue := List.replicate queueMax (some tokenEvent) } none =
      { queue := List.replicate queueMax (some tokenEvent), dropped := 1, dropWarned := true } := if_neg hlength
  refine ⟨_, rfl, ?_⟩
  exact congrArg
    (fun ctx => some ({ ctx := ctx, closed := true, emitted := List.replicate queueMax tokenEvent } : Run)) hput

theorem markerGone_queue : none ∉ markerGone.ctx.queue := by
  intro hmem
  have hnone : none ∈ List.replicate queueMax (some tokenEvent) := hmem
  cases (List.mem_replicate.1 hnone).2

/-- **The marker is lost.**  512 tokens fill the queue, and the end marker finds no room: the drainer reads the tokens
and waits. -/
theorem marker_lost : ¬ ∀ s, Reaches step {} s → s.SeesEnd := by
  intro h
  obtain ⟨mid, hclose, hput⟩ := markerGone_steps
  have hend := h _ (.next .callback (.next .close (burst_reached queueMax (Nat.le_refl _)) trivial hclose) trivial hput)
  exact markerGone_queue (hend.marker ⟨rfl, List.not_mem_nil⟩ rfl)

end Drain
end MyGpt
