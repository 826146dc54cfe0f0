import MyGpt.Json
import Mathlib.Data.List.Induction
import Mathlib.Data.List.Sort
/-!
# RunEventReplay — the durable events of a run, delivered again and again

`run-events.ts`: the reducer behind the run's status in the client.  What lies at or below the cursor is skipped, so a
stream may be delivered again from anywhere (`applyAll_firstCopies`).  Whether `paused` and the ends of a run hold is a
matter of the events that come (`contract_iff`).
-/
namespace MyGpt
namespace Client
namespace RunEvents

inductive DurableRunStatus
  | pending | running | paused | completed | failed | cancelled
  deriving DecidableEq

inductive RunSubscriptionStatus
  | idle | connecting | open_ | reconnecting | disconnected
  deriving DecidableEq

structure DurableRunEvent where
  id : String
  runId : String
  sequence : Int
  eventType : String
  data : List (String × Json)
  createdAt : String

/-- `TERMINAL_RUN_STATUSES.has`. -/
def DurableRunStatus.terminal : DurableRunStatus → Bool
  | .completed | .failed | .cancelled => true
  | _ => false

structure DurableRunState where
  runId : String
  runStatus : DurableRunStatus
  subscriptionStatus : RunSubscriptionStatus
  cursor : Int
  events : List DurableRunEvent
  paused : Bool
  blocked : Bool
  error : Option String

def emptyRunState (runId : String) : DurableRunState where
  runId := runId
  runStatus := .pending
  subscriptionStatus := .idle
  cursor := 0
  events := []
  paused := false
  blocked := false
  error := none

/-- `${e.run_id}#${e.sequence}`. -/
def eventKey (e : DurableRunEvent) : String × Int := (e.runId, e.sequence)

/-- `Map.set`: a key keeps its place. -/
def setKey (byKey : List DurableRunEvent) (e : DurableRunEvent) : List DurableRunEvent :=
  if byKey.any (fun other => eventKey other = eventKey e) then
    byKey.map (fun other => if eventKey other = eventKey e then e else other)
  else byKey ++ [e]

def reduceEvents (events : List DurableRunEvent) : List DurableRunEvent :=
  (events.foldl setKey []).mergeSort (fun a b => decide (a.sequence ≤ b.sequence))

/-! ## one event -/

/-- What an event sets; `error`: it may set it to null. -/
structure Patch where
  runStatus : Option DurableRunStatus := none
  paused : Option Bool := none
  blocked : Option Bool := none
  error : Option (Option String) := none

/-- `typeof data[key] === "string" ? data[key] : null`. -/
def textOf (data : List (String × Json)) (key : String) : Option String :=
  match Json.field data key with
  | some (.str s) => some s
  | _ => none

def statusPatch (status : String) : Patch :=
  if status = "running" then { runStatus := some .running }
  else if status = "paused" then { runStatus := some .paused, paused := some true }
  else if status = "completed" then { runStatus := some .completed }
  else if status = "failed" then { runStatus := some .failed }
  else if status = "cancelled" then { runStatus := some .cancelled }
  else {}

def donePatch (finish : String) : Patch :=
  if finish = "cancelled" then { runStatus := some .cancelled }
  else if finish = "error" ∨ finish = "provider_error" ∨ finish = "timeout" then { runStatus := some .failed }
  else { runStatus := some .completed }

def transitionFromEvent (eventType : String) (data : List (String × Json)) : Patch :=
  match eventType with
  | "run.started" => { runStatus := some .running }
  | "run.completed" => { runStatus := some .completed }
  | "run.failed" => { runStatus := some .failed, error := some (textOf data "message") }
  | "run.cancelled" => { runStatus := some .cancelled }
  | "run.paused" => { runStatus := some .paused, paused := some true }
  | "run.resumed" => { runStatus := some .running, paused := some false }
  | "run_started" => { runStatus := some .running, paused := some false }
  | "run_resumed" => { runStatus := some .running, paused := some false }
  | "run_paused" => { runStatus := some .paused, paused := some true }
  | "run_status" => statusPatch ((textOf data "status").getD "")
  | "done" => donePatch ((textOf data "finish_reason").getD "")
  | "error" => { runStatus := some .failed, error := some (textOf data "message") }
  | "approval_required" => { blocked := some true }
  | _ => {}

def DurableRunEvent.patch (e : DurableRunEvent) : Patch := transitionFromEvent e.eventType e.data

def DurableRunState.apply (s : DurableRunState) (e : DurableRunEvent) : DurableRunState :=
  { s with
    events := s.events ++ [e]
    cursor := e.sequence
    runStatus := e.patch.runStatus.getD s.runStatus
    paused := e.patch.paused.getD s.paused
    blocked := if e.patch.runStatus = some .running ∧ e.eventType ≠ "approval_required" then false
      else e.patch.blocked.getD s.blocked
    error := e.patch.error.getD s.error }

def DurableRunState.skips (s : DurableRunState) (e : DurableRunEvent) : Prop := e.runId ≠ s.runId ∨ e.sequence ≤ s.cursor

instance decidableSkips (s : DurableRunState) (e : DurableRunEvent) : Decidable (s.skips e) := inferInstanceAs (Decidable (_ ∨ _))

def applyEvent (s : DurableRunState) (e : DurableRunEvent) : DurableRunState :=
  if e.runId ≠ s.runId then s else if e.sequence ≤ s.cursor then s else s.apply e

def applyAll (s : DurableRunState) (events : List DurableRunEvent) : DurableRunState := events.foldl applyEvent s

def disconnectSubscription (s : DurableRunState) : DurableRunState := { s with subscriptionStatus := .disconnected }

def subscribed (runId : String) (cursor : Int) : DurableRunState := { emptyRunState runId with cursor := cursor }

section
variable {s : DurableRunState} {e : DurableRunEvent}

theorem applyEvent_of_skips (h : s.skips e) : applyEvent s e = s := by
  unfold applyEvent
  rcases h with h | h
  · rw [if_pos h]
  · rw [if_pos h, ite_self]

theorem applyEvent_of_not_skips (h : ¬ s.skips e) : applyEvent s e = s.apply e := by
  unfold DurableRunState.skips at h
  rw [not_or, not_not] at h
  unfold applyEvent
  rw [if_neg (not_not.2 h.1), if_neg h.2]

theorem applyEvent_runId (s : DurableRunState) (e : DurableRunEvent) : (applyEvent s e).runId = s.runId := by
  by_cases h : s.skips e
  · rw [applyEvent_of_skips h]
  · rw [applyEvent_of_not_skips h]
    rfl

theorem applyAll_runId (s : DurableRunState) (events : List DurableRunEvent) : (applyAll s events).runId = s.runId := by
  induction events generalizing s with
  | nil => rfl
  | cons e events ih => exact (ih (applyEvent s e)).trans (applyEvent_runId s e)

theorem cursor_le (s : DurableRunState) (e : DurableRunEvent) : s.cursor ≤ (applyEvent s e).cursor := by
  by_cases h : s.skips e
  · rw [applyEvent_of_skips h]
  · rw [applyEvent_of_not_skips h]
    unfold DurableRunState.skips at h
    rw [not_or] at h
    exact le_of_lt (not_le.1 h.2)

theorem sequence_le_cursor (h : e.runId = s.runId) : e.sequence ≤ (applyEvent s e).cursor := by
  by_cases hs : s.skips e
  · rw [applyEvent_of_skips hs]
    exact hs.resolve_left (not_not.2 h)
  · rw [applyEvent_of_not_skips hs]
    exact le_refl _

theorem cursor_le_applyAll (s : DurableRunState) (events : List DurableRunEvent) :
    s.cursor ≤ (applyAll s events).cursor := by
  induction events generalizing s with
  | nil => exact le_refl _
  | cons e events ih => exact le_trans (cursor_le s e) (ih (applyEvent s e))

theorem skips_of_mem (s : DurableRunState) {events : List DurableRunEvent} (h : e ∈ events) :
    (applyAll s events).skips e := by
  obtain ⟨before, behind, rfl⟩ := List.append_of_mem h
  unfold DurableRunState.skips
  rw [applyAll_runId]
  by_cases hrun : e.runId = s.runId
  · refine .inr ?_
    have hmid : e.sequence ≤ (applyEvent (applyAll s before) e).cursor :=
      sequence_le_cursor (hrun.trans (applyAll_runId s before).symm)
    show e.sequence ≤ ((before ++ e :: behind).foldl applyEvent s).cursor
    rw [List.foldl_append, List.foldl_cons]
    exact le_trans hmid (cursor_le_applyAll _ behind)
  · exact .inl hrun

end

/-! ## duplicates -/

def firstCopies (seen : List (String × Int)) : List DurableRunEvent → List DurableRunEvent
  | [] => []
  | e :: events => if eventKey e ∈ seen then firstCopies seen events else e :: firstCopies (eventKey e :: seen) events

/-- **A stream with duplicates folds to what it folds to without them**, in whatever order they come. -/
theorem applyAll_firstCopies {seen : List (String × Int)} {s : DurableRunState}
    (hseen : ∀ sequence, (s.runId, sequence) ∈ seen → sequence ≤ s.cursor) (events : List DurableRunEvent) :
    applyAll s (firstCopies seen events) = applyAll s events := by
  induction events generalizing seen s with
  | nil => rfl
  | cons e events ih =>
    rw [firstCopies]
    by_cases hkey : eventKey e ∈ seen
    · have hskips : s.skips e := by
        by_cases hrun : e.runId = s.runId
        · refine .inr (hseen e.sequence ?_)
          rw [← hrun]
          exact hkey
        · exact .inl hrun
      rw [if_pos hkey, ih hseen]
      show applyAll s events = applyAll (applyEvent s e) events
      rw [applyEvent_of_skips hskips]
    · rw [if_neg hkey]
      refine ih (s := applyEvent s e) (fun sequence hmem => ?_)
      rw [applyEvent_runId] at hmem
      rcases List.mem_cons.1 hmem with heq | hold
      · obtain ⟨hrun, rfl⟩ := Prod.mk.inj heq
        exact sequence_le_cursor hrun.symm
      · exact le_trans (hseen sequence hold) (cursor_le s e)

/-- **Delivering again what the run has seen changes nothing**, wherever the stream goes on from. -/
theorem applyAll_again (s : DurableRunState) (pre : List DurableRunEvent) :
    ∀ again : List DurableRunEvent, (∀ e ∈ again, e ∈ pre) → applyAll (applyAll s pre) again = applyAll s pre
  | [], _ => rfl
  | e :: again, hagain => by
    have hseen : (applyAll s pre).skips e := skips_of_mem s (hagain e List.mem_cons_self)
    show applyAll (applyEvent (applyAll s pre) e) again = _
    rw [applyEvent_of_skips hseen]
    exact applyAll_again s pre again (fun e' he' => hagain e' (List.mem_cons_of_mem _ he'))

def Agreeing (events : List DurableRunEvent) : Prop :=
  ∀ e ∈ events, ∀ e' ∈ events, eventKey e = eventKey e' → e = e'

theorem foldl_setKey {kept events : List DurableRunEvent} (hagree : Agreeing (kept ++ events)) :
    events.foldl setKey kept = kept ++ firstCopies (kept.map eventKey).reverse events := by
  induction events generalizing kept with
  | nil => exact (List.append_nil kept).symm
  | cons e events ih =>
    rw [List.foldl_cons, firstCopies]
    have he : e ∈ kept ++ e :: events := List.mem_append_right _ List.mem_cons_self
    by_cases hkey : eventKey e ∈ (kept.map eventKey).reverse
    · have hany : kept.any (fun other => eventKey other = eventKey e) = true := by
        obtain ⟨other, hother, heq⟩ := List.mem_map.1 (List.mem_reverse.1 hkey)
        exact List.any_eq_true.2 ⟨other, hother, decide_eq_true heq⟩
      have hsame : kept.map (fun other => if eventKey other = eventKey e then e else other) = kept := by
        refine (List.map_congr_left (fun other hother => ?_)).trans (List.map_id kept)
        split
        · next heq => exact hagree e he other (List.mem_append_left _ hother) heq.symm
        · rfl
      rw [if_pos hkey, setKey, if_pos hany, hsame]
      refine ih (fun a ha b hb => hagree a ?_ b ?_)
      · exact (List.sublist_append_right [e] events).append_left kept |>.mem ha
      · exact (List.sublist_append_right [e] events).append_left kept |>.mem hb
    · have hany : ¬ kept.any (fun other => eventKey other = eventKey e) = true := by
        intro h
        obtain ⟨other, hother, heq⟩ := List.any_eq_true.1 h
        exact hkey (List.mem_reverse.2 (List.mem_map.2 ⟨other, hother, of_decide_eq_true heq⟩))
      have hrest := @ih (kept ++ [e]) (by rwa [List.append_assoc])
      rw [if_neg hkey, setKey, if_neg hany, hrest, List.append_assoc, List.map_append, List.reverse_append]
      rfl

/-- **Where the copies agree and come in order, folding `reduceEvents` is folding the stream.** -/
theorem applyAll_reduceEvents (s : DurableRunState) {events : List DurableRunEvent} (hagree : Agreeing events)
    (hsorted : (firstCopies [] events).Pairwise (fun a b => a.sequence ≤ b.sequence)) :
    applyAll s (reduceEvents events) = applyAll s events := by
  have hfold : events.foldl setKey [] = firstCopies [] events := by
    rw [@foldl_setKey [] events hagree]
    rfl
  have hmerge : reduceEvents events = firstCopies [] events := by
    unfold reduceEvents
    rw [hfold]
    exact List.mergeSort_of_pairwise (hsorted.imp (fun h => decide_eq_true h))
  rw [hmerge]
  exact applyAll_firstCopies (fun sequence hmem => absurd hmem List.not_mem_nil) events

/-! ## what an event sets -/

def DurableRunEvent.names (e : DurableRunEvent) : DurableRunStatus → Prop
  | .pending => False
  | .running => e.eventType ∈ ["run.started", "run.resumed", "run_started", "run_resumed"] ∨
      e.eventType = "run_status" ∧ textOf e.data "status" = some "running"
  | .paused => e.eventType ∈ ["run.paused", "run_paused"] ∨
      e.eventType = "run_status" ∧ textOf e.data "status" = some "paused"
  | .completed => e.eventType = "run.completed" ∨
      e.eventType = "run_status" ∧ textOf e.data "status" = some "completed" ∨
      e.eventType = "done" ∧ ∀ reason ∈ ["cancelled", "error", "provider_error", "timeout"],
        textOf e.data "finish_reason" ≠ some reason
  | .failed => e.eventType ∈ ["run.failed", "error"] ∨
      e.eventType = "run_status" ∧ textOf e.data "status" = some "failed" ∨
      e.eventType = "done" ∧ ∃ reason ∈ ["error", "provider_error", "timeout"],
        textOf e.data "finish_reason" = some reason
  | .cancelled => e.eventType = "run.cancelled" ∨
      e.eventType = "run_status" ∧ textOf e.data "status" = some "cancelled" ∨
      e.eventType = "done" ∧ textOf e.data "finish_reason" = some "cancelled"

def DurableRunEvent.resumes (e : DurableRunEvent) : Prop :=
  e.eventType ∈ ["run.resumed", "run_started", "run_resumed"]

theorem statusPatch_runStatus (e : DurableRunEvent) (h : e.eventType = "run_status") (st : DurableRunStatus) :
    (statusPatch ((textOf e.data "status").getD "")).runStatus = some st ↔ e.names st := by
  cases hs : textOf e.data "status" with
  | none => cases st <;> simp [statusPatch, DurableRunEvent.names, h, hs]
  | some status =>
    unfold statusPatch
    cases st <;> simp only [DurableRunEvent.names, h, hs, Option.getD_some] <;> split_ifs <;> simp_all

theorem donePatch_runStatus (e : DurableRunEvent) (h : e.eventType = "done") (st : DurableRunStatus) :
    (donePatch ((textOf e.data "finish_reason").getD "")).runStatus = some st ↔ e.names st := by
  cases hs : textOf e.data "finish_reason" with
  | none => cases st <;> simp [donePatch, DurableRunEvent.names, h, hs]
  | some finish =>
    unfold donePatch
    cases st <;> simp only [DurableRunEvent.names, h, hs, Option.getD_some] <;> split_ifs <;> simp_all
    tauto

theorem patch_runStatus (e : DurableRunEvent) (st : DurableRunStatus) : e.patch.runStatus = some st ↔ e.names st := by
  unfold DurableRunEvent.patch transitionFromEvent
  split
  case h_10 h => exact statusPatch_runStatus e h st
  case h_11 h => exact donePatch_runStatus e h st
  all_goals cases st <;> simp_all [DurableRunEvent.names]

theorem patch_paused_true (e : DurableRunEvent) : e.patch.paused = some true ↔ e.names .paused := by
  unfold DurableRunEvent.patch transitionFromEvent
  split
  case h_10 h =>
    have hnames := statusPatch_runStatus e h .paused
    rw [← hnames]
    unfold statusPatch
    split_ifs <;> simp
  case h_11 h =>
    have hnames := donePatch_runStatus e h .paused
    rw [← hnames]
    unfold donePatch
    split_ifs <;> simp
  all_goals simp_all [DurableRunEvent.names]

theorem patch_paused_false (e : DurableRunEvent) : e.patch.paused = some false ↔ e.resumes := by
  unfold DurableRunEvent.patch transitionFromEvent
  split
  case h_10 h =>
    unfold statusPatch
    split_ifs <;> simp [DurableRunEvent.resumes, h]
  case h_11 h =>
    unfold donePatch
    split_ifs <;> simp [DurableRunEvent.resumes, h]
  all_goals simp_all [DurableRunEvent.resumes]

theorem names_running_of_resumes {e : DurableRunEvent} (h : e.resumes) : e.names .running :=
  .inl (List.mem_cons_of_mem _ h)

theorem names_unique {e : DurableRunEvent} {st st' : DurableRunStatus} (h : e.names st) (h' : e.names st') : st = st' :=
  Option.some.inj (((patch_runStatus e st).2 h).symm.trans ((patch_runStatus e st').2 h'))

/-! ## the contract -/

structure StreamContract (start : DurableRunState) (events : List DurableRunEvent) : Prop where
  stale : ∀ pre, pre <+: events → ∀ e, e.sequence ≤ (applyAll start pre).cursor →
    applyEvent (applyAll start pre) e = applyAll start pre
  redelivered : ∀ pre post, pre ++ post = events → ∀ again : List DurableRunEvent, (∀ e ∈ again, e ∈ pre) →
    applyAll start (pre ++ again ++ post) = applyAll start events
  deduped : applyAll start (firstCopies [] events) = applyAll start events
  reduced : Agreeing events → (firstCopies [] events).Pairwise (fun a b => a.sequence ≤ b.sequence) →
    applyAll start (reduceEvents events) = applyAll start events
  cursor : ∀ pre e, pre ++ [e] <+: events → (applyAll start pre).cursor ≤ (applyAll start (pre ++ [e])).cursor
  paused : ∀ pre, pre <+: events →
    ((applyAll start pre).paused = true ↔ (applyAll start pre).runStatus = .paused)
  terminal : ∀ pre e, pre ++ [e] <+: events → (applyAll start pre).runStatus.terminal = true →
    (applyAll start (pre ++ [e])).runStatus = (applyAll start pre).runStatus

structure Orderly (s : DurableRunState) (e : DurableRunEvent) : Prop where
  paused : s.runStatus = .paused → ∀ st, e.names st → st = .paused ∨ e.resumes
  terminal : s.runStatus.terminal = true → ∀ st, e.names st → st = s.runStatus

def OrderlyStream (start : DurableRunState) (events : List DurableRunEvent) : Prop :=
  ∀ pre e, pre ++ [e] <+: events → ¬ (applyAll start pre).skips e → Orderly (applyAll start pre) e

section
variable {s start : DurableRunState} {e : DurableRunEvent} {events : List DurableRunEvent}

theorem applyAll_snoc (s : DurableRunState) (pre : List DurableRunEvent) (e : DurableRunEvent) :
    applyAll s (pre ++ [e]) = applyEvent (applyAll s pre) e := by
  unfold applyAll
  rw [List.foldl_append]
  rfl

theorem apply_paused (hs : s.paused = true ↔ s.runStatus = .paused) (h : Orderly s e) :
    (s.apply e).paused = true ↔ (s.apply e).runStatus = .paused := by
  show e.patch.paused.getD s.paused = true ↔ e.patch.runStatus.getD s.runStatus = .paused
  cases hnamed : e.patch.runStatus with
  | none =>
    have hquiet : ∀ st, ¬ e.names st := fun st hst => by
      have := (patch_runStatus e st).2 hst
      rw [hnamed] at this
      cases this
    have hmark : e.patch.paused = none := by
      cases hp : e.patch.paused with
      | none => rfl
      | some mark =>
        cases mark with
        | true => exact absurd ((patch_paused_true e).1 hp) (hquiet .paused)
        | false => exact absurd (names_running_of_resumes ((patch_paused_false e).1 hp)) (hquiet .running)
    rw [hmark]
    exact hs
  | some st =>
    have hst : e.names st := (patch_runStatus e st).1 hnamed
    by_cases hp : st = .paused
    · subst hp
      rw [(patch_paused_true e).2 hst]
      exact ⟨fun _ => rfl, fun _ => rfl⟩
    · refine ⟨fun hmark => absurd hmark ?_, fun heq => absurd heq hp⟩
      rw [Bool.not_eq_true]
      cases hq : e.patch.paused with
      | some mark =>
        cases mark with
        | true => exact absurd (names_unique hst ((patch_paused_true e).1 hq)) hp
        | false => rfl
      | none =>
        refine Bool.not_eq_true _ ▸ fun hold => ?_
        rcases h.paused (hs.1 hold) st hst with heq | hres
        · exact hp heq
        · rw [(patch_paused_false e).2 hres] at hq
          cases hq

theorem apply_terminal (hs : s.runStatus.terminal = true) (h : Orderly s e) : (s.apply e).runStatus = s.runStatus := by
  show e.patch.runStatus.getD s.runStatus = s.runStatus
  cases hnamed : e.patch.runStatus with
  | none => rfl
  | some st => exact h.terminal hs st ((patch_runStatus e st).1 hnamed)

theorem orderly_of_kept (hs : s.paused = true ↔ s.runStatus = .paused)
    (hp : (s.apply e).paused = true ↔ (s.apply e).runStatus = .paused)
    (ht : s.runStatus.terminal = true → (s.apply e).runStatus = s.runStatus) : Orderly s e := by
  have hset : ∀ st, e.names st → (s.apply e).runStatus = st := fun st hst => by
    show e.patch.runStatus.getD s.runStatus = st
    rw [(patch_runStatus e st).2 hst]
    rfl
  constructor
  case paused =>
    intro hpaused st hst
    by_cases heq : st = .paused
    · exact .inl heq
    · right
      rw [hset st hst] at hp
      have hmark : e.patch.paused.getD s.paused = false := Bool.not_eq_true _ ▸ fun h => heq (hp.1 h)
      rw [hs.2 hpaused] at hmark
      cases hq : e.patch.paused with
      | none =>
        rw [hq] at hmark
        cases hmark
      | some mark =>
        rw [hq] at hmark
        exact (patch_paused_false e).1 (hq.trans (congrArg some hmark))
  case terminal =>
    intro hterm st hst
    exact (hset st hst).symm.trans (ht hterm)

theorem paused_of_orderly (hstart : start.paused = true ↔ start.runStatus = .paused)
    (h : OrderlyStream start events) : ∀ pre, pre <+: events →
    ((applyAll start pre).paused = true ↔ (applyAll start pre).runStatus = .paused) := by
  intro pre
  induction pre using List.reverseRecOn with
  | nil => exact fun _ => hstart
  | append_singleton pre e ih =>
    intro hpre
    have hbefore := ih ((List.prefix_append pre [e]).trans hpre)
    rw [applyAll_snoc]
    by_cases hskips : (applyAll start pre).skips e
    · rw [applyEvent_of_skips hskips]
      exact hbefore
    · rw [applyEvent_of_not_skips hskips]
      exact apply_paused hbefore (h pre e hpre hskips)

end

/-- **The reducer keeps its contract along a stream exactly when every event it takes in is in order**: an event that
ends a pause is one of those that clear the mark, and one behind the end of the run names no other status.  Skipping,
duplicates and the cursor hold along every stream. -/
theorem contract_iff (runId : String) (cursor : Int) (events : List DurableRunEvent) :
    StreamContract (subscribed runId cursor) events ↔ OrderlyStream (subscribed runId cursor) events := by
  constructor
  · intro h pre e hpre hskips
    have hend := h.paused (pre ++ [e]) hpre
    have hterm := h.terminal pre e hpre
    rw [applyAll_snoc, applyEvent_of_not_skips hskips] at hend hterm
    exact orderly_of_kept (h.paused pre ((List.prefix_append pre [e]).trans hpre)) hend hterm
  · intro h
    constructor
    case stale =>
      intro pre _ e he
      exact applyEvent_of_skips (.inr he)
    case redelivered =>
      rintro pre post rfl again hagain
      unfold applyAll
      rw [List.foldl_append, List.foldl_append, List.foldl_append]
      exact congrArg (fun s => post.foldl applyEvent s) (applyAll_again _ pre again hagain)
    case deduped => exact applyAll_firstCopies (fun sequence hmem => absurd hmem List.not_mem_nil) events
    case reduced => exact fun hagree hsorted => applyAll_reduceEvents _ hagree hsorted
    case cursor =>
      intro pre e _
      rw [applyAll_snoc]
      exact cursor_le _ e
    case paused => exact paused_of_orderly ⟨fun hp => (by cases hp), fun hp => (by cases hp)⟩ h
    case terminal =>
      intro pre e hpre hterm
      rw [applyAll_snoc]
      by_cases hskips : (applyAll (subscribed runId cursor) pre).skips e
      · rw [applyEvent_of_skips hskips]
      · rw [applyEvent_of_not_skips hskips]
        exact apply_terminal hterm (h pre e hpre hskips)

/-- An event of the run `"r1"`. -/
def eventOf (sequence : Int) (eventType : String) : DurableRunEvent where
  id := toString sequence
  runId := "r1"
  sequence := sequence
  eventType := eventType
  data := []
  createdAt := "t"

/-- A paused run that completes stays marked as paused, and an event that comes late opens a completed run again. -/
theorem paused_run_completes :
    let s := applyAll (subscribed "r1" 0) [eventOf 1 "run.paused", eventOf 2 "run.completed"]
    let s' := applyAll (subscribed "r1" 0) [eventOf 1 "run.paused", eventOf 2 "run.completed", eventOf 3 "run.started"]
    (s.paused = true ∧ s.runStatus = .completed ∧ s'.runStatus = .running) ∧
    ¬ ∀ runId cursor events, StreamContract (subscribed runId cursor) events := by
  intro s s'
  refine ⟨⟨rfl, rfl, rfl⟩, fun h => ?_⟩
  have hp := (h "r1" 0 [eventOf 1 "run.paused", eventOf 2 "run.completed"]).paused _ (List.prefix_refl _)
  have hs : s.runStatus = .paused := hp.1 rfl
  cases hs

end RunEvents
end Client
end MyGpt
