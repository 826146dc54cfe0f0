import MyGpt.GatedTurn
/-!
# GatedStream — the events of a runtime on their way through the gate

`stream_gated` of `answer_gate.py` as the generator it is: what it yields of each event, and what it calls the gate with.
Whatever the runtime emits and however the generator ends, the frames come in the order the client relies on
(`stream_gated_ordered`).
-/
namespace MyGpt
namespace Chat

abbrev UsageData := List (String × Int)

/-- An `AgentEvent`; of the kinds that `stream_gated` forwards as they are, the kind and the data. -/
inductive AgentEvent
  | token (delta : Option Text)
  | done (finishReason : Option String) (usage : Option UsageData)
  | other (kind : String) (data : Text)
  deriving DecidableEq

def AgentEvent.isDone : AgentEvent → Bool
  | .done _ _ => true
  | _ => false

def AgentEvent.isToken : AgentEvent → Bool
  | .token _ => true
  | _ => false

/-- `str(evt.data.get("delta") or "")` -/
def AgentEvent.delta : AgentEvent → Text
  | .token delta => delta.getD []
  | _ => []

/-- What the generator yields: an event as it is, the gate's result, or a token that replaces the text. -/
inductive Frame
  | event (evt : AgentEvent)
  | validation (result : GateResult)
  | replace (answer : Text)
  deriving DecidableEq

def Frame.isToken : Frame → Bool
  | .event evt => evt.isToken
  | .replace _ => true
  | .validation _ => false

def Frame.isValidation : Frame → Bool
  | .validation _ => true
  | _ => false

def Frame.isDone : Frame → Bool
  | .event evt => evt.isDone
  | _ => false

def Frame.tokenEvent : Frame → Option AgentEvent
  | .event evt => if evt.isToken then some evt else none
  | _ => none

inductive Finalized
  | result (r : GateResult)
  | nothing
  | raised
  deriving DecidableEq

structure FinalizeCall where
  text : Text
  finishReason : String
  usage : UsageData
  deriving DecidableEq

structure GatedStream where
  frames : List Frame := []
  calls : List FinalizeCall := []
  raised : Bool := false
  deriving DecidableEq

def GatedStream.yielding (frames : List Frame) (s : GatedStream) : GatedStream := { s with frames := frames ++ s.frames }

section
variable (gate : Option TurnGate) (finalize : FinalizeCall → Finalized)

def buffering : Bool := gate.any (·.buffered)

def finalizeCall (collected : Text) (finishReason : Option String) (usage : Option UsageData) : FinalizeCall where
  text := collected
  finishReason := if finishReason.getD "" = "" then "stop" else finishReason.getD ""
  usage := usage.getD []

/-- What is yielded on a `done`: the gate's result first. -/
def onDone (call : FinalizeCall) (evt : AgentEvent) : GatedStream :=
  match finalize call with
  | .raised => { calls := [call], raised := true }
  | .nothing => { calls := [call], frames := [.event evt] }
  | .result r =>
    { calls := [call]
      frames :=
        if gate.isSome then
          .validation r :: (if buffering gate || r.refused then [.replace r.answer] else []) ++ [.event evt]
        else [.event evt] }

/-- The loop of `stream_gated`; `fails` when the runtime raises behind its last event. -/
def streamGated (fails : Bool) (collected : Text) : List AgentEvent → GatedStream
  | [] => { raised := fails }
  | .token delta :: events =>
    (streamGated fails (collected ++ delta.getD []) events).yielding
      (if buffering gate then [] else [.event (.token delta)])
  | .done finishReason usage :: _ =>
    onDone gate finalize (finalizeCall collected finishReason usage) (.done finishReason usage)
  | .other kind data :: events => (streamGated fails collected events).yielding [.event (.other kind data)]

end

/-- `TurnGate.finalize` behind the callbacks of the turn services: a result, unless `gate_answer` raises. -/
def gateFinalize (gateAnswer : Text → Option PostprocessOutcome) (call : FinalizeCall) : Finalized :=
  match gateAnswer call.text with
  | none => .raised
  | some outcome => .result (finalize outcome)

/-! ## what is to hold -/

/-- The events of the turn: those up to the first `done`, after which nothing is read. -/
def turnEvents (events : List AgentEvent) : List AgentEvent := events.takeWhile (fun evt => !evt.isDone)

def allDeltas (events : List AgentEvent) : Text := ((turnEvents events).map (·.delta)).flatten

def Preceded (p q : Frame → Bool) (frames : List Frame) : Prop :=
  ∀ pre frame post, frames = pre ++ frame :: post → p frame = true → ∃ v ∈ pre, q v = true

/-- **Frames of a buffered turn**: the gate's result comes before each answer token and before the `done`. -/
structure Withheld (finalize : FinalizeCall → Finalized) (calls : List FinalizeCall) (frames : List Frame) : Prop where
  tokens : Preceded Frame.isToken Frame.isValidation frames
  done : (∀ call ∈ calls, finalize call ≠ .nothing) → Preceded Frame.isDone Frame.isValidation frames
  validation : frames.Pairwise (fun earlier later => later.isValidation = true → earlier.isDone = false)

/-- The gate is called once at most, on a `done`, with the text of all deltas. -/
structure GateSees (events : List AgentEvent) (calls : List FinalizeCall) : Prop where
  text : ∀ call ∈ calls, call.text = allDeltas events
  once : calls.length = if events.any (·.isDone) then 1 else 0

def sentDeltas (frames : List Frame) : List AgentEvent := frames.filterMap Frame.tokenEvent

/-! ## one event after the other -/

section
variable {gate : Option TurnGate} {finalize : FinalizeCall → Finalized}

theorem sentDeltas_onDone (call : FinalizeCall) (finishReason : Option String) (usage : Option UsageData) :
    sentDeltas (onDone gate finalize call (.done finishReason usage)).frames = [] := by
  unfold onDone
  split
  · rfl
  · rfl
  · dsimp only
    split
    · split <;> rfl
    · rfl

theorem sentDeltas_live (hlive : buffering gate = false) (fails : Bool) (events : List AgentEvent) (collected : Text) :
    sentDeltas (streamGated gate finalize fails collected events).frames = (turnEvents events).filter (·.isToken) := by
  induction events generalizing collected with
  | nil => rfl
  | cons evt events ih =>
    cases evt with
    | token delta =>
      rw [streamGated, hlive]
      exact congrArg (AgentEvent.token delta :: ·) (ih _)
    | done finishReason usage =>
      rw [streamGated]
      exact sentDeltas_onDone _ finishReason usage
    | other kind data =>
      rw [streamGated]
      exact ih _

theorem streamGated_calls (fails : Bool) (events : List AgentEvent) (collected : Text) :
    if events.any (·.isDone) then ∃ finishReason usage, (streamGated gate finalize fails collected events).calls =
      [finalizeCall (collected ++ allDeltas events) finishReason usage]
    else (streamGated gate finalize fails collected events).calls = [] := by
  induction events generalizing collected with
  | nil => exact rfl
  | cons evt events ih =>
    cases evt with
    | token delta =>
      have hdeltas : collected ++ allDeltas (.token delta :: events) = (collected ++ delta.getD []) ++ allDeltas events := by
        rw [List.append_assoc]
        rfl
      rw [hdeltas, streamGated]
      exact ih _
    | done finishReason usage =>
      rw [List.any_cons, AgentEvent.isDone, Bool.true_or, if_pos rfl]
      refine ⟨finishReason, usage, ?_⟩
      rw [show allDeltas (.done finishReason usage :: events) = [] from rfl, List.append_nil, streamGated]
      unfold onDone
      split <;> rfl
    | other kind data =>
      rw [streamGated]
      exact ih _

theorem gateSees (fails : Bool) (events : List AgentEvent) :
    GateSees events (streamGated gate finalize fails [] events).calls := by
  have hcalls := @streamGated_calls gate finalize fails events []
  split at hcalls
  · rename_i hdone
    obtain ⟨finishReason, usage, hcall⟩ := hcalls
    rw [hcall]
    refine ⟨fun call hmem => ?_, (if_pos hdone).symm⟩
    rw [List.mem_singleton.1 hmem]
    rfl
  · rename_i hdone
    rw [hcalls]
    exact ⟨fun call hmem => (by cases hmem), (if_neg hdone).symm⟩

/-! ## a buffered turn -/

variable {calls : List FinalizeCall}

section
variable {p q : Frame → Bool} {f : Frame} {frames : List Frame}

theorem preceded_nil : Preceded p q [] := fun pre _ _ he => by cases pre <;> cases he

theorem Preceded.cons (h : Preceded p q frames) (hf : p f = false) : Preceded p q (f :: frames) := by
  intro pre frame post he hp
  cases pre with
  | nil =>
    obtain ⟨rfl, -⟩ := List.cons.inj he
    rw [hf] at hp
    cases hp
  | cons x pre =>
    obtain ⟨-, hrest⟩ := List.cons.inj he
    obtain ⟨v, hv, hval⟩ := h pre frame post hrest hp
    exact ⟨v, List.mem_cons_of_mem _ hv, hval⟩

theorem preceded_behind (hf : p f = false) (hq : q f = true) (frames : List Frame) : Preceded p q (f :: frames) := by
  intro pre frame post he hp
  cases pre with
  | nil =>
    obtain ⟨rfl, -⟩ := List.cons.inj he
    rw [hf] at hp
    cases hp
  | cons x pre =>
    obtain ⟨rfl, -⟩ := List.cons.inj he
    exact ⟨f, List.mem_cons_self, hq⟩

theorem Preceded.take (h : Preceded p q frames) (n : Nat) : Preceded p q (frames.take n) := by
  intro pre frame post he
  refine h pre frame (post ++ frames.drop n) ?_
  rw [← List.cons_append, ← List.append_assoc, ← he, List.take_append_drop]

end

theorem Withheld.cons {frames : List Frame} (h : Withheld finalize calls frames) {f : Frame} (htoken : f.isToken = false)
    (hdone : f.isDone = false) : Withheld finalize calls (f :: frames) where
  tokens := h.tokens.cons htoken
  done := fun hcalls => (h.done hcalls).cons hdone
  validation := List.pairwise_cons.2 ⟨fun _ _ _ => hdone, h.validation⟩

theorem withheld_nil : Withheld finalize calls [] := ⟨preceded_nil, fun _ => preceded_nil, .nil⟩

theorem withheld_onDone (hbuffering : buffering gate = true) (call : FinalizeCall) (finishReason : Option String)
    (usage : Option UsageData) :
    Withheld finalize (onDone gate finalize call (.done finishReason usage)).calls
      (onDone gate finalize call (.done finishReason usage)).frames := by
  unfold onDone
  split
  · exact withheld_nil
  · rename_i hnothing
    exact ⟨preceded_nil.cons rfl, fun hcalls => absurd hnothing (hcalls call List.mem_cons_self), List.pairwise_singleton _ _⟩
  · have hsome : gate.isSome = true := by
      cases gate with
      | none => cases hbuffering
      | some gate => rfl
    rw [if_pos hsome, hbuffering, Bool.true_or, if_pos rfl]
    exact ⟨preceded_behind rfl rfl _, fun _ => preceded_behind rfl rfl _, by simp [Frame.isValidation]⟩

theorem withheld_stream (hbuffering : buffering gate = true) (fails : Bool) (events : List AgentEvent) (collected : Text) :
    Withheld finalize (streamGated gate finalize fails collected events).calls
      (streamGated gate finalize fails collected events).frames := by
  induction events generalizing collected with
  | nil => exact withheld_nil
  | cons evt events ih =>
    cases evt with
    | token delta =>
      rw [streamGated, hbuffering]
      exact ih _
    | done finishReason usage =>
      rw [streamGated]
      exact withheld_onDone hbuffering _ finishReason usage
    | other kind data =>
      rw [streamGated]
      exact (ih collected).cons rfl rfl

theorem Withheld.take {frames : List Frame} (h : Withheld finalize calls frames) (n : Nat) :
    Withheld finalize calls (frames.take n) :=
  ⟨h.tokens.take n, fun hcalls => (h.done hcalls).take n, h.validation.sublist (List.take_sublist n frames)⟩

end

/-! ## every stream -/

theorem gateFinalize_ne_nothing (gateAnswer : Text → Option PostprocessOutcome) (call : FinalizeCall) :
    gateFinalize gateAnswer call ≠ .nothing := by
  unfold gateFinalize
  split <;> exact nofun

/-- The contract of a gated stream whose client has got the first `n` frames. -/
structure Ordered (gate : Option TurnGate) (finalize : FinalizeCall → Finalized) (events : List AgentEvent) (s : GatedStream)
    (n : Nat) : Prop where
  sees : GateSees events s.calls
  buffered : buffering gate = true → Withheld finalize s.calls (s.frames.take n)
  /-- with the gate of a turn there is a result in front of every `done` -/
  decided : buffering gate = true → ∀ gateAnswer, finalize = gateFinalize gateAnswer →
    Preceded Frame.isDone Frame.isValidation (s.frames.take n)
  live : buffering gate = false → sentDeltas (s.frames.take n) <+: (turnEvents events).filter (·.isToken) ∧
    (s.frames.length ≤ n → sentDeltas (s.frames.take n) = (turnEvents events).filter (·.isToken))

/-- **The frames of a gated stream are in order**, for every sequence of events, every gate and every exit. -/
theorem stream_gated_ordered (gate : Option TurnGate) (finalize : FinalizeCall → Finalized) (fails : Bool)
    (events : List AgentEvent) (n : Nat) : Ordered gate finalize events (streamGated gate finalize fails [] events) n where
  sees := gateSees fails events
  buffered := fun hbuffering => (withheld_stream hbuffering fails events []).take n
  decided := by
    rintro hbuffering gateAnswer rfl
    exact ((withheld_stream hbuffering fails events []).take n).done (fun call _ => gateFinalize_ne_nothing gateAnswer call)
  live := by
    intro hlive
    have hall := @sentDeltas_live gate finalize hlive fails events []
    refine ⟨?_, fun hn => ?_⟩
    · rw [← hall]
      exact (List.take_prefix n _).filterMap _
    · rw [List.take_of_length_le hn, hall]

/-! ## the turn it is part of -/

def Frame.chatEvent : Frame → ChatEvent
  | .event (.token delta) => .token (delta.getD []) false
  | .event (.done finishReason _) => .done (finishReason.getD "")
  | .event (.other kind _) => .progress kind
  | .validation result => .validation result.message result.correctedText
  | .replace answer => .token answer true

def stepEvents : List RuntimeStep → List AgentEvent
  | [] => []
  | .token delta :: steps => .token (some delta) :: stepEvents steps
  | .progress kind :: steps => .other kind [] :: stepEvents steps
  | _ :: steps => stepEvents steps

theorem sent_foldl (gate : TurnGate) (finalize : FinalizeCall → Finalized) (finish : String) (steps : List RuntimeStep)
    (s : TurnState) :
    (steps.foldl (runStep gate) s).sent ++ ((onDone (some gate) finalize
        (finalizeCall (steps.foldl (runStep gate) s).collected (some finish) none) (.done (some finish) none)).frames.map
          Frame.chatEvent) =
      s.sent ++ (streamGated (some gate) finalize false s.collected
        (stepEvents steps ++ [.done (some finish) none])).frames.map Frame.chatEvent := by
  induction steps generalizing s with
  | nil => rfl
  | cons step steps ih =>
    rw [List.foldl_cons, ih]
    cases step with
    | token delta =>
      cases hbuffered : gate.buffered with
      | true => simp [runStep, stepEvents, streamGated, buffering, hbuffered, GatedStream.yielding]
      | false =>
        simp [runStep, stepEvents, streamGated, buffering, hbuffered, GatedStream.yielding, TurnState.send, Frame.chatEvent]
    | progress kind => simp [runStep, stepEvents, streamGated, GatedStream.yielding, TurnState.send, Frame.chatEvent]
    | write content => rfl
    | commit => rfl
    | checkpoint => rfl

theorem sent_eq_frames (t : GatedTurn) (finish : String) (hstart : t.gate.preGenerationRefusal = none)
    (hending : t.ending = .done finish) (hexit : t.doneExit = .passes) :
    (runTurn t).sent = (streamGated (some t.gate) (gateFinalize (fun text => some (t.gateAnswer text))) false []
      (stepEvents t.steps ++ [.done (some finish) none])).frames.map Frame.chatEvent := by
  have hsent := sent_foldl t.gate (gateFinalize (fun text => some (t.gateAnswer text))) finish t.steps {}
  rw [List.nil_append] at hsent
  rw [← hsent]
  unfold runTurn finishTurn
  rw [hstart, hending]
  rw [hexit]
  generalize t.steps.foldl (runStep t.gate) {} = s
  have hreplace : ∀ s : TurnState, (replaceContent t s).sent = s.sent := fun s => rfl
  show (replaceContent t (passGate t s)).sent ++ [.done finish] = _
  rw [hreplace]
  unfold passGate onDone gateFinalize
  dsimp only [finalizeCall]
  split <;> rename_i hreplaced <;> simp [buffering, hreplaced, TurnState.send, Frame.chatEvent]

end Chat
end MyGpt
