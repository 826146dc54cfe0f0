import MyGpt.Json
/-!
# HermesStream — a turn on a Hermes server

`stream_chat` with its two transports: a run that is submitted and subscribed to, and the inherited chat/completions with its
retries.  The server answers as it likes; what the inherited parser makes of a chat/completions body is given with the body.
A turn is submitted again only after an attempt that failed before its first delta; the contents of a completed run are its
text deltas or its final output.
-/
namespace MyGpt
namespace Hermes

abbrev Fields := List (String × Json)

/-! ## the events of a run -/

def firstTruthy (data : Fields) (keys : List String) : Option Json :=
  keys.findSome? (fun key => (Json.get data key).filter (·.truthy))

inductive Line
  | skipped
  | data (obj : Fields) (ns : Nat)

inductive StreamEnd
  | eof
  | transportError
  | raises

inductive Ended
  | returned
  /-- A `ProviderError`, or a transport error that becomes one. -/
  | failed
  | raised
  deriving DecidableEq

/-- `ChatDelta.meta`. -/
inductive Note
  | hermesTool (tool toolCallId label emoji status : Json)
  | hermesSubagent (subagentId label status summary duration tokens : Json)

structure Delta where
  content : String := ""
  finishReason : Option String := none
  usage : Option Fields := none
  note : Option Note := none

def runTerminalFinish : List (String × String) :=
  [("run.completed", "stop"), ("run.failed", "error"), ("run.cancelled", "cancelled")]

def deltaKinds : List String := ["message.delta", "assistant.delta", "token", "run.delta"]

structure RunState where
  finalUsage : Option Fields := none
  sawText : Bool := false

section
variable (repr : Json → String)

/-- `str(value)`, with `repr` for what is no string. -/
def str : Json → String
  | .str s => s
  | value => repr value

def kind (obj : Fields) : String := ((firstTruthy obj ["event", "type", "status"]).map (str repr)).getD ""

def dataOf (obj : Fields) : Fields :=
  match Json.get obj "data" with
  | some (.obj data) => data
  | _ => obj

def usageOf (obj : Fields) : Option Fields :=
  match Json.get obj "usage" with
  | some (.obj usage) => some usage
  | _ => none

def finalOutput (data : Fields) : String := ((firstTruthy data ["output", "message", "text"]).map (str repr)).getD ""

def deltaText (data : Fields) : Option String := (firstTruthy data ["delta", "text"]).map (str repr)

def toolNote (kind : String) (data : Fields) (ns : Nat) : Note :=
  let completed := kind == "tool.completed" || (Json.get data "status").any (fun v => match v with
    | .str s => s == "completed"
    | _ => false)
  .hermesTool ((firstTruthy data ["tool", "name"]).getD (.str "tool"))
    ((firstTruthy data ["toolCallId", "tool_call_id", "call_id"]).getD (.str s!"run-tool-{ns}"))
    ((firstTruthy data ["label"]).getD (.str "")) ((firstTruthy data ["emoji"]).getD (.str ""))
    (.str (if completed then "completed" else "running"))

def subagentNote (kind : String) (data : Fields) (ns : Nat) : Note :=
  .hermesSubagent ((firstTruthy data ["child_session_id", "subagent_id"]).getD (.str s!"subagent-{ns}"))
    ((firstTruthy data ["label", "name", "summary"]).getD (.str "子代理任务"))
    (if kind = "subagent.complete" then (Json.get data "status").getD .null else .str "running")
    ((firstTruthy data ["summary"]).getD (.str "")) ((Json.get data "duration").getD .null)
    ((Json.get data "tokens").getD .null)

def runEvent (s : RunState) (obj : Fields) (ns : Nat) : RunState × List Delta :=
  let k := kind repr obj
  let data := dataOf obj
  let usage := (usageOf obj).or s.finalUsage
  if k ∈ deltaKinds then
    match deltaText repr data with
    | some text => (⟨usage, true⟩, [{ content := text }])
    | none => (⟨usage, s.sawText⟩, [])
  else if k ∈ ["tool.started", "tool.completed", "hermes.tool.progress"] then
    (⟨usage, s.sawText⟩, [{ note := some (toolNote k data ns) }])
  else if k ∈ ["subagent.start", "subagent.complete"] then
    (⟨usage, s.sawText⟩, [{ note := some (subagentNote k data ns) }])
  else (⟨usage, s.sawText⟩, [])

def iterRunEvents (s : RunState) : List Line → StreamEnd → List Delta × Ended
  | [], .eof => ([{ finishReason := some "stop", usage := s.finalUsage }], .returned)
  | [], .transportError => ([], .failed)
  | [], .raises => ([], .raised)
  | .skipped :: rest, ends => iterRunEvents s rest ends
  | .data obj ns :: rest, ends =>
    match runTerminalFinish.lookup (kind repr obj) with
    | some finish =>
      ([{ content := if s.sawText then "" else finalOutput repr (dataOf obj)
          finishReason := some finish
          usage := (usageOf (dataOf obj)).or s.finalUsage }], .returned)
    | none =>
      let (s', deltas) := runEvent repr s obj ns
      let (more, ended) := iterRunEvents s' rest ends
      (deltas ++ more, ended)

end

/-! ## submissions -/

structure Message where
  role : String
  content : Json

structure RunPayload where
  input : String
  model : String
  sessionId : Option String
  instructions : Option String

/-- `p.get("text", "")` of the parts that are objects; a text that is no string makes `join` raise. -/
def partTexts : List Json → Option (List String)
  | [] => some []
  | .obj part :: rest =>
    match Json.field part "text" with
    | none => (partTexts rest).map ("" :: ·)
    | some (.str s) => (partTexts rest).map (s :: ·)
    | some _ => none
  | _ :: rest => partTexts rest

def inputText (messages : List Message) : Option String :=
  match (messages.filter (·.role = "user")).getLast? with
  | none => some ""
  | some m =>
    match m.content with
    | .str s => some s
    | .arr parts => (partTexts parts).map (" ".intercalate ·)
    | _ => some ""

def instructions (messages : List Message) : Option String :=
  ((messages.filter (·.role = "system")).getLast?).bind (fun m => match m.content with
    | .str s => if Chat.strip s.toList = [] then none else some s
    | _ => none)

inductive Via
  | runs (payload : RunPayload)
  | chat

def Via.isRuns : Via → Bool
  | .runs _ => true
  | .chat => false

structure Attempt where
  via : Via
  accepted : Bool
  deltas : List Delta
  ended : Ended

inductive Events
  | transportError
  | raises
  | status (code : Nat)
  | stream (lines : List Line) (ends : StreamEnd)

/-- The answer to `POST /runs`; one that does not arrive may have been taken. -/
inductive Submit
  | transportError (accepted : Bool)
  | raises (accepted : Bool)
  | status (code : Nat)
  | badBody
  | noRunId
  | run (events : Events)

/-- The answer to `POST /chat/completions`. -/
inductive Completion
  | transportError (accepted : Bool)
  | raises (accepted : Bool)
  | status (code : Nat)
  | stream (deltas : List Delta) (ends : StreamEnd)

structure Server where
  runsSupported : Bool
  submit : Submit
  completion : Nat → Completion
  /-- The payload passes `admit_provider_payload`. -/
  admitted : Bool
  mayRetry : Nat → Bool

structure Provider where
  model : String
  sessionId : String

def StreamEnd.ended : StreamEnd → Ended
  | .eof => .returned
  | .transportError => .failed
  | .raises => .raised

def subscribe (repr : Json → String) : Events → List Delta × Ended
  | .transportError => ([], .failed)
  | .raises => ([], .raised)
  | .status _ => ([], .failed)
  | .stream lines ends => iterRunEvents repr {} lines ends

/-- `_stream_via_runs`: its submission, if it comes to one, and how it ends. -/
def streamViaRuns (repr : Json → String) (p : Provider) (server : Server) (messages : List Message) : List Attempt × Ended :=
  match inputText messages with
  | none => ([], .raised)
  | some "" => ([], .failed)
  | some input =>
    let payload : RunPayload := ⟨input, p.model, if p.sessionId = "" then none else some p.sessionId, instructions messages⟩
    let attempt (accepted : Bool) (deltas : List Delta) (ended : Ended) : List Attempt × Ended :=
      ([⟨.runs payload, accepted, deltas, ended⟩], ended)
    match server.submit with
    | .transportError accepted => attempt accepted [] .failed
    | .raises accepted => attempt accepted [] .raised
    | .status _ => attempt false [] .failed
    | .badBody => attempt true [] .raised
    | .noRunId => attempt true [] .failed
    | .run events => attempt true (subscribe repr events).1 (subscribe repr events).2

def retryableStatus : List Nat := [408, 429, 500, 502, 503, 504]

/-- The attempts of the inherited `stream_chat` from the `n`-th on, `left` of them. -/
def completions (server : Server) : (left : Nat) → (n : Nat) → List Attempt
  | 0, _ => []
  | left + 1, n =>
    let retry (attempt : Attempt) : List Attempt :=
      if n < 5 ∧ server.mayRetry (n + 1) = true then attempt :: completions server left (n + 1) else [attempt]
    match server.completion n with
    | .transportError accepted => retry ⟨.chat, accepted, [], .failed⟩
    | .raises accepted => [⟨.chat, accepted, [], .raised⟩]
    | .status code => if code ∈ retryableStatus then retry ⟨.chat, false, [], .failed⟩ else [⟨.chat, false, [], .failed⟩]
    | .stream deltas ends => [⟨.chat, true, deltas, ends.ended⟩]

/-- `OpenAICompatibleProvider.stream_chat`. -/
def chatCompletions (server : Server) : List Attempt := if server.admitted then completions server 5 1 else []

/-- `stream_chat`: the submissions of the turn, in order. -/
def streamChat (repr : Json → String) (p : Provider) (server : Server) (messages : List Message) : List Attempt :=
  if server.runsSupported then
    let (attempts, ended) := streamViaRuns repr p server messages
    if ended = .failed ∧ attempts.all (·.deltas.isEmpty) = true then attempts ++ chatCompletions server else attempts
  else chatCompletions server

def yielded (attempts : List Attempt) : List Delta := attempts.flatMap (·.deltas)

def contents (deltas : List Delta) : String := String.join (deltas.map (·.content))

/-! ## what the caller is promised -/

def Attempt.Silent (a : Attempt) : Prop := a.ended = .failed ∧ a.deltas = []

/-- The turn is submitted again only after a silent attempt, at most once as a run, which comes first, and at most five times to
chat/completions; so that the server takes it at most once unless an attempt that it took was silent. -/
structure SubmittedOnce (attempts : List Attempt) : Prop where
  resubmits : ∀ before a after, attempts = before ++ a :: after → after ≠ [] → a.Silent
  chatOnly : ∀ a ∈ attempts.tail, a.via.isRuns = false
  bounded : attempts.length ≤ 6
  accepted : (∀ a ∈ attempts, a.accepted = true → ¬ a.Silent) → attempts.countP (·.accepted) ≤ 1

section
variable (repr : Json → String)

def eventText (obj : Fields) : Option String :=
  if kind repr obj ∈ deltaKinds then deltaText repr (dataOf obj) else none

def texts (lines : List Line) : List String :=
  lines.filterMap (fun line => match line with
    | .data obj _ => eventText repr obj
    | .skipped => none)

def Line.terminal : Line → Bool
  | .data obj _ => (runTerminalFinish.lookup (kind repr obj)).isSome
  | .skipped => false

/-- The run is submitted and its stream comes to a `run.completed`. -/
structure Completes (server : Server) (messages : List Message) (before : List Line) (obj : Fields) : Prop where
  supported : server.runsSupported = true
  input : ∃ input, inputText messages = some input ∧ input ≠ ""
  stream : ∃ ns after ends, server.submit = .run (.stream (before ++ .data obj ns :: after) ends)
  running : ∀ line ∈ before, line.terminal repr = false
  completed : kind repr obj = "run.completed"

end

/-! ## the attempts -/

def Silents : List Attempt → Prop
  | [] => True
  | [_] => True
  | a :: b :: rest => a.Silent ∧ Silents (b :: rest)

theorem silents_cons {a : Attempt} {as : List Attempt} (ha : a.Silent) (h : Silents as) : Silents (a :: as) := by
  cases as with
  | nil => trivial
  | cons b rest => exact ⟨ha, h⟩

theorem silent_of_silents (as : List Attempt) (h : Silents as) (before : List Attempt) (a : Attempt) (after : List Attempt)
    (hsplit : as = before ++ a :: after) (hafter : after ≠ []) : a.Silent := by
  induction before generalizing as with
  | nil =>
    subst hsplit
    cases after with
    | nil => exact absurd rfl hafter
    | cons b rest => exact h.1
  | cons b before ih =>
    subst hsplit
    refine ih (before ++ a :: after) ?_ rfl
    cases before with
    | nil => exact h.2
    | cons c before => exact h.2

theorem countP_accepted (as : List Attempt) (h : Silents as) (hloud : ∀ a ∈ as, a.accepted = true → ¬ a.Silent) :
    as.countP (·.accepted) ≤ 1 := by
  induction as with
  | nil => exact Nat.zero_le 1
  | cons a as ih =>
    cases as with
    | nil => exact List.countP_le_length
    | cons b rest =>
      have ha : ¬ a.accepted = true := fun hacc => hloud a List.mem_cons_self hacc h.1
      rw [List.countP_cons_of_neg ha]
      exact ih h.2 (fun c hc => hloud c (List.mem_cons_of_mem _ hc))

theorem completions_spec (server : Server) (left n : Nat) :
    Silents (completions server left n) ∧ (completions server left n).length ≤ left ∧
      ∀ a ∈ completions server left n, a.via.isRuns = false := by
  induction left generalizing n with
  | zero => exact ⟨trivial, Nat.le_refl 0, fun a h => by cases h⟩
  | succ left ih =>
    have hone : ∀ a : Attempt, a.via = .chat → Silents [a] ∧ [a].length ≤ left + 1 ∧ ∀ b ∈ [a], b.via.isRuns = false :=
      fun a ha => ⟨trivial, by simp, fun b hb => by rw [List.mem_singleton.1 hb, ha]; rfl⟩
    -- one more attempt, when the retry is allowed
    have hretry : ∀ a : Attempt, a.via = .chat → a.Silent →
        let as := if n < 5 ∧ server.mayRetry (n + 1) = true then a :: completions server left (n + 1) else [a]
        Silents as ∧ as.length ≤ left + 1 ∧ ∀ b ∈ as, b.via.isRuns = false := by
      intro a ha hs
      obtain ⟨hsil, hlen, hvia⟩ := ih (n + 1)
      simp only
      split
      · refine ⟨silents_cons hs hsil, Nat.succ_le_succ hlen, fun b hb => ?_⟩
        obtain rfl | hb := List.mem_cons.1 hb
        · rw [ha]
          rfl
        · exact hvia b hb
      · exact hone a ha
    unfold completions
    cases server.completion n with
    | transportError accepted => exact hretry _ rfl ⟨rfl, rfl⟩
    | raises accepted => exact hone _ rfl
    | status code =>
      simp only
      split
      · exact hretry _ rfl ⟨rfl, rfl⟩
      · exact hone _ rfl
    | stream deltas ends => exact hone _ rfl

theorem chatCompletions_spec (server : Server) :
    Silents (chatCompletions server) ∧ (chatCompletions server).length ≤ 5 ∧
      ∀ a ∈ chatCompletions server, a.via.isRuns = false := by
  unfold chatCompletions
  split
  · exact completions_spec server 5 1
  · exact ⟨trivial, Nat.zero_le 5, fun a h => by cases h⟩

theorem streamViaRuns_spec (repr : Json → String) (p : Provider) (server : Server) (messages : List Message) :
    (streamViaRuns repr p server messages).1 = [] ∨
      ∃ a, (streamViaRuns repr p server messages).1 = [a] ∧ a.ended = (streamViaRuns repr p server messages).2 := by
  unfold streamViaRuns
  split
  · exact .inl rfl
  · exact .inl rfl
  · refine .inr ?_
    cases server.submit <;> exact ⟨_, rfl, rfl⟩

theorem submittedOnce_of_chat {server : Server} : SubmittedOnce (chatCompletions server) := by
  obtain ⟨hsil, hlen, hvia⟩ := chatCompletions_spec server
  exact ⟨silent_of_silents _ hsil, fun a ha => hvia a (List.mem_of_mem_tail ha), Nat.le_succ_of_le hlen, countP_accepted _ hsil⟩

theorem submittedOnce_cons {server : Server} {a : Attempt} (ha : a.Silent) : SubmittedOnce (a :: chatCompletions server) := by
  obtain ⟨hsil, hlen, hvia⟩ := chatCompletions_spec server
  have h := silents_cons ha hsil
  exact ⟨silent_of_silents _ h, hvia, Nat.succ_le_succ hlen, countP_accepted _ h⟩

theorem submittedOnce_single (a : Attempt) : SubmittedOnce [a] :=
  ⟨silent_of_silents [a] trivial, fun b hb => (by cases hb), by simp, countP_accepted [a] trivial⟩

theorem streamChat_submittedOnce (repr : Json → String) (p : Provider) (server : Server) (messages : List Message) :
    SubmittedOnce (streamChat repr p server messages) := by
  unfold streamChat
  split
  · simp only
    obtain hnone | ⟨a, hone, hended⟩ := streamViaRuns_spec repr p server messages
    · rw [hnone]
      split
      · exact submittedOnce_of_chat
      · exact ⟨silent_of_silents [] trivial, fun b hb => (by cases hb), by simp, countP_accepted [] trivial⟩
    · rw [hone]
      split
      · next h =>
        refine submittedOnce_cons ⟨hended.trans h.1, ?_⟩
        simpa using h.2
      · exact submittedOnce_single a
  · exact submittedOnce_of_chat

/-! ## the contents of a run -/

theorem contents_append (a b : List Delta) : contents (a ++ b) = contents a ++ contents b := by
  unfold contents
  rw [List.map_append, String.join_append]

theorem runEvent_spec (repr : Json → String) (s : RunState) (obj : Fields) (ns : Nat) :
    contents (runEvent repr s obj ns).2 = String.join (eventText repr obj).toList ∧
      (runEvent repr s obj ns).1.sawText = (s.sawText || (eventText repr obj).isSome) := by
  unfold runEvent eventText
  simp only
  split
  · cases deltaText repr (dataOf obj) with
    | none => simp [contents]
    | some text => simp [contents]
  · split
    · simp [contents]
    · split
      · simp [contents]
      · simp [contents]

theorem texts_cons (repr : Json → String) (obj : Fields) (ns : Nat) (lines : List Line) :
    texts repr (.data obj ns :: lines) = (eventText repr obj).toList ++ texts repr lines := by
  unfold texts
  rw [List.filterMap_cons]
  simp only
  cases eventText repr obj <;> rfl

theorem iterRunEvents_completed (repr : Json → String) {before : List Line} {obj : Fields} (ns : Nat) (after : List Line)
    (ends : StreamEnd) (hrun : ∀ line ∈ before, line.terminal repr = false) (hdone : kind repr obj = "run.completed") (s : RunState) :
    let out := iterRunEvents repr s (before ++ .data obj ns :: after) ends
    contents out.1 = String.join (texts repr before) ++
        (if s.sawText || !(texts repr before).isEmpty then "" else finalOutput repr (dataOf obj)) ∧
      out.2 = .returned ∧ out.1 ≠ [] := by
  induction before generalizing s with
  | nil =>
    have hlookup : runTerminalFinish.lookup (kind repr obj) = some "stop" := by
      rw [hdone]
      rfl
    simp only [List.nil_append, iterRunEvents, hlookup]
    refine ⟨?_, by simp, by simp⟩
    cases hs : s.sawText <;> simp [contents, texts]
  | cons line before ih =>
    have hrest := ih (fun l hl => hrun l (List.mem_cons_of_mem _ hl))
    cases line with
    | skipped => exact hrest s
    | data o m =>
      have hgoes : runTerminalFinish.lookup (kind repr o) = none := by
        have := hrun _ List.mem_cons_self
        simpa [Line.terminal] using this
      obtain ⟨htext, hsaw⟩ := runEvent_spec repr s o m
      obtain ⟨hcontents, hended, hne⟩ := hrest (runEvent repr s o m).1
      simp only [List.cons_append, iterRunEvents, hgoes]
      refine ⟨?_, hended, fun h => hne (List.append_eq_nil_iff.1 h).2⟩
      rw [contents_append, htext, hcontents, hsaw, texts_cons, String.join_append, String.append_assoc]
      cases eventText repr o <;> simp

theorem streamChat_completed (repr : Json → String) (p : Provider) {server : Server} {messages : List Message} {before : List Line}
    {obj : Fields} (h : Completes repr server messages before obj) :
    contents (yielded (streamChat repr p server messages)) =
      if texts repr before = [] then finalOutput repr (dataOf obj) else String.join (texts repr before) := by
  obtain ⟨input, hinput, hne⟩ := h.input
  obtain ⟨ns, after, ends, hstream⟩ := h.stream
  obtain ⟨hcontents, hended, hdeltas⟩ := iterRunEvents_completed repr ns after ends h.running h.completed {}
  have hruns : ∃ a, (streamViaRuns repr p server messages).1 = [a] ∧ (streamViaRuns repr p server messages).2 = .returned ∧
      a.deltas = (iterRunEvents repr {} (before ++ .data obj ns :: after) ends).1 := by
    unfold streamViaRuns
    rw [hinput, hstream]
    split
    · next heq => cases heq
    · next heq => exact absurd (Option.some.inj heq) hne
    · exact ⟨_, rfl, hended, rfl⟩
  obtain ⟨a, hone, hreturned, ha⟩ := hruns
  have hchat : streamChat repr p server messages = [a] := by
    unfold streamChat
    rw [if_pos h.supported]
    simp [hone, hreturned]
  rw [hchat]
  show contents ([a].flatMap (·.deltas)) = _
  rw [List.flatMap_singleton, ha, hcontents]
  by_cases ht : texts repr before = []
  · simp [ht]
  · simp [ht]

/-- **How often a turn is submitted, and what a completed run says.** -/
theorem turn_submitted (repr : Json → String) (p : Provider) (server : Server) (messages : List Message) :
    SubmittedOnce (streamChat repr p server messages) ∧
      ∀ before obj, Completes repr server messages before obj →
        contents (yielded (streamChat repr p server messages)) =
          if texts repr before = [] then finalOutput repr (dataOf obj) else String.join (texts repr before) :=
  ⟨streamChat_submittedOnce repr p server messages, fun _ _ h => streamChat_completed repr p h⟩

def delta (text : String) : Line := .data [("event", .str "message.delta"), ("delta", .str text)] 0

def done : Fields := [("event", .str "run.completed"), ("output", .str "Hello")]

def twoDeltas : Server where
  runsSupported := true
  submit := .run (.stream [delta "Hel", delta "lo", .data done 0] .eof)
  completion := fun _ => .status 500
  admitted := true
  mayRetry := fun _ => true

def hello : List Message := [⟨"user", .str "hello"⟩]

theorem turn_submitted_two_deltas :
    (streamChat (fun _ => "") ⟨"hermes-agent", ""⟩ twoDeltas hello).countP (·.accepted) ≤ 1 ∧
      contents (yielded (streamChat (fun _ => "") ⟨"hermes-agent", ""⟩ twoDeltas hello)) = "Hello" := by
  obtain ⟨honce, hcontents⟩ := turn_submitted (fun _ => "") ⟨"hermes-agent", ""⟩ twoDeltas hello
  refine ⟨honce.accepted (fun a ha _ hs => ?_), ?_⟩
  · obtain rfl := List.mem_singleton.1 ha
    exact absurd hs.1 (by decide)
  · refine (hcontents [delta "Hel", delta "lo"] done ⟨rfl, ⟨"hello", rfl, by decide⟩, ⟨0, [], .eof, rfl⟩, ?_, rfl⟩).trans rfl
    intro line hline
    obtain rfl | hline := List.mem_cons.1 hline
    · rfl
    · obtain rfl := List.mem_singleton.1 hline
      rfl

def noEvents : Server where
  runsSupported := true
  submit := .run (.status 404)
  completion := fun _ => .stream [{ content := "Hello" }] .eof
  admitted := true
  mayRetry := fun _ => true

/-- **Taken twice.** -/
theorem refused_events_submit_again :
    ¬ ∀ repr p server messages, server.runsSupported = true → (streamChat repr p server messages).countP (·.accepted) ≤ 1 := by
  intro h
  exact absurd (h (fun _ => "") ⟨"hermes-agent", ""⟩ noEvents hello rfl) (by decide)

end Hermes
end MyGpt
