import MyGpt.NativeRounds
import Mathlib.Data.List.Basic
import Mathlib.Data.List.Induction
/-!
# GatedTurn — what a turn behind the answer gate sends and stores

`stream_gated` holds the tokens of a buffered turn back until the gate has passed its text, but the runtime writes the
growing text onto the message object, and every commit of the turn before the gate stores it.  Nothing ungated is sent
(`sent_allowed`); nothing ungated is stored exactly when each of those commits finds no model text (`never_exposes_iff`).
-/
namespace MyGpt
namespace Chat

/-! ## source markers -/

/-- A letter of a pattern under `re.IGNORECASE`. -/
def matchesLetter (c letter : Char) : Bool := c.toLower == letter || (letter == 's' && c == 'ſ')

/-- `source` or its Chinese word, and what follows it. -/
def afterSourceWord (text : Text) : Option Text :=
  let word := ['s', 'o', 'u', 'r', 'c', 'e']
  if (text.take 6).length = 6 ∧ ((text.take 6).zip word).all (fun cw => matchesLetter cw.1 cw.2) then some (text.drop 6)
  else
    match text with
    | '来' :: '源' :: rest => some rest
    | _ => none

/-- `_SOURCE_MARKER` at the head of a text: its number, and the text after it. -/
def sourceMarker : Text → Option (Nat × Text)
  | '[' :: rest =>
    match afterSourceWord (rest.dropWhile isSpace) with
    | none => none
    | some rest =>
      let rest := rest.dropWhile (fun c => isSpace c || c == ':' || c == '：')
      let digits := rest.takeWhile (fun c => (digitValue c).isSome)
      match digits, (rest.dropWhile (fun c => (digitValue c).isSome)).dropWhile isSpace with
      | _ :: _, ']' :: rest => some (digits.foldl (fun n c => 10 * n + (digitValue c).getD 0) 0, rest)
      | _, _ => none
  | _ => none

/-- `_SOURCE_MARKER.sub`: the unbacked markers out, and whether there was one.  A text as long as its fuel is done. -/
def stripMarkers (citations : Nat) : Nat → Text → Text × Bool
  | 0, text => (text, false)
  | _, [] => ([], false)
  | fuel + 1, c :: text =>
    match sourceMarker (c :: text) with
    | some (n, rest) =>
      let (out, changed) := stripMarkers citations fuel rest
      if 1 ≤ n ∧ n ≤ citations then ((c :: text).take (text.length + 1 - rest.length) ++ out, changed) else (out, true)
    | none =>
      let (out, changed) := stripMarkers citations fuel text
      (c :: out, changed)

/-- `re.sub(r"[ \\t]{2,}", " ", ..)`, with the blanks read and not yet written. -/
def collapseBlanks : Text → Text → Text
  | run, [] => if 2 ≤ run.length then [' '] else run
  | run, c :: rest =>
    if c = ' ' ∨ c = '\t' then collapseBlanks (run ++ [c]) rest
    else (if 2 ≤ run.length then [' '] else run) ++ c :: collapseBlanks [] rest

def punctuation : List Char := ['，', '。', '、', '；', ';', '：', ':', '！', '？', '!', '?', ',', '.']

/-- `re.sub(r"\\s+([，。、；;：:！？!?,.])", r"\\1", ..)`, with the whitespace read and not yet written. -/
def tidyPunctuation : Text → Text → Text
  | run, [] => run
  | run, c :: rest =>
    if isSpace c then tidyPunctuation (run ++ [c]) rest
    else if punctuation.contains c then c :: tidyPunctuation [] rest
    else run ++ c :: tidyPunctuation [] rest

/-- `sanitize_unbacked_source_markers`. -/
def sanitizeMarkers (text : Text) (citations : Nat) : Text :=
  match stripMarkers citations text.length text with
  | (out, true) => strip (tidyPunctuation [] (collapseBlanks [] out))
  | (out, false) => out

/-! ## the gate -/

inductive AnswerStatus
  | answered | insufficientEvidence | clarificationNeeded | refused
  deriving DecidableEq

/-- What `gate_answer` makes of an answer. -/
structure PostprocessOutcome where
  answer : Text
  status : AnswerStatus := .answered
  droppedClaims : Nat := 0
  deriving DecidableEq

structure GateResult where
  answer : Text
  status : AnswerStatus
  refused : Bool
  correctedText : Option Text
  message : Text
  deriving DecidableEq

def refusalInsufficientEvidence : Text :=
  "根据当前知识库内容无法确定。\n\n可以试着补充更具体的线索（文档名、章节、错误码、时间范围），或者把相关文件直接发给我。".toList

def refusalHighRisk : Text :=
  ("这类问题需要逐条核对依据（合规、财务、权限、安全等），而当前检索到的资料不足以支撑一个可核验的回答，因此我不作答复。\n\n" ++
    "建议查阅原始文件，或转由对应的负责人确认。").toList

structure TurnGate where
  highRisk : Bool := true
  kbExplicit : Bool := false
  buffered : Bool := true
  ragAttempted : Bool := true
  retrievalInsufficient : Bool := false
  deriving DecidableEq

/-- `open_turn_gate`: buffered where the setting is on, the question is of high risk and there is a knowledge base. -/
def openTurnGate (bufferHighRisk highRisk kbExplicit : Bool) (knowledgeBases : Nat) : TurnGate where
  highRisk := highRisk
  kbExplicit := kbExplicit
  buffered := bufferHighRisk && highRisk && knowledgeBases != 0
  ragAttempted := false
  retrievalInsufficient := true

def TurnGate.preGenerationRefusal (gate : TurnGate) : Option Text :=
  if !gate.ragAttempted || !gate.retrievalInsufficient then none
  else if gate.kbExplicit then some refusalInsufficientEvidence
  else if gate.highRisk then some refusalHighRisk
  else none

/-- `TurnGate.finalize` on what `gate_answer` made of the text. -/
def finalize (outcome : PostprocessOutcome) : GateResult :=
  let refused := outcome.status = .refused ∨ outcome.status = .insufficientEvidence
  let dropped := ("有 " ++ toString outcome.droppedClaims ++ " 条主张没有通过依据核查，已从回答中移除。").toList
  { answer :=
      if outcome.status = .insufficientEvidence then refusalInsufficientEvidence
      else if refused then refusalHighRisk
      else outcome.answer
    status := outcome.status
    refused := refused
    correctedText := if refused ∨ outcome.droppedClaims = 0 then none else some outcome.answer
    message :=
      if outcome.status = .insufficientEvidence then refusalInsufficientEvidence
      else if refused then refusalHighRisk
      else if outcome.droppedClaims = 0 then [] else dropped }

/-! ## the turn -/

inductive ChatEvent
  | token (delta : Text) (replace : Bool)
  | validation (message : Text) (correctedText : Option Text)
  | progress (kind : String)
  | done (finish : String)
  | error (code : String)
  deriving DecidableEq

def ChatEvent.answerTexts : ChatEvent → List Text
  | .token delta _ => [delta]
  | .validation _ correctedText => correctedText.toList
  | _ => []

structure Stored where
  text : Text
  result : Option GateResult
  deriving DecidableEq

structure TurnState where
  /-- `assistant_msg.content` -/
  held : Text := []
  /-- what `stream_gated` collected -/
  collected : Text := []
  result : Option GateResult := none
  sent : List ChatEvent := []
  stored : List Stored := []
  deriving DecidableEq

def TurnState.send (s : TurnState) (evt : ChatEvent) : TurnState := { s with sent := s.sent ++ [evt] }

def TurnState.store (s : TurnState) : TurnState := { s with stored := s.stored ++ [⟨s.held, s.result⟩] }

/-- A step of the runtime, with what `stream_gated` lets through of it. -/
def runStep (gate : TurnGate) (s : TurnState) : RuntimeStep → TurnState
  | .token delta =>
    let s := { s with collected := s.collected ++ delta }
    if gate.buffered then s else s.send (.token delta false)
  | .progress kind => s.send (.progress kind)
  | .write content => { s with held := content }
  | .commit | .checkpoint => s.store

/-- The inline turn of the chat API, or `run_durable_turn`. -/
inductive Path
  | inline | durable
  deriving DecidableEq

/-- How the turn goes after the `done` of its runtime. -/
inductive DoneExit
  | passes | gateFails | gateCancelled | settleFails | settleCancelled
  deriving DecidableEq

structure GatedTurn where
  path : Path
  gate : TurnGate
  citations : Nat
  /-- `gate_answer` on the collected text -/
  gateAnswer : Text → PostprocessOutcome
  steps : List RuntimeStep
  ending : RuntimeEnd
  doneExit : DoneExit := .passes
  commits : Bool := true

/-- `stream_gated` on `done`: the gate's result goes out before it. -/
def passGate (t : GatedTurn) (s : TurnState) : TurnState :=
  let result := finalize (t.gateAnswer s.collected)
  let s := { s with result := some result }.send (.validation result.message result.correctedText)
  if t.gate.buffered || result.refused then s.send (.token result.answer true) else s

/-- The turn service on `done`: the gate's text replaces the runtime's; inline its unbacked markers go. -/
def replaceContent (t : GatedTurn) (s : TurnState) : TurnState :=
  let answer := (s.result.map (·.answer)).getD s.held
  { s with held := match t.path with
    | .inline => sanitizeMarkers answer t.citations
    | .durable => answer }

def finishTurn (t : GatedTurn) (s : TurnState) : TurnState :=
  match t.ending with
  | .done finish =>
    match t.doneExit with
    | .passes => (replaceContent t (passGate t s)).store.send (.done finish)
    | .gateFails => s
    -- `_finalize_interrupted` commits whatever the message object holds
    | .gateCancelled => if t.commits then s.store else s
    | .settleFails => replaceContent t (passGate t s)
    | .settleCancelled => if t.commits then (replaceContent t (passGate t s)).store else replaceContent t (passGate t s)
  -- `_finalize_error` keeps the partial text
  | .error code => if t.commits then s.store.send (.error code) else s
  | .cancelled => if t.commits then s.store else s
  | .stopped => s

/-- `_refuse_before_generation`. -/
def refuseTurn (t : GatedTurn) (refusal : Text) : TurnState :=
  let s : TurnState := { held := refusal }
  if t.commits then
    ((s.store.send (.validation refusal none)).send (.token refusal true)).send (.done "stop")
  else s

def runTurn (t : GatedTurn) : TurnState :=
  match t.gate.preGenerationRefusal with
  | some refusal => refuseTurn t refusal
  | none => finishTurn t (t.steps.foldl (runStep t.gate) {})

/-! ## what may be exposed -/

def refusals : List Text := [refusalInsufficientEvidence, refusalHighRisk]

def SafeText (text : Text) : Prop := text = [] ∨ text ∈ refusals

def AllowedText (result : Option GateResult) (text : Text) : Prop :=
  SafeText text ∨ ∃ r, result = some r ∧ text = r.answer

/-- **Every answer text sent or stored is empty, a refusal, or the text of a gate result.** -/
def NeverExposes (t : GatedTurn) : Prop :=
  (∀ evt ∈ (runTurn t).sent, ∀ text ∈ evt.answerTexts, AllowedText (runTurn t).result text) ∧
    ∀ st ∈ (runTurn t).stored, AllowedText st.result st.text

def tokenText : List RuntimeStep → Text
  | [] => []
  | .token delta :: rest => delta ++ tokenText rest
  | _ :: rest => tokenText rest

def GatedTurn.gatedText (t : GatedTurn) : Text := (finalize (t.gateAnswer (tokenText t.steps))).answer

def EndingOk (t : GatedTurn) : Prop :=
  match t.ending, t.doneExit with
  | .done _, .gateCancelled | .error _, _ | .cancelled, _ => t.commits = true → SafeText (writtenBy t.steps)
  | .done _, .settleCancelled => t.commits = true → t.path = .inline →
      AllowedText (some (finalize (t.gateAnswer (tokenText t.steps)))) (sanitizeMarkers t.gatedText t.citations)
  | .done _, .passes => t.path = .inline →
      AllowedText (some (finalize (t.gateAnswer (tokenText t.steps)))) (sanitizeMarkers t.gatedText t.citations)
  | _, _ => True

/-- **Refused before it starts, or no commit before the gate finds model text**: neither a commit of the session nor a
checkpoint while the runtime runs, nor the last commit of a turn that ends without the gate. -/
def NothingToExpose (t : GatedTurn) : Prop :=
  t.gate.preGenerationRefusal.isSome = true ∨
    (∀ before after, (t.steps = before ++ .commit :: after ∨ t.steps = before ++ .checkpoint :: after) →
      SafeText (writtenBy before)) ∧ EndingOk t

/-! ## while the runtime runs -/

/-- The runtime commits `text` at some step. -/
def CommitsText (steps : List RuntimeStep) (text : Text) : Prop :=
  ∃ before after, (steps = before ++ .commit :: after ∨ steps = before ++ .checkpoint :: after) ∧ text = writtenBy before

theorem concat_eq_cons_append {α : Type} {xs before after : List α} {x c : α} :
    xs ++ [x] = before ++ c :: after ↔
      (after = [] ∧ xs = before ∧ x = c) ∨ ∃ rest, after = rest ++ [x] ∧ xs = before ++ c :: rest := by
  constructor
  · intro h
    rcases List.eq_nil_or_concat' after with rfl | ⟨rest, y, rfl⟩
    · obtain ⟨hxs, hx⟩ := List.append_inj' h rfl
      exact .inl ⟨rfl, hxs, by simpa using hx⟩
    · rw [← List.cons_append, ← List.append_assoc] at h
      obtain ⟨hxs, hx⟩ := List.append_inj' h rfl
      obtain rfl : x = y := by simpa using hx
      exact .inr ⟨rest, rfl, hxs⟩
  · rintro (⟨rfl, rfl, rfl⟩ | ⟨rest, rfl, rfl⟩)
    · rfl
    · rw [← List.cons_append, ← List.append_assoc]

theorem commitsText_nil (text : Text) : ¬ CommitsText [] text := by
  rintro ⟨before, after, h | h, -⟩
  · cases before <;> cases h
  · cases before <;> cases h

theorem commitsText_concat (steps : List RuntimeStep) (step : RuntimeStep) (text : Text) :
    CommitsText (steps ++ [step]) text ↔
      CommitsText steps text ∨ (step = .commit ∨ step = .checkpoint) ∧ text = writtenBy steps := by
  constructor
  · rintro ⟨before, after, h, htext⟩
    rw [concat_eq_cons_append, concat_eq_cons_append] at h
    rcases h with (⟨-, rfl, hc⟩ | ⟨rest, -, hs⟩) | (⟨-, rfl, hc⟩ | ⟨rest, -, hs⟩)
    · exact .inr ⟨.inl hc, htext⟩
    · exact .inl ⟨before, rest, .inl hs, htext⟩
    · exact .inr ⟨.inr hc, htext⟩
    · exact .inl ⟨before, rest, .inr hs, htext⟩
  · rintro (⟨before, after, h | h, htext⟩ | ⟨rfl | rfl, htext⟩)
    · exact ⟨before, after ++ [step], .inl (by rw [h, List.append_assoc]; rfl), htext⟩
    · exact ⟨before, after ++ [step], .inr (by rw [h, List.append_assoc]; rfl), htext⟩
    · exact ⟨steps, [], .inl rfl, htext⟩
    · exact ⟨steps, [], .inr rfl, htext⟩

theorem tokenText_append (steps more : List RuntimeStep) : tokenText (steps ++ more) = tokenText steps ++ tokenText more := by
  induction steps with
  | nil => rfl
  | cons step rest ih =>
    cases step with
    | token delta => simp only [List.cons_append, tokenText, ih, List.append_assoc]
    | _ => simpa only [List.cons_append, tokenText] using ih

structure BeforeGate (steps : List RuntimeStep) (s : TurnState) : Prop where
  held : s.held = writtenBy steps
  collected : s.collected = tokenText steps
  result : s.result = none
  sent : ∀ evt ∈ s.sent, evt.answerTexts = []
  stored : ∀ st, st ∈ s.stored ↔ st.result = none ∧ CommitsText steps st.text

theorem beforeGate_init : BeforeGate [] {} :=
  ⟨rfl, rfl, rfl, fun _ h => (by cases h), fun st => ⟨fun h => (by cases h), fun h => absurd h.2 (commitsText_nil _)⟩⟩

theorem BeforeGate.store {steps : List RuntimeStep} {s : TurnState} (h : BeforeGate steps s) {step : RuntimeStep}
    (hstep : step = .commit ∨ step = .checkpoint) : BeforeGate (steps ++ [step]) s.store := by
  have hwritten : writtenBy (steps ++ [step]) = writtenBy steps := by
    rcases hstep with rfl | rfl <;> simp [writtenBy_append]
  have htoken : tokenText (steps ++ [step]) = tokenText steps := by
    rcases hstep with rfl | rfl <;> simp [tokenText_append, tokenText]
  refine ⟨hwritten ▸ h.held, htoken ▸ h.collected, h.result, h.sent, fun st => ?_⟩
  rw [commitsText_concat]
  simp only [TurnState.store, List.mem_append, List.mem_singleton, h.stored st, h.held, h.result]
  constructor
  · rintro (⟨hres, hst⟩ | rfl)
    · exact ⟨hres, .inl hst⟩
    · exact ⟨rfl, .inr ⟨hstep, rfl⟩⟩
  · rintro ⟨hres, hst | ⟨-, htext⟩⟩
    · exact .inl ⟨hres, hst⟩
    · refine .inr ?_
      cases st
      dsimp only at hres htext
      rw [hres, htext]

theorem beforeGate_step {gate : TurnGate} (hbuf : gate.buffered = true) {steps : List RuntimeStep} {s : TurnState}
    (h : BeforeGate steps s) (step : RuntimeStep) : BeforeGate (steps ++ [step]) (runStep gate s step) := by
  have hstored : step ≠ .commit → step ≠ .checkpoint → ∀ st, st ∈ s.stored ↔
      st.result = none ∧ CommitsText (steps ++ [step]) st.text := by
    intro hcommit hcheck st
    rw [h.stored st, commitsText_concat]
    simp [hcommit, hcheck]
  cases step with
  | token delta =>
    have hrun : runStep gate s (.token delta) = { s with collected := s.collected ++ delta } := by
      simp [runStep, hbuf]
    rw [hrun]
    refine ⟨?_, ?_, h.result, h.sent, hstored (by simp) (by simp)⟩
    · simpa [writtenBy_append] using h.held
    · simp [tokenText_append, tokenText, h.collected]
  | progress kind =>
    refine ⟨?_, ?_, h.result, fun evt hevt => ?_, hstored (by simp) (by simp)⟩
    · simpa [runStep, TurnState.send, writtenBy_append] using h.held
    · simpa [runStep, TurnState.send, tokenText_append, tokenText] using h.collected
    · rcases List.mem_append.1 hevt with hevt | hevt
      · exact h.sent evt hevt
      · obtain rfl := List.mem_singleton.1 hevt
        rfl
  | write content =>
    refine ⟨?_, ?_, h.result, h.sent, hstored (by simp) (by simp)⟩
    · simp [runStep, writtenBy_append]
    · simpa [runStep, tokenText_append, tokenText] using h.collected
  | commit => exact h.store (.inl rfl)
  | checkpoint => exact h.store (.inr rfl)

theorem beforeGate_run {gate : TurnGate} (hbuf : gate.buffered = true) (steps : List RuntimeStep) :
    BeforeGate steps (steps.foldl (runStep gate) {}) := by
  induction steps using List.reverseRecOn with
  | nil => exact beforeGate_init
  | append_singleton steps step ih =>
    rw [List.foldl_append]
    exact beforeGate_step hbuf ih step

/-! ## every turn -/

theorem allowed_none {text : Text} : AllowedText none text ↔ SafeText text := by
  unfold AllowedText
  simp

theorem SafeText.allowed {text : Text} (h : SafeText text) (result : Option GateResult) : AllowedText result text := .inl h

theorem finalize_corrected {outcome : PostprocessOutcome} {text : Text}
    (h : (finalize outcome).correctedText = some text) : text = (finalize outcome).answer := by
  unfold finalize at h ⊢
  dsimp only at h ⊢
  split at h
  · cases h
  · rename_i hnot
    obtain ⟨hrefused, -⟩ := not_or.1 hnot
    have hst := not_or.1 hrefused
    rw [if_neg hst.2, if_neg hrefused]
    exact (Option.some.inj h).symm

theorem preGenerationRefusal_mem {gate : TurnGate} {refusal : Text} (h : gate.preGenerationRefusal = some refusal) :
    refusal ∈ refusals := by
  unfold TurnGate.preGenerationRefusal at h
  split at h
  · cases h
  · split at h
    · rw [← Option.some.inj h]; exact List.mem_cons_self
    · split at h
      · rw [← Option.some.inj h]; exact List.mem_cons_of_mem _ List.mem_cons_self
      · cases h

theorem refuseTurn_exposes (t : GatedTurn) {refusal : Text} (href : refusal ∈ refusals)
    (hrun : runTurn t = refuseTurn t refusal) : NeverExposes t := by
  unfold NeverExposes
  rw [hrun]
  unfold refuseTurn
  have hsafe : SafeText refusal := .inr href
  by_cases hc : t.commits = true
  · rw [if_pos hc]
    refine ⟨fun evt hevt text htext => ?_, fun st hst => ?_⟩
    · simp only [TurnState.send, TurnState.store, List.nil_append, List.cons_append, List.mem_cons, List.not_mem_nil,
        or_false] at hevt
      rcases hevt with rfl | rfl | rfl
      · cases htext
      · obtain rfl := List.mem_singleton.1 htext
        exact hsafe.allowed _
      · cases htext
    · simp only [TurnState.send, TurnState.store, List.nil_append, List.mem_singleton] at hst
      rw [hst]
      exact hsafe.allowed _
  · rw [if_neg hc]
    exact ⟨fun evt hevt => (by cases hevt), fun st hst => (by cases hst)⟩

section
variable {t : GatedTurn} {s : TurnState}

theorem passGate_result (h : BeforeGate t.steps s) :
    (passGate t s).result = some (finalize (t.gateAnswer (tokenText t.steps))) := by
  unfold passGate
  rw [h.collected]
  dsimp only
  split <;> rfl

theorem passGate_stored (t : GatedTurn) (s : TurnState) : (passGate t s).stored = s.stored := by
  unfold passGate
  dsimp only
  split <;> rfl

theorem passGate_sent (h : BeforeGate t.steps s) : ∀ evt ∈ (passGate t s).sent, ∀ text ∈ evt.answerTexts,
    AllowedText (some (finalize (t.gateAnswer (tokenText t.steps)))) text := by
  intro evt hevt text htext
  unfold passGate at hevt
  rw [h.collected] at hevt
  generalize hres : finalize (t.gateAnswer (tokenText t.steps)) = result at hevt ⊢
  have hvalidation : ∀ evt ∈ s.sent ++ [.validation result.message result.correctedText], ∀ text ∈ evt.answerTexts,
      AllowedText (some result) text := by
    intro evt hevt text htext
    rcases List.mem_append.1 hevt with hevt | hevt
    · rw [h.sent evt hevt] at htext
      cases htext
    · obtain rfl := List.mem_singleton.1 hevt
      have hcorrected : result.correctedText = some text := Option.mem_toList.1 htext
      rw [← hres] at hcorrected
      exact .inr ⟨result, rfl, by rw [← hres]; exact finalize_corrected hcorrected⟩
  dsimp only at hevt
  split at hevt
  · rcases List.mem_append.1 hevt with hevt | hevt
    · exact hvalidation evt hevt text htext
    · obtain rfl := List.mem_singleton.1 hevt
      obtain rfl := List.mem_singleton.1 htext
      exact .inr ⟨result, rfl, rfl⟩
  · exact hvalidation evt hevt text htext

theorem replaceContent_held (h : BeforeGate t.steps s) : (replaceContent t (passGate t s)).held =
    match t.path with
    | .inline => sanitizeMarkers t.gatedText t.citations
    | .durable => t.gatedText := by
  unfold replaceContent
  rw [passGate_result h]
  rfl

theorem replaceContent_allowed (h : BeforeGate t.steps s) :
    AllowedText (some (finalize (t.gateAnswer (tokenText t.steps)))) (replaceContent t (passGate t s)).held ↔
      (t.path = .inline → AllowedText (some (finalize (t.gateAnswer (tokenText t.steps))))
        (sanitizeMarkers t.gatedText t.citations)) := by
  rw [replaceContent_held h]
  cases hp : t.path with
  | inline => simp
  | durable =>
    have hown : AllowedText (some (finalize (t.gateAnswer (tokenText t.steps)))) t.gatedText := .inr ⟨_, rfl, rfl⟩
    simp [hown]

theorem sent_allowed (h : BeforeGate t.steps s) : ∀ evt ∈ (finishTurn t s).sent, ∀ text ∈ evt.answerTexts,
    AllowedText (finishTurn t s).result text := by
  have hbefore : ∀ r, ∀ evt ∈ s.sent, ∀ text ∈ evt.answerTexts, AllowedText r text := by
    intro r evt hevt text htext
    rw [h.sent evt hevt] at htext
    cases htext
  have hpassed : ∀ evt ∈ (passGate t s).sent, ∀ text ∈ evt.answerTexts,
      AllowedText (passGate t s).result text := by
    rw [passGate_result h]
    exact passGate_sent h
  have hlast : ∀ {r : Option GateResult} {sent : List ChatEvent} {last : ChatEvent}, last.answerTexts = [] →
      (∀ evt ∈ sent, ∀ text ∈ evt.answerTexts, AllowedText r text) →
      ∀ evt ∈ sent ++ [last], ∀ text ∈ evt.answerTexts, AllowedText r text := by
    intro r sent last hl hsent evt hevt text htext
    rcases List.mem_append.1 hevt with hevt | hevt
    · exact hsent evt hevt text htext
    · obtain rfl := List.mem_singleton.1 hevt
      rw [hl] at htext
      cases htext
  unfold finishTurn
  split
  · split
    · exact hlast rfl hpassed
    · exact hbefore _
    · split <;> exact hbefore _
    · exact hpassed
    · split <;> exact hpassed
  · split
    · exact hlast rfl (hbefore _)
    · exact hbefore _
  · split <;> exact hbefore _
  · exact hbefore _

theorem stored_allowed_iff (h : BeforeGate t.steps s) :
    (∀ st ∈ (finishTurn t s).stored, AllowedText st.result st.text) ↔
      (∀ st ∈ s.stored, AllowedText st.result st.text) ∧ EndingOk t := by
  have hheld : AllowedText s.result s.held ↔ SafeText (writtenBy t.steps) := by
    rw [h.result, h.held, allowed_none]
  have hstore : ∀ u : TurnState, u.stored = s.stored →
      ((∀ st ∈ u.store.stored, AllowedText st.result st.text) ↔
        (∀ st ∈ s.stored, AllowedText st.result st.text) ∧ AllowedText u.result u.held) := by
    intro u hu
    simp only [TurnState.store, hu, List.mem_append, List.mem_singleton]
    constructor
    · intro hall
      exact ⟨fun st hst => hall st (.inl hst), hall _ (.inr rfl)⟩
    · rintro ⟨hall, hlast⟩ st (hst | rfl)
      · exact hall st hst
      · exact hlast
  -- the last text is stored when the commit goes through
  have hcommits : ∀ (u v : TurnState) (P : Prop), u.stored = s.stored → v.stored = u.store.stored →
      (AllowedText u.result u.held ↔ P) → ((∀ st ∈ (if t.commits = true then v else u).stored, AllowedText st.result st.text) ↔
        (∀ st ∈ s.stored, AllowedText st.result st.text) ∧ (t.commits = true → P)) := by
    intro u v P hu hv hP
    by_cases hc : t.commits = true
    · rw [if_pos hc, hv]
      refine (hstore u hu).trans (and_congr_right fun _ => ?_)
      rw [hP]
      exact ⟨fun hs _ => hs, fun hs => hs hc⟩
    · rw [if_neg hc, hu]
      exact (and_iff_left (fun hs => absurd hs hc)).symm
  have hgated := replaceContent_allowed h
  have hgatedResult : (replaceContent t (passGate t s)).result =
      some (finalize (t.gateAnswer (tokenText t.steps))) := passGate_result h
  have hgatedStored : (replaceContent t (passGate t s)).stored = s.stored := passGate_stored t s
  unfold finishTurn EndingOk
  cases t.ending with
  | done finish =>
    cases t.doneExit with
    | passes =>
      refine (hstore _ hgatedStored).trans (and_congr_right fun _ => ?_)
      rw [hgatedResult]
      exact hgated
    | gateFails => exact (and_iff_left trivial).symm
    | gateCancelled => exact hcommits s _ _ rfl rfl hheld
    | settleFails =>
      rw [hgatedStored]
      exact (and_iff_left trivial).symm
    | settleCancelled =>
      refine hcommits _ _ _ hgatedStored rfl ?_
      rw [hgatedResult]
      exact hgated
  | error code => exact hcommits s (s.store.send (.error code)) _ rfl rfl hheld
  | cancelled => exact hcommits s _ _ rfl rfl hheld
  | stopped => exact (and_iff_left trivial).symm

end

theorem before_allowed_iff {steps : List RuntimeStep} {s : TurnState} (h : BeforeGate steps s) :
    (∀ st ∈ s.stored, AllowedText st.result st.text) ↔
      ∀ before after, (steps = before ++ .commit :: after ∨ steps = before ++ .checkpoint :: after) →
        SafeText (writtenBy before) := by
  constructor
  · intro hall before after hsplit
    have hst : (⟨writtenBy before, none⟩ : Stored) ∈ s.stored := (h.stored _).2 ⟨rfl, before, after, hsplit, rfl⟩
    exact allowed_none.1 (hall _ hst)
  · intro hall st hst
    obtain ⟨hres, before, after, hsplit, htext⟩ := (h.stored st).1 hst
    rw [htext]
    exact (hall before after hsplit).allowed _

/-- **A buffered turn exposes nothing ungated exactly when it is refused before it starts or no commit before its gate
finds model text** (and inline the gate's text has no unbacked marker). -/
theorem never_exposes_iff (t : GatedTurn) (hbuf : t.gate.buffered = true) : NeverExposes t ↔ NothingToExpose t := by
  unfold NothingToExpose
  cases hpre : t.gate.preGenerationRefusal with
  | some refusal =>
    have hrun : runTurn t = refuseTurn t refusal := by unfold runTurn; rw [hpre]
    have hsafe := refuseTurn_exposes t (preGenerationRefusal_mem hpre) hrun
    exact iff_of_true hsafe (.inl rfl)
  | none =>
    have hrun : runTurn t = finishTurn t (t.steps.foldl (runStep t.gate) {}) := by unfold runTurn; rw [hpre]
    have hbefore := beforeGate_run hbuf t.steps
    unfold NeverExposes
    rw [hrun, stored_allowed_iff hbefore, before_allowed_iff hbefore]
    constructor
    · rintro ⟨-, hall, hend⟩
      exact .inr ⟨hall, hend⟩
    · rintro (hsome | ⟨hall, hend⟩)
      · cases hsome
      · exact ⟨sent_allowed hbefore, hall, hend⟩

/-! ## the native runtime behind the gate -/

structure NativeTurn where
  path : Path := .inline
  gate : TurnGate := {}
  citations : Nat := 0
  gateAnswer : Text → PostprocessOutcome
  policy : ContinuationPolicy := {}
  toolsEnabled : Bool := true
  rounds : List Round
  doneExit : DoneExit := .passes
  commits : Bool := true

def NativeTurn.turn (n : NativeTurn) : GatedTurn where
  path := n.path
  gate := n.gate
  citations := n.citations
  gateAnswer := n.gateAnswer
  steps := (nativeLoop n.policy n.toolsEnabled {} n.rounds).1
  ending := (nativeLoop n.policy n.toolsEnabled {} n.rounds).2
  doneExit := n.doneExit
  commits := n.commits

def Round.Streams (r : Round) : Prop :=
  r.cancelledAtTop = false ∧ r.stepDenied = false ∧ r.rejected = none ∧ r.broken = false

def Round.said (r : Round) (policy : ContinuationPolicy) : List RuntimeStep :=
  (r.pieces policy {}).map .token ++ [.write r.heardText]

theorem writtenBy_said (r : Round) (policy : ContinuationPolicy) : writtenBy (r.said policy) = r.heardText := by
  unfold Round.said
  rw [writtenBy_append]
  rfl

theorem nativeRound_first {policy : ContinuationPolicy} {toolsEnabled : Bool} {r : Round} (hr : r.Streams) :
    nativeRound policy toolsEnabled {} r =
      match r.ends with
      | .exhausted =>
        let st : LoopState := { content := r.heardText, finish := r.finishAfter "stop" }
        (r.said policy ++ (afterStream policy toolsEnabled st r).1, (afterStream policy toolsEnabled st r).2)
      | .budget => (r.said policy, .leave "budget")
      | .rejected code => (r.said policy, .fails code)
      | .cancelled => (r.said policy, .unwinds)
      | .providerError code => (r.said policy, .fails code)
      | .otherError => (r.said policy, .fails "internal") := by
  obtain ⟨htop, hstep, hrej, hbroken⟩ := hr
  have hcontent : ({} : LoopState).content ++ (r.pieces policy {}).flatten = r.heardText := by
    rw [pieces_flatten]
    rfl
  unfold nativeRound Round.said
  rw [htop, hstep, hrej, hbroken]
  rw [if_neg (by decide), if_neg (by decide), if_neg (fun h => absurd h.1 (by decide)), hcontent]
  cases r.ends <;> rfl

theorem native_failure_exposes (n : NativeTurn) {r : Round} {rest : List Round} (hbuf : n.gate.buffered = true)
    (hpre : n.gate.preGenerationRefusal = none) (hrounds : n.rounds = r :: rest) (hr : r.Streams)
    (hends : r.ends ≠ .exhausted) (hcommits : n.commits = true) (hsaid : ¬ SafeText r.heardText) :
    ¬ NeverExposes n.turn := by
  rw [never_exposes_iff n.turn hbuf]
  rintro (hsome | ⟨-, hend⟩)
  · rw [show n.turn.gate = n.gate from rfl, hpre] at hsome
    cases hsome
  · -- the loop leaves with an error or a cancel, and the last commit finds the text
    have hloop : n.turn.steps = r.said n.policy ∧
        (n.turn.ending = .cancelled ∨ ∃ code, n.turn.ending = .error code) := by
      unfold NativeTurn.turn
      rw [hrounds, nativeLoop, nativeRound_first hr]
      cases he : r.ends with
      | exhausted => exact absurd he hends
      | cancelled => exact ⟨rfl, .inl rfl⟩
      | budget | rejected | providerError | otherError => exact ⟨rfl, .inr ⟨_, rfl⟩⟩
    obtain ⟨hsteps, hending⟩ := hloop
    have hsafe : SafeText (writtenBy n.turn.steps) := by
      unfold EndingOk at hend
      rcases hending with h | ⟨code, h⟩
      · rw [h] at hend; exact hend hcommits
      · rw [h] at hend; exact hend hcommits
    rw [hsteps, writtenBy_said] at hsafe
    exact hsaid hsafe

/-- **A native turn whose first round calls a tool stores what the model said in it**, however the turn ends. -/
theorem native_tool_round_exposes (n : NativeTurn) {r : Round} {rest : List Round} (hbuf : n.gate.buffered = true)
    (hpre : n.gate.preGenerationRefusal = none) (hrounds : n.rounds = r :: rest) (hr : r.Streams)
    (hends : r.ends = .exhausted) (hbudget : r.overBudget = false) (htools : n.toolsEnabled = true)
    (hfinish : r.finishAfter "stop" = "tool_calls") (hpending : r.pending = true) (hcommits : r.commits = true)
    (hsaid : ¬ SafeText r.heardText) : ¬ NeverExposes n.turn := by
  rw [never_exposes_iff n.turn hbuf]
  rintro (hsome | ⟨hall, -⟩)
  · rw [show n.turn.gate = n.gate from rfl, hpre] at hsome
    cases hsome
  · have hround : ∃ more flow, nativeRound n.policy n.toolsEnabled {} r =
        (r.said n.policy ++ .progress "tool_call" :: .commit :: more, flow) := by
      rw [nativeRound_first hr, hends]
      unfold afterStream
      dsimp only
      rw [if_neg (by rw [hbudget]; decide), if_pos ⟨htools, hfinish, hpending⟩, if_pos hcommits]
      exact ⟨_, _, rfl⟩
    obtain ⟨more, flow, hround⟩ := hround
    have hsteps : ∃ after, n.turn.steps = (r.said n.policy ++ [.progress "tool_call"]) ++ .commit :: after := by
      unfold NativeTurn.turn
      rw [hrounds, nativeLoop, hround]
      cases flow with
      | next st => exact ⟨more ++ (nativeLoop n.policy n.toolsEnabled st rest).1, by simp⟩
      | _ => exact ⟨more, by simp⟩
    obtain ⟨after, hsteps⟩ := hsteps
    have hsafe := hall _ _ (.inl hsteps)
    rw [writtenBy_append, writtenBy_said] at hsafe
    exact hsaid hsafe

def passingGate (answer : Text) : PostprocessOutcome := { answer := answer }

theorem eq_of_toList {s : String} (h : ['x'] = s.toList) : s = "x" := by
  rw [← @String.ofList_toList s, ← h]

-- compares strings: decoding the refusals to characters is slow
theorem char_not_safe : ¬ SafeText ['x'] := by
  rintro (h | h)
  · cases h
  · rcases List.mem_cons.1 h with h | h
    · exact absurd (eq_of_toList h) (by simp)
    · exact absurd (eq_of_toList (List.mem_singleton.1 h)) (by simp)

def answeredTurn : NativeTurn where
  gateAnswer := passingGate
  rounds := [{ deltas := [{ content := ['x'], finish := some "stop" }] }]

theorem never_exposes_iff_answered : NeverExposes answeredTurn.turn := by
  refine (never_exposes_iff answeredTurn.turn rfl).2 (.inr ⟨?_, ?_⟩)
  · have hsteps : answeredTurn.turn.steps = [.token ['x'], .write ['x']] := by decide
    rintro before after (h | h)
    · rw [hsteps] at h
      match before with
      | [] => cases h
      | [_] => cases h
      | _ :: _ :: before => cases before <;> cases h
    · rw [hsteps] at h
      match before with
      | [] => cases h
      | [_] => cases h
      | _ :: _ :: before => cases before <;> cases h
  · intro _
    exact .inr ⟨_, rfl, by decide⟩

def failedTurn : NativeTurn where
  gateAnswer := passingGate
  rounds := [{ deltas := [{ content := ['x'] }], ends := .providerError "provider_error" }]

/-- The text that the gate never saw is committed with the error. -/
theorem ungated_text_stored : ¬ ∀ t : GatedTurn, t.gate.buffered = true → NeverExposes t := by
  intro h
  have hexposes : ¬ NeverExposes failedTurn.turn :=
    native_failure_exposes failedTurn rfl (by decide) rfl ⟨rfl, rfl, rfl, rfl⟩ (by decide) rfl char_not_safe
  exact hexposes (h failedTurn.turn rfl)

end Chat
end MyGpt
