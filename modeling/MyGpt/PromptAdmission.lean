import MyGpt.Compaction
/-!
# PromptAdmission — the token budget of a prompt and the history that fits it

`calculate_prompt_budget`, `admit_latest_turn` and `_admit_and_trim_history`.  `dumps` stands for `json.dumps`, `encode` for the
tokenizer of the model, and `scaled w` for `floor(w * safety_ratio)`.
-/
namespace MyGpt
namespace Admission

open Compaction (Role truthy)

/-! ## budgets -/

inductive Code
  | invalidPromptBudget | messageTooLarge | promptTooLarge
  deriving DecidableEq

structure PromptAdmissionError where
  code : Code
  message : String
  deriving DecidableEq

def invalid (message : String) : PromptAdmissionError := ⟨.invalidPromptBudget, message⟩

/-- The token limits of a model's row; `none` is what `int()` does not take. -/
structure ModelConfig where
  maxContextTokens : Option Int
  maxTokens : Option Int

def positiveInt (value : Option Int) (default : Int) : Int := (value.filter (0 < ·)).getD default

def defaultContextWindow : Int := 131072

def defaultMaxOutputTokens : Int := 8192

structure ModelCapabilities where
  contextWindow : Int
  maxOutputTokens : Int

def capabilitiesFromConfig (config : ModelConfig) : ModelCapabilities where
  contextWindow := positiveInt config.maxContextTokens defaultContextWindow
  maxOutputTokens := positiveInt config.maxTokens defaultMaxOutputTokens

/-- `calculate_prompt_budget`: the `input_tokens`. -/
def calculatePromptBudget (scaled : Int → Int) (caps : ModelCapabilities) (requestedOutput toolSchemaTokens : Int) :
    Except PromptAdmissionError Int :=
  if requestedOutput ≤ 0 then .error (invalid "requested output tokens must be positive")
  else if toolSchemaTokens < 0 then .error (invalid "tool schema tokens cannot be negative")
  else
    let reservedOutput := min requestedOutput caps.maxOutputTokens
    let safetyMargin := max 256 (scaled caps.contextWindow)
    let inputTokens := caps.contextWindow - reservedOutput - toolSchemaTokens - safetyMargin
    if inputTokens ≤ 0 then .error (invalid "model context leaves no positive prompt budget") else .ok inputTokens

def admitLatestTurn (latestTurnTokens : Nat) (inputBudget : Int) : Except PromptAdmissionError PUnit :=
  if inputBudget ≤ 0 then .error (invalid "token counts must produce a positive input budget")
  else if inputBudget < latestTurnTokens then
    .error ⟨.messageTooLarge, "The latest message is too large for this model's prompt budget"⟩
  else .ok ⟨⟩

/-! ## messages -/

inductive Part
  | imageUrl (url : Option String)
  | dict (text : String)
  | other

inductive Content
  | plain (text : String)
  | parts (parts : List Part)

structure Message where
  role : Role
  content : Content
  toolCalls : List (Option String)
  toolCallId : Option String

def Message.isUser (m : Message) : Bool := m.role = .user

def Message.issues (m : Message) : List String := if m.role = .assistant then m.toolCalls.filterMap truthy else []

def Message.answers (m : Message) : Option String := if m.role = .tool then truthy m.toolCallId else none

def imageInputTokenReserve : Nat := 1024

def serializedParts (parts : List Part) : List Part :=
  parts.filterMap (fun part =>
    match part with
    | .imageUrl _ => some (.imageUrl none)
    | .dict text => some (.dict text)
    | .other => none)

def imageCount (parts : List Part) : Nat :=
  parts.countP (fun part =>
    match part with
    | .imageUrl _ => true
    | _ => false)

section estimates

variable (dumps : Message → String) (encode : String → Nat)

def estimateTokens (text : String) : Nat := if text = "" then 0 else encode text

def estimateMessageTokens (m : Message) : Nat :=
  match m.content with
  | .plain _ => estimateTokens encode (dumps m)
  | .parts parts => estimateTokens encode (dumps { m with content := .parts (serializedParts parts) }) +
      imageCount parts * imageInputTokenReserve

end estimates

/-! ## trimming -/

section trim

variable (cost : Message → Nat)

def total (messages : List Message) : Nat := (messages.map cost).sum

def latestUserTurnTokens (messages : List Message) : Nat :=
  match messages.reverse.find? (·.isUser) with
  | some m => cost m
  | none => 0

def latestUserIndex (messages : List Message) : Nat :=
  ((List.range' 1 (messages.length - 1)).reverse.find? (fun index => (messages[index]?).any (·.isUser))).getD 1

/-- The inner loop: `messages[cutoff]` is the first of the list. -/
def scanTurn (latest : Nat) : Nat → List Message → Nat
  | cutoff, [] => cutoff
  | cutoff, m :: messages => if cutoff < latest ∧ m.isUser = false then scanTurn latest (cutoff + 1) messages else cutoff

/-- `cutoff`, for the messages behind the first. -/
def cutoff (latest : Nat) : List Message → Nat
  | m :: messages => if m.isUser then scanTurn latest 2 messages else 2
  | [] => 2

def trimLoop (maxTokens : Int) : Nat → Nat → Nat → List Message → List Message
  | 0, _, _, rest => rest
  | fuel + 1, latest, left, rest =>
    if 1 < latest ∧ maxTokens < left then
      let dropped := cutoff latest rest - 1
      trimLoop maxTokens fuel (latest - dropped) (left - total cost (rest.take dropped)) (rest.drop dropped)
    else rest

def trimHistory (maxTokens : Int) (messages : List Message) : List Message :=
  match messages with
  | [] => []
  | first :: rest =>
    if rest = [] ∨ (total cost messages : Int) ≤ maxTokens then messages
    else first :: trimLoop cost maxTokens (latestUserIndex messages) (latestUserIndex messages) (total cost messages) rest

end trim

def admitAndTrimHistory (dumps : Message → String) (encode : String → Nat) (scaled : Int → Int) (config : ModelConfig)
    (toolSchemaTokens : Int) (messages : List Message) : Except PromptAdmissionError (List Message) := do
  let caps := capabilitiesFromConfig config
  let budget ← calculatePromptBudget scaled caps caps.maxOutputTokens toolSchemaTokens
  let cost := estimateMessageTokens dumps encode
  admitLatestTurn (latestUserTurnTokens cost messages) budget
  let admitted := trimHistory cost budget messages
  if budget < total cost admitted then
    throw ⟨.promptTooLarge, "The protected system prompt and latest message exceed the prompt budget"⟩
  else return admitted

end Admission
end MyGpt
