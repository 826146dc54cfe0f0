import MyGpt.PromptBoundary
import MyGpt.Lib.Bisect
/-!
# ToolObservation — from a tool's result to the message of the model

`ToolGateway.execute` renders and cuts the result, fences it and appends the note of a spill;
`ToolExecution.to_openai_tool_message` serialises what came out as JSON and cuts it once more.  The parts of a message
say which of its characters come from inside the fence.
-/
namespace MyGpt
namespace Security

open Chat (Text strip)

/-! ## JSON -/

def hexDigit (n : Nat) : Char := "0123456789abcdef".toList.getD n '0'

/-- A character of `json.dumps` with `ensure_ascii=False`. -/
def escapeChar (c : Char) : Text :=
  if c == '"' then ['\\', '"']
  else if c == '\\' then ['\\', '\\']
  else if c == '\n' then ['\\', 'n']
  else if c == '\r' then ['\\', 'r']
  else if c == '\t' then ['\\', 't']
  else if c.toNat == 8 then ['\\', 'b']
  else if c.toNat == 12 then ['\\', 'f']
  else if c.toNat < 32 then ['\\', 'u', '0', '0', hexDigit (c.toNat / 16), hexDigit (c.toNat % 16)]
  else [c]

def escape (text : Text) : Text := text.flatMap escapeChar

def jsonString (text : Text) : Text := '"' :: escape text ++ ['"']

/-- `json.dumps(json.loads(text))` of a text that is JSON; no JSON begins with an angle bracket. -/
structure JsonReader where
  redump : Text → Option Text
  angle : ∀ text, redump ('<' :: text) = none

/-! ## the two truncations -/

def truncationMarker : Text := "[truncated]".toList

def boundedText (text : Text) (maxChars : Nat) : Text :=
  if text.length ≤ maxChars then text
  else if maxChars ≤ truncationMarker.length then truncationMarker.take maxChars
  else text.take (maxChars - truncationMarker.length) ++ truncationMarker

def previewHead : Text := "\x7b\"preview\": \"".toList
def previewTail : Text := "\", \"truncated\": true\x7d".toList

/-- The candidate of `bounded_json_preview` that shows this much. -/
def previewEnvelope (shown : Text) : Text := previewHead ++ escape (shown ++ truncationMarker) ++ previewTail

/-- `best`, before a candidate fits. -/
def previewScalar (maxChars : Nat) : Text :=
  if (jsonString truncationMarker).length ≤ maxChars then jsonString truncationMarker else truncationMarker.take maxChars

/-- How much of the value `bounded_json_preview` shows. -/
def previewCut (value : Text) (maxChars : Nat) : Option Nat :=
  Bisect.largest (fun n => decide ((previewEnvelope (value.take n)).length ≤ maxChars)) value.length

def boundedJsonPreview (value : Text) (maxChars : Nat) : Text :=
  match previewCut value maxChars with
  | some n => previewEnvelope (value.take n)
  | none => previewScalar maxChars

/-! ## the gateway -/

/-- A result: a string, or a value as `json.dumps` (or `str`) renders it. -/
inductive ToolResult
  | text (s : Text)
  | value (rendered : Text)

def ToolResult.full : ToolResult → Text
  | .text s => s
  | .value rendered => rendered

/-- `_stringify_and_truncate`: the rendered result, cut, and whether it was cut. -/
def stringifyAndTruncate (result : ToolResult) (maxChars : Nat) : Text × Bool :=
  if result.full.length ≤ maxChars then (result.full, false)
  else
    match result with
    | .text s => (boundedText s maxChars, true)
    | .value rendered => (boundedJsonPreview rendered maxChars, true)

def spillNote (handle : Text) : Text :=
  "\n\n[完整工具输出已保存为附件 ".toList ++ handle ++ "，用户可下载查看全文]".toList

structure ToolCall where
  toolName : Text
  result : ToolResult
  cap : Nat
  handle : Option Text := none

def ToolCall.bounded (call : ToolCall) : Text := (stringifyAndTruncate call.result call.cap).1
def ToolCall.truncated (call : ToolCall) : Bool := (stringifyAndTruncate call.result call.cap).2
def ToolCall.label (call : ToolCall) : Text := "tool:".toList ++ call.toolName

def ToolCall.note (call : ToolCall) : Text :=
  if call.truncated && !call.result.full.isEmpty then (call.handle.map spillNote).getD [] else []

section
variable (w : WordChars) (nonce : Nonce) (json : JsonReader)

def ToolCall.content (call : ToolCall) : Text :=
  applyUntrustedBoundary w nonce call.label call.bounded (some call.cap) ++ call.note

/-! ## the message -/

/-- What `bounded_json_observation` renders of the content. -/
def rendered (content : Text) : Text := (json.redump content).getD (jsonString content)

def boundedJsonObservation (content : Text) (maxChars : Nat) (forceTruncated : Bool) : Text :=
  if (rendered json content).length ≤ maxChars ∧ forceTruncated = false then rendered json content
  else boundedJsonPreview (rendered json content) maxChars

/-- The content of `to_openai_tool_message`; without a `max_chars` of its own it has the cap of the gateway. -/
def toOpenaiToolMessage (call : ToolCall) (maxChars : Option Nat) : Text :=
  boundedJsonObservation json (call.content w nonce) (maxChars.getD call.cap) call.truncated

/-! ## where its characters come from -/

structure Parts where
  before : Text
  body : Text
  after : Text

def Parts.all (p : Parts) : Text := p.before ++ p.body ++ p.after

def ToolCall.Fenced (call : ToolCall) : Prop :=
  strip call.bounded ≠ [] ∧ 0 < allowedChars w nonce call.label (some call.cap)

instance (call : ToolCall) : Decidable (call.Fenced w nonce) := by
  unfold ToolCall.Fenced
  infer_instance

def contentParts (call : ToolCall) : Parts :=
  if call.Fenced w nonce then
    { before := fenceOpenMarker w nonce call.label ++ '\n' :: declaration ++ ['\n']
      body := fencedBody w (ownBody nonce call.bounded) (allowedChars w nonce call.label (some call.cap))
      after := '\n' :: closeMarker nonce ++ call.note }
  else
    { before := [], body := applyUntrustedBoundary w nonce call.label call.bounded (some call.cap), after := call.note }

def renderedParts (call : ToolCall) : Parts :=
  match json.redump (call.content w nonce) with
  | some value => { before := [], body := value, after := [] }
  | none =>
    let p := contentParts w nonce call
    { before := '"' :: escape p.before, body := escape p.body, after := escape p.after ++ ['"'] }

/-- The parts of what `previewEnvelope` shows of the first `n` characters. -/
def Parts.preview (p : Parts) (n : Nat) : Parts :=
  { before := previewHead ++ escape (p.before.take n)
    body := escape (p.body.take (n - p.before.length))
    after := escape (p.after.take (n - p.before.length - p.body.length) ++ truncationMarker) ++ previewTail }

def messageParts (call : ToolCall) (maxChars : Option Nat) : Parts :=
  let p := renderedParts w nonce json call
  let cap := maxChars.getD call.cap
  if p.all.length ≤ cap ∧ call.truncated = false then p
  else
    match previewCut p.all cap with
    | some n => p.preview n
    | none => { before := [], body := [], after := previewScalar cap }

/-- **Fenced**: text from the body stands between its markers. -/
def Parts.Enclosed (p : Parts) (label : Text) : Prop :=
  p.body ≠ [] → fenceOpenMarker w nonce label <:+: p.before ∧ closeMarker nonce <:+: p.after

end

end Security
end MyGpt
