import MyGpt.Json
import Mathlib.Data.List.Sort
/-!
# AnthropicStream — the two decoders of the Anthropic provider

`chat` reads a whole message, `_iter_sse` the events of its stream.  What `json.loads` and `json.dumps` make of the tool
arguments is left open.
-/
namespace MyGpt
namespace Anthropic

open Chat (Text)

inductive FinishReason
  | stop | length | toolCalls | contentFilter
  deriving DecidableEq

def stopReasonMap : List (String × FinishReason) :=
  [("end_turn", .stop), ("stop_sequence", .stop), ("max_tokens", .length), ("tool_use", .toolCalls),
    ("refusal", .contentFilter), ("pause_turn", .stop)]

/-- `_STOP_REASON_MAP.get(stop_reason, "stop")`. -/
def finishOf (stopReason : String) : FinishReason := (stopReasonMap.lookup stopReason).getD .stop

def truthy (s : Option String) : Option String := s.filter (· ≠ "")

structure ToolCall where
  id : String
  name : String
  arguments : Text

/-- `args or "{}"`. -/
def argsOr (args : Text) : Text := if args = [] then "\x7b\x7d".toList else args

/-- `err.get('message') or err.get('type') or 'unknown'`. -/
def errorText (what : String) (message kind : Option String) : String :=
  what ++ ": " ++ ((truthy message).or (truthy kind)).getD "unknown"

/-! ## usage -/

structure Usage where
  inputTokens : Option Int := none
  outputTokens : Option Int := none
  cacheReadInputTokens : Option Int := none
  cacheCreationInputTokens : Option Int := none

structure TokenUsage where
  promptTokens : Option Int := none
  completionTokens : Option Int := none
  cacheReadInputTokens : Option Int := none
  cacheCreationInputTokens : Option Int := none
  totalTokens : Option Int := none
  deriving DecidableEq

def mapUsage : Option Usage → TokenUsage
  | none => {}
  | some u => {
      promptTokens := u.inputTokens
      completionTokens := u.outputTokens
      cacheReadInputTokens := u.cacheReadInputTokens
      cacheCreationInputTokens := u.cacheCreationInputTokens
      totalTokens := u.inputTokens.bind (fun i => u.outputTokens.map (fun o => i + o)) }

def mergeStreamUsage (current : Option TokenUsage) (snapshot : Usage) : TokenUsage :=
  let old := current.getD {}
  let new := mapUsage (some snapshot)
  let prompt := new.promptTokens.or old.promptTokens
  let completion := new.completionTokens.or old.completionTokens
  { promptTokens := prompt
    completionTokens := completion
    cacheReadInputTokens := new.cacheReadInputTokens.or old.cacheReadInputTokens
    cacheCreationInputTokens := new.cacheCreationInputTokens.or old.cacheCreationInputTokens
    totalTokens := some (prompt.getD 0 + completion.getD 0) }

/-! ## the plain call -/

inductive Block
  | text (text : Option Text)
  | toolUse (id name : Option String) (input : Json)
  | other

/-- `input or {}`. -/
def inputOr (input : Json) : Json := if input.truthy then input else .obj []

def blocksToResult (dumps : Json → Text) : List Block → Text × List ToolCall
  | [] => ([], [])
  | .text text :: rest => (text.getD [] ++ (blocksToResult dumps rest).1, (blocksToResult dumps rest).2)
  | .toolUse id name input :: rest =>
    ((blocksToResult dumps rest).1, ⟨id.getD "", name.getD "", dumps (inputOr input)⟩ :: (blocksToResult dumps rest).2)
  | .other :: rest => blocksToResult dumps rest

structure Message where
  content : List Block
  stopReason : Option String
  usage : Option Usage

inductive Reply
  | error (message kind : Option String)
  | message (m : Message)

structure ChatResult where
  content : Text
  toolCalls : Option (List ToolCall)
  finishReason : FinishReason
  usage : TokenUsage

def chat (dumps : Json → Text) : Reply → Except String ChatResult
  | .error message kind => .error (errorText "anthropic error" message kind)
  | .message m =>
    let (text, calls) := blocksToResult dumps m.content
    .ok ⟨text, if calls.isEmpty then none else some calls, finishOf (m.stopReason.getD ""), mapUsage m.usage⟩

/-! ## the stream -/

inductive Header
  | toolUse (id name : Option String)
  | other
  deriving DecidableEq

inductive Event
  | messageStart (usage : Option Usage)
  | blockStart (index : Option Int) (block : Header)
  | textDelta (index : Option Int) (text : Option Text)
  | inputDelta (index : Option Int) (partialJson : Option Text)
  | otherDelta (index : Option Int)
  | blockStop (index : Option Int)
  | messageDelta (stopReason : Option String) (usage : Option Usage)
  | error (message kind : Option String)
  /-- A ping, the end of the message, or a line that is no `data:` line with JSON. -/
  | skipped

structure Slot where
  id : String
  name : String
  args : Text

structure Delta where
  content : Text
  toolCalls : Option (List ToolCall) := none
  finishReason : Option FinishReason := none
  usage : Option TokenUsage := none

/-- `d[index] = value`. -/
def put {α : Type} (index : Int) (value : α) : List (Int × α) → List (Int × α)
  | [] => [(index, value)]
  | (i, v) :: rest => if i = index then (i, value) :: rest else (i, v) :: put index value rest

/-- `d.get(index)`. -/
def lookup {α : Type} (index : Int) (d : List (Int × α)) : Option α := (d.find? (·.1 = index)).map (·.2)

/-- `d.pop(index, None)`. -/
def drop {α : Type} (index : Int) (d : List (Int × α)) : List (Int × α) := d.filter (·.1 ≠ index)

structure State where
  toolBlocks : List (Int × Slot) := []
  activeBlock : List (Int × Header) := []
  finishReason : Option FinishReason := none
  finalUsage : Option TokenUsage := none
  deltas : List Delta := []

def State.snapshot (s : State) : Option Usage → State
  | none => s
  | some usage => { s with finalUsage := some (mergeStreamUsage s.finalUsage usage) }

section
variable (loads : Text → Option Json)

def step (s : State) : Event → State
  | .messageStart usage => s.snapshot usage
  | .blockStart index block =>
    let idx := index.getD 0
    { s with
      activeBlock := put idx block s.activeBlock
      toolBlocks := match block with
        | .toolUse id name => put idx ⟨id.getD "", name.getD "", []⟩ s.toolBlocks
        | .other => s.toolBlocks }
  | .textDelta _ text => if text.getD [] = [] then s else { s with deltas := s.deltas ++ [{ content := text.getD [] }] }
  | .inputDelta index partialJson =>
    match lookup (index.getD 0) s.toolBlocks with
    | some slot =>
      { s with toolBlocks := put (index.getD 0) { slot with args := slot.args ++ partialJson.getD [] } s.toolBlocks }
    | none => s
  | .blockStop index =>
    let idx := index.getD 0
    let malformed : Bool := match lookup idx s.activeBlock, lookup idx s.toolBlocks with
      | some (.toolUse _ _), some slot => (loads (argsOr slot.args)).isNone
      | _, _ => false
    { s with
      activeBlock := drop idx s.activeBlock
      toolBlocks := if malformed then drop idx s.toolBlocks else s.toolBlocks }
  | .messageDelta stopReason usage =>
    { s with finishReason := ((truthy stopReason).map finishOf).or s.finishReason }.snapshot usage
  | _ => s

/-- The loop over the lines; an `error` event raises. -/
def read (s : State) : List Event → State × Option String
  | [] => (s, none)
  | .error message kind :: _ => (s, some (errorText "anthropic stream error" message kind))
  | e :: rest => read (step loads s e) rest

def flush (s : State) : List Delta :=
  let calls := (s.toolBlocks.insertionSort (fun a b => a.1 ≤ b.1)).map (fun b => ToolCall.mk b.2.id b.2.name (argsOr b.2.args))
  if s.toolBlocks.isEmpty then [⟨[], none, some (s.finishReason.getD .stop), s.finalUsage⟩]
  else [⟨[], some calls, some .toolCalls, none⟩, ⟨[], none, some .toolCalls, s.finalUsage⟩]

/-- `_iter_sse`: the deltas, and the `ProviderError` that ends them. -/
def iterSse (events : List Event) : List Delta × Option String :=
  match read loads {} events with
  | (s, none) => (s.deltas ++ flush s, none)
  | (s, some message) => (s.deltas, some message)

end
end Anthropic
end MyGpt
