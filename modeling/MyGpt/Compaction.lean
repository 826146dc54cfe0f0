import MyGpt.Lib.Worklist
import MyGpt.Lib.Pairing
import Mathlib.Algebra.GroupWithZero.Nat
/-!
# Compaction — a transcript is cut, its older part becomes a summary

Messages are objects: `id(m)` is a `Ref`, and `msg` says what the objects hold.  `encode` stands for the tokenizer.
-/
namespace MyGpt
namespace Compaction

inductive Role
  | system | user | assistant | tool
  deriving DecidableEq

/-- `content`; of a part that is a dict, its text. -/
inductive Content
  | text (s : String)
  | parts (texts : List (Option String))
  | none

structure Message where
  role : Role
  content : Content
  /-- The ids of `tool_calls`. -/
  toolCalls : List (Option String)
  toolCallId : Option String

abbrev Ref := Nat

/-- The keyword arguments of `compact_messages`. -/
structure Options where
  keepRecentTokens : Int := 4000
  prefillBaselineTokens : Int := 0
  preserveToolPairs : Bool := true
  protectedCount : Int := 0

/-- An empty id is none (`if tid:`). -/
def truthy (id : Option String) : Option String := id.filter (· ≠ "")

def Message.issues (m : Message) : List String := if m.role = .assistant then m.toolCalls.filterMap truthy else []

def Message.answers (m : Message) : Option String := if m.role = .tool then truthy m.toolCallId else Option.none

def Message.referencedIds (m : Message) : List String := m.issues ++ m.answers.toList

def estimateTokens (encode : String → Nat) (text : String) : Nat := if text = "" then 0 else encode text

def estimateMessagesTokens (encode : String → Nat) (messages : List Message) : Nat :=
  (messages.map (fun m =>
    match m.content with
    | .text s => estimateTokens encode s
    | .parts texts => (texts.map (fun text => (text.map (estimateTokens encode)).getD 0)).sum
    | .none => 0)).sum

def newestTail (tokens : Ref → Nat) (keepRecentTokens : Int) : List Ref → List Ref → Nat → List Ref × Nat
  | [], tail, used => (tail, used)
  | m :: rest, tail, used =>
    if tail ≠ [] ∧ keepRecentTokens < (used + tokens m : Nat) then (tail, used)
    else if keepRecentTokens ≤ (used + tokens m : Nat) then (m :: tail, used + tokens m)
    else newestTail tokens keepRecentTokens rest (m :: tail) (used + tokens m)

section pairs

variable (msg : Ref → Message)

/-- `caller_of`: a later issuer replaces an earlier one. -/
def callerOf (bodyMsgs : List Ref) (tid : String) : Option Ref := bodyMsgs.reverse.find? (fun m => tid ∈ (msg m).issues)

def resultsOf (bodyMsgs : List Ref) (tid : String) : List Ref := bodyMsgs.filter (fun m => (msg m).answers = some tid)

def linked (bodyMsgs : List Ref) (m : Ref) : List Ref :=
  (msg m).referencedIds.flatMap (fun tid => (callerOf msg bodyMsgs tid).toList ++ resultsOf msg bodyMsgs tid)

/-- `tail_ids` when the queue is empty. -/
def tailIds (bodyMsgs tail : List Ref) : List Ref :=
  Worklist.search (linked msg bodyMsgs) (bodyMsgs.length + tail.length) tail tail.reverse

def enforceToolPairAtomicity (bodyMsgs tail : List Ref) : List Ref :=
  if tail = [] then tail else bodyMsgs.filter (fun m => m ∈ tailIds msg bodyMsgs tail)

end pairs

structure Split where
  sysMsgs : List Ref
  protectedBody : List Ref
  tail : List Ref
  older : List Ref
  used : Nat

section compact

variable (msg : Ref → Message) (encode : String → Nat) (options : Options)

def isSystem (m : Ref) : Bool := (msg m).role = .system

def compactable (messages : List Ref) : List Ref := messages.dropWhile (isSystem msg)

def cut (messages : List Ref) : Nat := min options.protectedCount.toNat (compactable msg messages).length

/-- `body_msgs`, the protected fragments pulled out. -/
def bodyMsgs (messages : List Ref) : List Ref := (compactable msg messages).drop (cut msg options messages)

def splitForCompaction (messages : List Ref) : Split :=
  if messages = [] then ⟨[], [], [], [], 0⟩
  else
    let body := bodyMsgs msg options messages
    let newest := newestTail (fun m => estimateMessagesTokens encode [msg m]) options.keepRecentTokens body.reverse [] 0
    let tail := if options.preserveToolPairs then enforceToolPairAtomicity msg body newest.1 else newest.1
    { sysMsgs := messages.takeWhile (isSystem msg)
      protectedBody := (compactable msg messages).take (cut msg options messages)
      tail := tail
      older := body.filter (fun m => m ∉ tail)
      used := newest.2 }

inductive Entry
  | original (ref : Ref)
  | summary (message : Message)

def summaryMsg (summary : String) : Message where
  role := .system
  content := .text ("[Earlier conversation summary (" ++ toString (estimateTokens encode summary) ++
    " tokens), compact baseline=" ++ toString options.prefillBaselineTokens ++ "]:\n" ++ summary)
  toolCalls := []
  toolCallId := none

def assembleCompacted (split : Split) (summary : String) : List Entry :=
  (split.sysMsgs ++ split.protectedBody).map .original ++ [.summary (summaryMsg encode options summary)] ++
    split.tail.map .original

/-- `compact_messages`; `summarize` is `summarize_fn`. -/
def compactMessages (summarize : List Message → Option String) (messages : List Ref) : List Entry × String :=
  if messages = [] then (messages.map .original, "")
  else
    let split := splitForCompaction msg encode options messages
    if split.older = [] then (messages.map .original, "")
    else
      let summary := (summarize (split.older.map msg)).getD ""
      (assembleCompacted encode options split summary, summary)

end compact

structure Transcript (msg : Ref → Message) where
  messages : List Ref
  distinct : messages.Nodup
  issued : Pairing.Opened (fun m tid => tid ∈ (msg m).issues) (fun m tid => (msg m).answers = some tid) messages

end Compaction
end MyGpt
