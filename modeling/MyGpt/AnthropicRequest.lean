import MyGpt.AnthropicStream
import Mathlib.Algebra.GroupWithZero.Nat
import Mathlib.Algebra.Ring.Int.Defs
/-!
# AnthropicRequest — OpenAI messages as a request to Anthropic

`providers/anthropic.py`, outbound: `_split_system`, `_convert_message` and `_build_payload`.  The texts of a message become
one block before its images, so that what is read back is the transcript exactly when no message mixes its parts another
way (`buildPayload_faithful_iff`).
-/
namespace MyGpt
namespace Anthropic

open Chat (Text strip)

namespace Request

/-! ## the transcript -/

inductive Role
  | system | user | assistant | tool
  deriving DecidableEq

/-- `part.get("image_url")`. -/
inductive ImageRef
  | object (url : Option Text)
  | str (url : Text)
  | other

def ImageRef.url : ImageRef → Text
  | .object url => url.getD []
  | .str url => url
  | .other => []

inductive Part
  | text (text : Option Text)
  | imageUrl (ref : ImageRef)

inductive Content
  | none
  | str (s : Text)
  | parts (parts : List Part)

structure Message where
  role : Role
  content : Content
  toolCalls : List ToolCall := []
  toolCallId : Option String := none

/-! ## the translation -/

inductive Source
  | base64 (mediaType data : Text)
  | url (url : Text)
  deriving DecidableEq

inductive Block
  | text (text : Text)
  | image (source : Source)
  | toolUse (id name : String) (input : Json)
  | toolResult (toolUseId : String) (content : Text)

inductive OutRole
  | user | assistant
  deriving DecidableEq

inductive OutContent
  | str (s : Text)
  | blocks (blocks : List Block)

structure OutMessage where
  role : OutRole
  content : OutContent

def Part.textOr : Part → Text
  | .text t => t.getD []
  | .imageUrl _ => []

def contentToText : Content → Text
  | .none => []
  | .str s => s
  | .parts parts => (parts.map (·.textOr)).flatten

def systemPart (msg : Message) : Option Text :=
  let text := match msg.content with
    | .str s => s
    | _ => []
  if msg.role = .system ∧ strip text ≠ [] then some text else none

/-- `"\n\n".join(texts)`. -/
def joined (texts : List Text) : Text := List.intercalate "\n\n".toList texts

def splitSystem (messages : List Message) : Text × List Message :=
  (joined (messages.filterMap systemPart), messages.filter (fun msg => msg.role ≠ .system))

def imageSource (url : Text) : Option Source :=
  if "data:".toList <+: url then
    if ',' ∈ url then
      let head := url.takeWhile (· ≠ ',')
      let payload := (url.dropWhile (· ≠ ',')).drop 1
      let mediaType := (head.drop 5).takeWhile (· ≠ ';')
      some (.base64 (if mediaType = [] then "image/png".toList else mediaType) payload)
    else none
  else some (.url url)

def Part.imageBlock : Part → Option Block
  | .imageUrl ref => if ref.url = [] then none else (imageSource ref.url).map .image
  | .text _ => none

def imageBlocks : Content → List Block
  | .parts parts => parts.filterMap (·.imageBlock)
  | _ => []

section
variable (loads : Text → Option Json)

/-- The input of a tool call; `loads` has no value for a text that is not JSON. -/
def toolInput (args : Text) : Json :=
  match loads (argsOr args) with
  | some (.obj fields) => .obj fields
  | some args => .obj [("_value", args)]
  | none => .obj []

def toolUse (tc : ToolCall) : Block := .toolUse tc.id tc.name (toolInput loads tc.arguments)

def outRole (role : Role) : OutRole := if role = .assistant then .assistant else .user

def contentBlocks (content : Content) : List Block :=
  let text := contentToText content
  (if text = [] then [] else [.text text]) ++ imageBlocks content

def convertMessage (msg : Message) : Option OutMessage :=
  if msg.role = .tool then
    some ⟨.user, .blocks [.toolResult (msg.toolCallId.getD "") (contentToText msg.content)]⟩
  else
    let blocks := contentBlocks msg.content ++
      (if msg.role = .assistant then msg.toolCalls.map (toolUse loads) else [])
    match blocks with
    | [] => none
    | [.text text] => some ⟨outRole msg.role, .str text⟩
    | blocks => some ⟨outRole msg.role, .blocks blocks⟩

end

/-! ## the payload -/

structure ChatOptions (F : Type) where
  temperature : Option F
  topP : Option F
  maxTokens : Option Int
  tools : List Json := []
  toolChoice : Json := .str "auto"
  stop : List String := []
  /-- `extra["reasoning_effort"]` -/
  reasoningEffort : Option String := none

structure Payload (F : Type) where
  model : String
  maxTokens : Int
  messages : List OutMessage
  system : Option Text
  stream : Bool
  temperature : Option F
  topP : Option F
  stopSequences : List String
  tools : List Json
  toolChoice : Option Json
  effort : Option String

def defaultMaxTokens : Int := 4096

def isStr (s : String) : Option Json → Bool
  | some (.str t) => t = s
  | _ => false

/-- `fields.get(key) or default`. -/
def fieldOr (fields : List (String × Json)) (key : String) (default : Json) : Json :=
  ((Json.field fields key).filter (·.truthy)).getD default

def convertTool : Json → Option Json
  | .obj t =>
    match if isStr "function" (Json.field t "type") then Json.field t "function" else some (.obj t) with
    | some (.obj func) =>
      ((Json.field func "name").filter (·.truthy)).map (fun name =>
        .obj [("name", name), ("description", fieldOr func "description" (.str "")),
          ("input_schema", fieldOr func "parameters" (.obj [("type", .str "object"), ("properties", .obj [])]))])
    | _ => none
  | _ => none

def convertTools (tools : List Json) : List Json := tools.filterMap convertTool

def convertToolChoice : Json → Option Json
  | .str "auto" => some (.obj [("type", .str "auto")])
  | .str "none" => some (.obj [("type", .str "none")])
  | .str "required" => some (.obj [("type", .str "any")])
  | .obj choice =>
    if isStr "function" (Json.field choice "type") then
      match Json.field choice "function" with
      | some (.obj func) =>
        ((Json.field func "name").filter (·.truthy)).map (fun name => .obj [("type", .str "tool"), ("name", name)])
      | _ => none
    else none
  | _ => none

def efforts : List String := ["low", "medium", "high", "xhigh", "max"]

section
variable (loads : Text → Option Json) {F : Type} [DecidableEq F] [One F]

def buildPayload (model : String) (messages : List Message) (opts : ChatOptions F) (stream : Bool) : Payload F :=
  let (system, rest) := splitSystem messages
  let converted := rest.filterMap (convertMessage loads)
  let tools := convertTools opts.tools
  { model
    maxTokens := opts.maxTokens.getD defaultMaxTokens
    messages := if converted.isEmpty then [⟨.user, .str []⟩] else converted
    system := if system = [] then none else some system
    stream
    temperature := opts.temperature
    topP := if opts.temperature.isSome then none else opts.topP.filter (· ≠ 1)
    stopSequences := opts.stop
    tools
    toolChoice := if tools.isEmpty then none else convertToolChoice opts.toolChoice
    effort := opts.reasoningEffort.filter (efforts.contains ·) }

end

/-! ## what a message says -/

inductive Carried
  | text (text : Text)
  | image (url : Text)

inductive Item
  | part (carried : Carried)
  | call (id name : String) (arguments : Option Json)
  | result (toolCallId : String) (content : List Carried)

def textOf (text : Text) : List Carried := if text = [] then [] else [.text text]

def Part.carried : Part → List Carried
  | .text t => textOf (t.getD [])
  | .imageUrl ref => if ref.url = [] then [] else [.image ref.url]

def Content.carried : Content → List Carried
  | .none => []
  | .str s => textOf s
  | .parts ps => ps.flatMap (·.carried)

def saying (role : OutRole) (items : List Item) : Option (OutRole × List Item) :=
  if items.isEmpty then none else some (role, items)

def Message.items (loads : Text → Option Json) (msg : Message) : List Item :=
  if msg.role = .tool then [.result (msg.toolCallId.getD "") msg.content.carried]
  else msg.content.carried.map .part ++
    (if msg.role = .assistant then msg.toolCalls.map (fun tc => .call tc.id tc.name (loads tc.arguments)) else [])

def said (loads : Text → Option Json) (messages : List Message) : List (OutRole × List Item) :=
  messages.filterMap (fun msg => if msg.role = .system then none else saying (outRole msg.role) (msg.items loads))

def systemText (msg : Message) : Option Text :=
  if msg.role = .system ∧ strip (contentToText msg.content) ≠ [] then some (contentToText msg.content) else none

/-! ## what a request says -/

def Source.asUrl : Source → Text
  | .base64 mediaType data => "data:".toList ++ mediaType ++ ";base64,".toList ++ data
  | .url u => u

def Block.items : Block → List Item
  | .text t => (textOf t).map .part
  | .image source => [.part (.image source.asUrl)]
  | .toolUse id name input => [.call id name (some input)]
  | .toolResult toolUseId content => [.result toolUseId (textOf content)]

def OutContent.items : OutContent → List Item
  | .str s => (textOf s).map .part
  | .blocks bs => bs.flatMap (·.items)

def OutMessage.spoken (msg : OutMessage) : Option (OutRole × List Item) := saying msg.role msg.content.items

/-- **The request is faithful to the transcript**: its system text is the system texts that are not blank, and its messages
read back as what the others say. -/
structure Faithful {F : Type} (loads : Text → Option Json) (messages : List Message) (payload : Payload F) : Prop where
  system : payload.system.getD [] = joined (messages.filterMap systemText)
  messages : payload.messages.filterMap (·.spoken) = said loads messages

/-! ## which transcripts go through -/

def Carried.isImage : Carried → Bool
  | .text _ => false
  | .image _ => true

/-- Not a data URL, or one of the form `data:<media>;base64,<payload>`. -/
def Standard (url : Text) : Prop :=
  ¬ "data:".toList <+: url ∨ ∃ mediaType data, mediaType ≠ [] ∧ ',' ∉ mediaType ∧ ';' ∉ mediaType ∧
    url = (Source.base64 mediaType data).asUrl

structure TextFirst (cs : List Carried) : Prop where
  images : ∀ c ∈ cs.tail, c.isImage = true
  standard : ∀ url, Carried.image url ∈ cs → Standard url

def OneText (cs : List Carried) : Prop := cs = [] ∨ ∃ text, cs = [.text text]

def Message.Translatable (msg : Message) : Prop :=
  match msg.role with
  | .system => ∀ parts, msg.content = .parts parts → strip (contentToText msg.content) = []
  | .tool => OneText msg.content.carried
  | .user | .assistant => TextFirst msg.content.carried

def HasObject (loads : Text → Option Json) (tc : ToolCall) : Prop :=
  tc.arguments ≠ [] ∧ ∃ fields, loads tc.arguments = some (.obj fields)

/-! ## lists -/

section
variable {α β : Type}

theorem filterMap_length_le {f g : α → Option β} : ∀ {l : List α}, (∀ a ∈ l, g a = none → f a = none) →
    (l.filterMap f).length ≤ (l.filterMap g).length
  | [], _ => Nat.le_refl _
  | a :: l, h => by
    have hrest := filterMap_length_le (fun b hb => h b (List.mem_cons_of_mem a hb))
    cases hg : g a with
    | none =>
      rw [List.filterMap_cons_none hg, List.filterMap_cons_none (h a List.mem_cons_self hg)]
      exact hrest
    | some b =>
      rw [List.filterMap_cons_some hg]
      cases hf : f a with
      | none =>
        rw [List.filterMap_cons_none hf]
        exact Nat.le_succ_of_le hrest
      | some b' =>
        rw [List.filterMap_cons_some hf]
        exact Nat.succ_le_succ hrest

theorem filterMap_eq_iff {f g : α → Option β} : ∀ {l : List α}, (∀ a ∈ l, g a = none → f a = none) →
    (l.filterMap f = l.filterMap g ↔ ∀ a ∈ l, f a = g a)
  | [], _ => by simp
  | a :: l, h => by
    have hl : ∀ b ∈ l, g b = none → f b = none := fun b hb => h b (List.mem_cons_of_mem a hb)
    have ih := filterMap_eq_iff hl
    rw [List.forall_mem_cons]
    cases hg : g a with
    | none =>
      have hf := h a List.mem_cons_self hg
      rw [List.filterMap_cons_none hg, List.filterMap_cons_none hf, ih, hf]
      simp
    | some b =>
      rw [List.filterMap_cons_some hg]
      cases hf : f a with
      | none =>
        rw [List.filterMap_cons_none hf]
        have hlength := filterMap_length_le hl
        constructor
        · intro heq
          rw [heq, List.length_cons] at hlength
          omega
        · rintro ⟨heq, -⟩
          cases heq
      | some b' =>
        rw [List.filterMap_cons_some hf, List.cons.injEq, ih, Option.some.injEq]

theorem filterMap_self_iff {f : α → Option α} {l : List α} : l.filterMap f = l ↔ ∀ a ∈ l, f a = some a := by
  have hself : l.filterMap some = l := List.filterMap_some
  have hiff := filterMap_eq_iff (f := f) (g := some) (l := l) (fun a _ h => by cases h)
  rw [hself] at hiff
  exact hiff

end

/-! ## the system text -/

def weight (texts : List Text) : Nat := (texts.map (fun t => t.length + 2)).sum

theorem joined_length : ∀ {texts : List Text}, texts ≠ [] → (joined texts).length + 2 = weight texts
  | [], h => absurd rfl h
  | [t], _ => by simp [joined, weight]
  | t :: u :: texts, _ => by
    have ih : (joined (u :: texts)).length + 2 = weight (u :: texts) := joined_length (List.cons_ne_nil u texts)
    have hsep : "\n\n".toList.length = 2 := by decide
    simp only [joined, weight, List.intercalate_cons_cons, List.length_append, List.map_cons, List.sum_cons] at ih ⊢
    omega

theorem weight_lt {texts texts' : List Text} (h : texts.Sublist texts') : texts = texts' ∨ weight texts < weight texts' := by
  induction h with
  | slnil => exact .inl rfl
  | cons t _ ih =>
    right
    rcases ih with rfl | ih
    · simp [weight]
    · simp only [weight, List.map_cons, List.sum_cons] at ih ⊢
      omega
  | cons_cons t _ ih =>
    rcases ih with rfl | ih
    · exact .inl rfl
    · right
      simp only [weight, List.map_cons, List.sum_cons] at ih ⊢
      omega

theorem joined_inj {texts texts' : List Text} (h : texts.Sublist texts') (hne : ∀ t ∈ texts', t ≠ [])
    (heq : joined texts = joined texts') : texts = texts' := by
  rcases weight_lt h with h | hlt
  · exact h
  · have hne' : texts' ≠ [] := by
      rintro rfl
      cases hlt
    have hlength := joined_length hne'
    rw [← heq] at hlength
    cases texts with
    | nil =>
      cases texts' with
      | nil => rfl
      | cons t texts' =>
        have ht := List.length_pos_iff.2 (hne t List.mem_cons_self)
        simp only [joined, List.intercalate_nil, List.length_nil, weight, List.map_cons, List.sum_cons] at hlength
        omega
    | cons t texts =>
      have hlength' := joined_length (List.cons_ne_nil t texts)
      omega

theorem filterMap_sublist {α β : Type} {f g : α → Option β} : ∀ {l : List α}, (∀ a ∈ l, f a = none ∨ f a = g a) →
    (l.filterMap f).Sublist (l.filterMap g)
  | [], _ => .slnil
  | a :: l, h => by
    have ih := filterMap_sublist (fun b hb => h b (List.mem_cons_of_mem a hb))
    rcases h a List.mem_cons_self with hf | hf
    · rw [List.filterMap_cons_none hf]
      cases hg : g a with
      | none =>
        rw [List.filterMap_cons_none hg]
        exact ih
      | some b =>
        rw [List.filterMap_cons_some hg]
        exact ih.cons b
    · cases hg : g a with
      | none =>
        rw [List.filterMap_cons_none hg, List.filterMap_cons_none (hf.trans hg)]
        exact ih
      | some b =>
        rw [List.filterMap_cons_some hg, List.filterMap_cons_some (hf.trans hg)]
        exact ih.cons_cons b

theorem systemPart_cases (msg : Message) : systemPart msg = none ∨ systemPart msg = systemText msg := by
  unfold systemPart systemText
  cases msg.content with
  | str s => exact .inr rfl
  | none | parts => exact .inl (if_neg (fun h => h.2 rfl))

theorem systemText_ne_nil {msg : Message} {text : Text} (h : systemText msg = some text) : text ≠ [] := by
  unfold systemText at h
  split at h
  · rename_i hblank
    cases h
    intro hnil
    rw [hnil] at hblank
    exact hblank.2 rfl
  · cases h

theorem systemPart_eq_iff (msg : Message) : systemPart msg = systemText msg ↔
    (msg.role = .system → ∀ parts, msg.content = .parts parts → strip (contentToText msg.content) = []) := by
  unfold systemPart systemText
  cases hcontent : msg.content with
  | none | str => exact ⟨fun _ _ _ => nofun, fun _ => rfl⟩
  | parts parts =>
    by_cases hsystem : msg.role = .system
    · by_cases hblank : strip (contentToText (.parts parts)) = []
      · simp [hsystem, hblank, show strip [] = [] from rfl]
      · simp [hsystem, hblank, show strip [] = [] from rfl]
    · simp [hsystem]

theorem system_eq_iff (messages : List Message) :
    joined (messages.filterMap systemPart) = joined (messages.filterMap systemText) ↔
      ∀ msg ∈ messages, msg.role = .system → ∀ parts, msg.content = .parts parts →
        strip (contentToText msg.content) = [] := by
  have hnone : ∀ msg ∈ messages, systemText msg = none → systemPart msg = none := by
    intro msg _ h
    rcases systemPart_cases msg with hpart | hpart
    · exact hpart
    · exact hpart.trans h
  have hsub : (messages.filterMap systemPart).Sublist (messages.filterMap systemText) :=
    filterMap_sublist (fun msg _ => systemPart_cases msg)
  have hne : ∀ t ∈ messages.filterMap systemText, t ≠ [] := by
    intro t ht
    obtain ⟨msg, -, hmsg⟩ := List.mem_filterMap.1 ht
    exact systemText_ne_nil hmsg
  have hiff := filterMap_eq_iff hnone
  constructor
  · intro h msg hmsg
    exact (systemPart_eq_iff msg).1 (hiff.1 (joined_inj hsub hne h) msg hmsg)
  · intro h
    rw [hiff.2 (fun msg hmsg => (systemPart_eq_iff msg).2 (h msg hmsg))]

/-! ## one image -/

theorem takeWhile_before {c : Char} : ∀ {front : Text} (rest : Text), c ∉ front →
    (front ++ c :: rest).takeWhile (· ≠ c) = front ∧ (front ++ c :: rest).dropWhile (· ≠ c) = c :: rest
  | [], rest, _ => by simp
  | d :: front, rest, h => by
    have hd : d ≠ c := fun hdc => h (hdc ▸ List.mem_cons_self)
    have ih := takeWhile_before rest (fun hc => h (List.mem_cons_of_mem d hc))
    simpa [hd] using ih

def back (url : Text) : Option Text := (imageSource url).map (·.asUrl)

theorem not_mem_takeWhile {c : Char} (text : Text) : c ∉ text.takeWhile (· ≠ c) := by
  induction text with
  | nil => simp
  | cons d text ih =>
    rw [List.takeWhile_cons]
    split
    · rename_i hd
      simp only [List.mem_cons, not_or]
      exact ⟨fun h => of_decide_eq_true hd h.symm, ih⟩
    · simp

/-- **An image comes back as it was** exactly when its url is not a data URL of another form. -/
theorem back_eq_iff (url : Text) : back url = some url ↔ Standard url := by
  unfold back Standard imageSource
  by_cases hdata : "data:".toList <+: url
  · rw [if_pos hdata]
    constructor
    · intro h
      right
      split at h
      · have hurl := Option.some.inj h
        refine ⟨_, _, ?_, ?_, ?_, hurl.symm⟩
        · split
          · decide
          · assumption
        · split
          · decide
          · intro hc
            have hhead := List.mem_of_mem_drop ((List.takeWhile_prefix _).subset hc)
            exact not_mem_takeWhile url hhead
        · split
          · decide
          · exact not_mem_takeWhile _
      · cases h
    · rintro (hno | ⟨mediaType, data, hne, hcomma, hsemi, rfl⟩)
      · exact absurd hdata hno
      · have hhead : ',' ∉ "data:".toList ++ mediaType ++ ";base64".toList := by
          simp only [List.mem_append, not_or]
          exact ⟨⟨by decide, hcomma⟩, by decide⟩
        have hsplit : (Source.base64 mediaType data).asUrl =
            ("data:".toList ++ mediaType ++ ";base64".toList) ++ ',' :: data := by
          change "data:".toList ++ mediaType ++ ";base64,".toList ++ data = _
          simp
        have hmedia : ("data:".toList ++ mediaType ++ ";base64".toList).drop 5 = mediaType ++ ';' :: "base64".toList := by
          simp
        rw [hsplit, if_pos (by simp)]
        dsimp only
        rw [(takeWhile_before data hhead).1, (takeWhile_before data hhead).2, hmedia, (takeWhile_before _ hsemi).1, if_neg hne,
          ← hsplit]
        rfl
  · rw [if_neg hdata]
    exact ⟨fun _ => .inl hdata, fun _ => rfl⟩

/-! ## the parts of one message -/

def Carried.textOr : Carried → Text
  | .text t => t
  | .image _ => []

def Carried.url? : Carried → Option Text
  | .text _ => none
  | .image u => some u

theorem carried_ne_nil {content : Content} {t : Text} (h : Carried.text t ∈ content.carried) : t ≠ [] := by
  have htext : ∀ s : Text, Carried.text t ∈ textOf s → t ≠ [] := by
    intro s hs
    unfold textOf at hs
    split at hs
    · cases hs
    · rename_i hne
      obtain ⟨⟩ := List.mem_singleton.1 hs
      exact hne
  cases content with
  | none => cases h
  | str s => exact htext s h
  | parts parts =>
    obtain ⟨part, -, hpart⟩ := List.mem_flatMap.1 h
    cases part with
    | text s => exact htext _ hpart
    | imageUrl ref =>
      unfold Part.carried at hpart
      dsimp only at hpart
      split at hpart
      · cases hpart
      · cases List.mem_singleton.1 hpart

theorem textOf_textOr (s : Text) : ((textOf s).map Carried.textOr).flatten = s := by
  unfold textOf
  split
  · rename_i h
    rw [h]
    rfl
  · simp [Carried.textOr]

theorem textOf_url (s : Text) : (textOf s).filterMap Carried.url? = [] := by
  unfold textOf
  split <;> rfl

theorem contentToText_carried (content : Content) :
    contentToText content = (content.carried.map Carried.textOr).flatten := by
  cases content with
  | none => rfl
  | str s => exact (textOf_textOr s).symm
  | parts parts =>
    unfold contentToText Content.carried
    induction parts with
    | nil => rfl
    | cons part parts ih =>
      dsimp only at ih ⊢
      rw [List.map_cons, List.flatten_cons, List.flatMap_cons, List.map_append, List.flatten_append, ih]
      congr 1
      cases part with
      | text t => exact (textOf_textOr _).symm
      | imageUrl ref =>
        unfold Part.carried Part.textOr
        dsimp only
        split <;> rfl

theorem imageBlocks_carried (content : Content) :
    imageBlocks content = (content.carried.filterMap Carried.url?).filterMap (fun u => (imageSource u).map .image) := by
  cases content with
  | none => rfl
  | str s =>
    change [] = List.filterMap _ ((textOf s).filterMap Carried.url?)
    rw [textOf_url]
    rfl
  | parts parts =>
    unfold imageBlocks Content.carried
    induction parts with
    | nil => rfl
    | cons part parts ih =>
      dsimp only at ih ⊢
      rw [List.flatMap_cons, List.filterMap_append, List.filterMap_append, ← ih]
      cases part with
      | text t =>
        rw [List.filterMap_cons_none rfl]
        unfold Part.carried
        rw [textOf_url]
        rfl
      | imageUrl ref =>
        by_cases hurl : ref.url = []
        · rw [List.filterMap_cons_none (by simp [Part.imageBlock, hurl])]
          simp [Part.carried, hurl]
        · rw [List.filterMap_cons]
          simp only [Part.imageBlock, Part.carried, if_neg hurl, List.filterMap_cons, Carried.url?, List.filterMap_nil]
          cases imageSource ref.url <;> rfl

def sent (cs : List Carried) : List Carried :=
  textOf (cs.map Carried.textOr).flatten ++ ((cs.filterMap Carried.url?).filterMap back).map .image

theorem contentBlocks_items (content : Content) :
    (contentBlocks content).flatMap (·.items) = (sent content.carried).map .part := by
  unfold contentBlocks sent
  rw [List.flatMap_append, List.map_append, imageBlocks_carried, contentToText_carried]
  congr 1
  · unfold textOf
    split
    · rfl
    · rename_i hne
      simp [Block.items, textOf, hne]
  · induction content.carried.filterMap Carried.url? with
    | nil => rfl
    | cons u us ih =>
      unfold back at ih ⊢
      rw [List.filterMap_cons, List.filterMap_cons]
      cases imageSource u with
      | none => exact ih
      | some source =>
        dsimp only [Option.map_some]
        rw [List.flatMap_cons, ih]
        rfl

theorem images_carried : ∀ {cs : List Carried}, (∀ c ∈ cs, c.isImage = true) →
    (cs.map Carried.textOr).flatten = [] ∧ (cs.filterMap Carried.url?).map .image = cs
  | [], _ => ⟨rfl, rfl⟩
  | .text t :: cs, h => by cases h _ List.mem_cons_self
  | .image u :: cs, h => by
    obtain ⟨htext, hurls⟩ := images_carried (fun c hc => h c (List.mem_cons_of_mem _ hc))
    simp [Carried.textOr, Carried.url?, htext, hurls]

/-- **The parts of a message come back in their order** exactly when there is at most one text, before all images, and no
data URL of another form. -/
theorem sent_eq_iff {cs : List Carried} (hne : ∀ t, Carried.text t ∈ cs → t ≠ []) : sent cs = cs ↔ TextFirst cs := by
  have hurls : ∀ text us, (textOf text ++ us.map Carried.image).filterMap Carried.url? = us := by
    intro text us
    rw [List.filterMap_append, textOf_url, List.filterMap_map]
    exact List.filterMap_some
  have hmem : ∀ u, u ∈ cs.filterMap Carried.url? ↔ Carried.image u ∈ cs := by
    intro u
    rw [List.mem_filterMap]
    constructor
    · rintro ⟨c, hc, hu⟩
      cases c with
      | text t => cases hu
      | image v =>
        cases hu
        exact hc
    · exact fun h => ⟨_, h, rfl⟩
  constructor
  · intro h
    refine ⟨?_, ?_⟩
    · intro c hc
      rw [← h] at hc
      unfold sent textOf at hc
      split at hc
      · obtain ⟨u, -, rfl⟩ := List.mem_map.1 (List.mem_of_mem_tail hc)
        rfl
      · obtain ⟨u, -, rfl⟩ := List.mem_map.1 hc
        rfl
    · intro u hu
      have hself : (cs.filterMap Carried.url?).filterMap back = cs.filterMap Carried.url? := by
        conv_rhs => rw [← h]
        exact (hurls _ _).symm
      exact (back_eq_iff u).1 (filterMap_self_iff.1 hself u ((hmem u).2 hu))
  · intro h
    have hself : (cs.filterMap Carried.url?).filterMap back = cs.filterMap Carried.url? :=
      filterMap_self_iff.2 (fun u hu => (back_eq_iff u).2 (h.standard u ((hmem u).1 hu)))
    unfold sent
    rw [hself]
    cases cs with
    | nil => rfl
    | cons c cs =>
      obtain ⟨htext, himages⟩ := images_carried h.images
      rw [List.tail_cons] at htext himages
      cases c with
      | text t =>
        have ht := hne t List.mem_cons_self
        simp [Carried.textOr, Carried.url?, List.filterMap_cons, htext, himages, textOf, ht]
      | image u => simp [Carried.textOr, Carried.url?, htext, himages, textOf]

theorem textOf_eq_iff {cs : List Carried} (hne : ∀ t, Carried.text t ∈ cs → t ≠ []) :
    textOf (cs.map Carried.textOr).flatten = cs ↔ OneText cs := by
  constructor
  · intro h
    unfold textOf at h
    split at h
    · exact .inl h.symm
    · exact .inr ⟨_, h.symm⟩
  · rintro (rfl | ⟨t, rfl⟩)
    · rfl
    · have ht := hne t List.mem_cons_self
      simp [Carried.textOr, textOf, ht]

/-! ## one message -/

theorem saying_inj {role : OutRole} {items items' : List Item} : saying role items = saying role items' ↔ items = items' := by
  constructor
  · intro h
    cases items <;> cases items' <;> simp_all [saying]
  · exact congrArg _

section
variable {loads : Text → Option Json}

def sentItems (loads : Text → Option Json) (msg : Message) : List Item :=
  if msg.role = .tool then [.result (msg.toolCallId.getD "") (textOf (contentToText msg.content))]
  else (sent msg.content.carried).map .part ++
    (if msg.role = .assistant then msg.toolCalls.map (fun tc => .call tc.id tc.name (loads tc.arguments)) else [])

theorem toolUse_items {tc : ToolCall} (h : HasObject loads tc) :
    (toolUse loads tc).items = [.call tc.id tc.name (loads tc.arguments)] := by
  obtain ⟨hne, fields, hloads⟩ := h
  have hinput : toolInput loads tc.arguments = .obj fields := by
    unfold toolInput argsOr
    rw [if_neg hne, hloads]
  unfold toolUse Block.items
  rw [hinput, hloads]

theorem toolUses_items {calls : List ToolCall} (h : ∀ tc ∈ calls, HasObject loads tc) :
    (calls.map (toolUse loads)).flatMap (·.items) = calls.map (fun tc => .call tc.id tc.name (loads tc.arguments)) := by
  induction calls with
  | nil => rfl
  | cons tc calls ih =>
    rw [List.map_cons, List.flatMap_cons, toolUse_items (h tc List.mem_cons_self),
      ih (fun tc' htc => h tc' (List.mem_cons_of_mem tc htc))]
    rfl

theorem blocks_spoken (role : OutRole) (bs : List Block) :
    (match bs with
      | [] => none
      | [.text t] => some (⟨role, .str t⟩ : OutMessage)
      | bs => some ⟨role, .blocks bs⟩).bind (·.spoken) = saying role (bs.flatMap (·.items)) := by
  split
  · rfl
  · simp [OutMessage.spoken, OutContent.items, Block.items]
  · rfl

theorem convertMessage_spoken {msg : Message} (h : ∀ tc ∈ msg.toolCalls, HasObject loads tc) :
    (convertMessage loads msg).bind (·.spoken) = saying (outRole msg.role) (sentItems loads msg) := by
  unfold convertMessage sentItems
  by_cases htool : msg.role = .tool
  · rw [if_pos htool, if_pos htool, htool]
    rfl
  · rw [if_neg htool, if_neg htool]
    rw [blocks_spoken, List.flatMap_append, contentBlocks_items]
    by_cases hassistant : msg.role = .assistant
    · rw [if_pos hassistant, if_pos hassistant, toolUses_items h]
    · rw [if_neg hassistant, if_neg hassistant]
      rfl

theorem sentItems_eq_iff {msg : Message} (hrole : msg.role ≠ .system) :
    sentItems loads msg = msg.items loads ↔ msg.Translatable := by
  have hne : ∀ t, Carried.text t ∈ msg.content.carried → t ≠ [] := fun t => carried_ne_nil
  have hpart : Function.Injective Item.part := fun c d h => Item.part.inj h
  have htail : ∀ calls : List Item, (sent msg.content.carried).map .part ++ calls = msg.content.carried.map .part ++ calls ↔
      TextFirst msg.content.carried := by
    intro calls
    rw [List.append_cancel_right_eq, ← sent_eq_iff hne]
    exact (List.map_injective_iff.2 hpart).eq_iff
  unfold sentItems Message.items Message.Translatable
  cases hr : msg.role with
  | system => exact absurd hr hrole
  | tool =>
    rw [if_pos rfl, if_pos rfl, contentToText_carried]
    rw [← textOf_eq_iff hne]
    simp
  | user | assistant => exact htail _

theorem sentItems_nil {msg : Message} (h : msg.items loads = []) : sentItems loads msg = [] := by
  unfold Message.items at h
  unfold sentItems
  split at h
  · cases h
  · rename_i htool
    obtain ⟨hparts, hcalls⟩ := List.append_eq_nil_iff.1 h
    rw [if_neg htool, hcalls, List.map_eq_nil_iff.1 hparts]
    rfl

/-! ## the request -/

variable {F : Type} [DecidableEq F] [One F]

theorem payload_messages (model : String) (messages : List Message) (opts : ChatOptions F) (stream : Bool) :
    (buildPayload loads model messages opts stream).messages.filterMap (·.spoken) =
      messages.filterMap (fun msg => if msg.role = .system then none else (convertMessage loads msg).bind (·.spoken)) := by
  have hconverted : ((messages.filter (fun msg => msg.role ≠ .system)).filterMap (convertMessage loads)).filterMap (·.spoken) =
      messages.filterMap (fun msg => if msg.role = .system then none else (convertMessage loads msg).bind (·.spoken)) := by
    rw [List.filterMap_filterMap, List.filterMap_filter]
    refine List.filterMap_congr (fun msg _ => ?_)
    by_cases hsystem : msg.role = .system <;> simp [hsystem]
  rw [← hconverted]
  unfold buildPayload splitSystem
  dsimp only
  split
  · rename_i hempty
    rw [List.isEmpty_iff.1 hempty]
    rfl
  · rfl

theorem messages_eq_iff {messages : List Message} (hobjects : ∀ msg ∈ messages, ∀ tc ∈ msg.toolCalls, HasObject loads tc)
    (model : String) (opts : ChatOptions F) (stream : Bool) :
    (buildPayload loads model messages opts stream).messages.filterMap (·.spoken) = said loads messages ↔
      ∀ msg ∈ messages, msg.role ≠ .system → msg.Translatable := by
  rw [payload_messages]
  unfold said
  have hspoken : ∀ msg ∈ messages,
      (convertMessage loads msg).bind (·.spoken) = saying (outRole msg.role) (sentItems loads msg) :=
    fun msg hmsg => convertMessage_spoken (hobjects msg hmsg)
  rw [filterMap_eq_iff]
  · refine forall₂_congr (fun msg hmsg => ?_)
    by_cases hsystem : msg.role = .system
    · simp [hsystem]
    · rw [if_neg hsystem, if_neg hsystem, hspoken msg hmsg, saying_inj, sentItems_eq_iff hsystem]
      simp [hsystem]
  · intro msg hmsg hnone
    by_cases hsystem : msg.role = .system
    · rw [if_pos hsystem]
    · rw [if_neg hsystem] at hnone ⊢
      have hitems : msg.items loads = [] := by
        unfold saying at hnone
        split at hnone
        · rename_i hempty
          exact List.isEmpty_iff.1 hempty
        · cases hnone
      rw [hspoken msg hmsg, sentItems_nil hitems]
      rfl

/-- **A transcript whose tool calls have objects is translated faithfully exactly when** each message has at most one text,
before all of its images, a tool result none of these, the data URLs have the one form, and no system message is a list with
a text. -/
theorem buildPayload_faithful_iff (loads : Text → Option Json) (model : String) (messages : List Message)
    (opts : ChatOptions F) (stream : Bool) (hobjects : ∀ msg ∈ messages, ∀ tc ∈ msg.toolCalls, HasObject loads tc) :
    Faithful loads messages (buildPayload loads model messages opts stream) ↔ ∀ msg ∈ messages, msg.Translatable := by
  have hsystem : (buildPayload loads model messages opts stream).system.getD [] = joined (messages.filterMap systemPart) := by
    unfold buildPayload splitSystem
    dsimp only
    split
    · rename_i hnil
      exact hnil.symm
    · rfl
  have hmessages := messages_eq_iff hobjects model opts stream
  constructor
  · intro h msg hmsg
    by_cases hrole : msg.role = .system
    · unfold Message.Translatable
      rw [hrole]
      exact (system_eq_iff messages).1 (hsystem.symm.trans h.system) msg hmsg hrole
    · exact hmessages.1 h.messages msg hmsg hrole
  · intro h
    refine ⟨hsystem.trans ((system_eq_iff messages).2 (fun msg hmsg hrole => ?_)), hmessages.2 (fun msg hmsg _ => h msg hmsg)⟩
    have htranslatable := h msg hmsg
    unfold Message.Translatable at htranslatable
    rw [hrole] at htranslatable
    exact htranslatable

end

/-! ## two transcripts -/

def plainOptions : ChatOptions Int where
  temperature := none
  topP := none
  maxTokens := none

/-- `json.loads`, of an empty object. -/
def loadsEmpty (text : Text) : Option Json := if text = "\x7b\x7d".toList then some (.obj []) else none

def pictureAsked : List Message :=
  [{ role := .system, content := .str "Be terse.".toList },
    { role := .user
      content := .parts [.text (some "What is this?".toList),
        .imageUrl (.object (some "data:image/png;base64,AAAA".toList))] },
    { role := .assistant
      content := .str "Let me check.".toList
      toolCalls := [⟨"toolu_1", "inspect", "\x7b\x7d".toList⟩] },
    { role := .tool, content := .str "a cat".toList, toolCallId := some "toolu_1" }]

theorem buildPayload_faithful_picture :
    Faithful loadsEmpty pictureAsked (buildPayload loadsEmpty "claude" pictureAsked plainOptions false) := by
  refine (buildPayload_faithful_iff loadsEmpty "claude" pictureAsked plainOptions false ?_).2 ?_
  · intro msg hmsg tc htc
    simp only [pictureAsked, List.mem_cons, List.not_mem_nil, or_false] at hmsg
    obtain rfl | rfl | rfl | rfl := hmsg
    · cases htc
    · cases htc
    · obtain rfl := List.mem_singleton.1 htc
      exact ⟨by decide, [], rfl⟩
    · cases htc
  · intro msg hmsg
    simp only [pictureAsked, List.mem_cons, List.not_mem_nil, or_false] at hmsg
    obtain rfl | rfl | rfl | rfl := hmsg
    · exact nofun
    · refine ⟨by decide, fun url hurl => ?_⟩
      obtain h | h := List.mem_pair.1 hurl
      · cases h
      · cases h
        exact (back_eq_iff _).1 (by decide)
    · exact ⟨nofun, fun url hurl => by cases List.mem_singleton.1 hurl⟩
    · exact .inr ⟨_, rfl⟩

def pictureFirst : List Message :=
  [{ role := .user
     content := .parts [.imageUrl (.object (some "https://x/y.png".toList)), .text (some "What is this?".toList)] }]

theorem picture_moved : ¬ ∀ messages : List Message, (∀ msg ∈ messages, ∀ tc ∈ msg.toolCalls, HasObject loadsEmpty tc) →
    Faithful loadsEmpty messages (buildPayload loadsEmpty "claude" messages plainOptions false) := by
  intro h
  have hfaithful := h pictureFirst (fun msg hmsg tc htc => by
    obtain rfl := List.mem_singleton.1 hmsg
    cases htc)
  have himages := congrArg (List.map (fun said : OutRole × List Item => said.2.map (fun item =>
    match item with
    | .part c => c.isImage
    | _ => false))) hfaithful.messages
  exact absurd himages (by decide)

end Request
end Anthropic
end MyGpt
