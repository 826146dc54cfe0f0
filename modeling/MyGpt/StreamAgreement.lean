import MyGpt.AnthropicStream
/-!
# StreamAgreement — the stream against the plain call

What a serialised message makes of the state of the reader, block by block, and from it where the deltas say what `chat` says
and what a stream that is cut short yields.
-/
namespace MyGpt
namespace Anthropic

open Chat (Text)

/-! ## serialisations of a message -/

inductive Chunks
  | text (parts : List Text)
  | toolUse (id name : Option String) (fragments : List Text)
  | other (deltas : Nat)

def Chunks.header : Chunks → Header
  | .toolUse id name _ => .toolUse id name
  | _ => .other

def Chunks.deltas (i : Nat) : Chunks → List Event
  | .text parts => parts.map (fun t => .textDelta (some i) (some t))
  | .toolUse _ _ fragments => fragments.map (fun t => .inputDelta (some i) (some t))
  | .other n => List.replicate n (.otherDelta (some i))

def Chunks.opening (i : Nat) (c : Chunks) : List Event := .blockStart (some i) c.header :: c.deltas i

def blockEvents : Nat → List Chunks → List Event
  | _, [] => []
  | i, c :: rest => c.opening i ++ .blockStop (some i) :: blockEvents (i + 1) rest

structure Serial where
  start : Option Usage
  chunks : List Chunks
  /-- The stop reason and the usage of each `message_delta`. -/
  ends : List (Option String × Option Usage)

def Serial.events (s : Serial) : List Event :=
  .messageStart s.start :: (blockEvents 0 s.chunks ++ s.ends.map (fun e => .messageDelta e.1 e.2))

variable (loads : Text → Option Json)

def Spells : Block → Chunks → Prop
  | .text text, .text parts => parts.flatten = text.getD []
  | .toolUse id name input, .toolUse id' name' fragments =>
    id = id' ∧ name = name' ∧ loads (argsOr fragments.flatten) = some input
  | .other, .other _ => True
  | _, _ => False

def Usage.updated (u v : Usage) : Usage where
  inputTokens := v.inputTokens.or u.inputTokens
  outputTokens := v.outputTokens.or u.outputTokens
  cacheReadInputTokens := v.cacheReadInputTokens.or u.cacheReadInputTokens
  cacheCreationInputTokens := v.cacheCreationInputTokens.or u.cacheCreationInputTokens

def combine : Option Usage → Option Usage → Option Usage
  | some u, some v => some (u.updated v)
  | none, v => v
  | u, none => u

def Event.isSkipped : Event → Bool
  | .skipped => true
  | _ => false

structure Serialises (m : Message) (s : Serial) (events : List Event) : Prop where
  events : events.filter (!·.isSkipped) = s.events
  content : List.Forall₂ (Spells loads) m.content s.chunks
  stopReason : (s.ends.filterMap (fun e => truthy e.1)).getLast? = truthy m.stopReason
  usage : (s.ends.map (·.2)).foldl combine s.start = m.usage

/-! ## what a consumer reads -/

/-- A call, its arguments as a JSON value. -/
abbrev Call := String × String × Option Json

def ToolCall.value (call : ToolCall) : Call := (call.id, call.name, loads call.arguments)

def textOf (deltas : List Delta) : Text := (deltas.map (·.content)).flatten

def callsOf (deltas : List Delta) : List Call := deltas.flatMap (fun d => (d.toolCalls.getD []).map (·.value loads))

def finishReasonOf (deltas : List Delta) : Option FinishReason := (deltas.filterMap (·.finishReason)).getLast?

def usageOf (deltas : List Delta) : TokenUsage := (deltas.filterMap (·.usage)).getLast?.getD {}

structure Agrees (result : ChatResult) (out : List Delta × Option String) : Prop where
  ends : out.2 = none
  text : textOf out.1 = result.content
  calls : callsOf loads out.1 = (result.toolCalls.getD []).map (·.value loads)
  finish : finishReasonOf out.1 = some result.finishReason
  usage : usageOf out.1 = result.usage

/-- A usage that says something has both halves, a message with tool calls stops for them, and no input is a falsy value other
than the empty object. -/
structure AgreeOk (m : Message) : Prop where
  usage : ∀ u, m.usage = some u → u.inputTokens.isSome ∧ u.outputTokens.isSome
  finish : ∀ id name input, .toolUse id name input ∈ m.content → finishOf (m.stopReason.getD "") = .toolCalls
  inputs : ∀ id name input, .toolUse id name input ∈ m.content → inputOr input = input

/-! ## a stream that is cut short -/

def Event.isStop : Event → Bool
  | .blockStop _ => true
  | _ => false

def uses (content : List Block) : List Call :=
  content.filterMap (fun block => match block with
    | .toolUse id name input => some (id.getD "", name.getD "", some input)
    | _ => none)

def CompleteOnly (m : Message) (events : List Event) : Prop :=
  List.Sublist (callsOf loads (iterSse loads events).1) (uses (m.content.take (events.countP (·.isStop))))

def Closed (events : List Event) : Prop :=
  ∀ index id name, .blockStart index (.toolUse id name) ∈ events → .blockStop index ∈ events

/-! ## the dictionaries of the reader -/

section
variable {α : Type} {index : Int} {d : List (Int × α)}

theorem put_of_fresh (value : α) (h : ∀ p ∈ d, p.1 ≠ index) : put index value d = d ++ [(index, value)] := by
  induction d with
  | nil => rfl
  | cons p d ih =>
    rw [put, if_neg (h p List.mem_cons_self), ih (fun q hq => h q (List.mem_cons_of_mem _ hq))]
    rfl

theorem put_last (value old : α) (h : ∀ p ∈ d, p.1 ≠ index) : put index value (d ++ [(index, old)]) = d ++ [(index, value)] := by
  induction d with
  | nil => simp [put]
  | cons p d ih =>
    rw [List.cons_append, put, if_neg (h p List.mem_cons_self), ih (fun q hq => h q (List.mem_cons_of_mem _ hq))]
    rfl

theorem lookup_last (value : α) (h : ∀ p ∈ d, p.1 ≠ index) : lookup index (d ++ [(index, value)]) = some value := by
  have hnone : d.find? (fun p => p.1 = index) = none := List.find?_eq_none.2 (fun p hp => by simpa using h p hp)
  unfold lookup
  rw [List.find?_append, hnone]
  simp

end

/-! ## one block -/

def Chunks.said : Chunks → List Delta
  | .text parts => (parts.filter (· ≠ [])).map (fun t => { content := t })
  | _ => []

/-- What the block leaves in `tool_blocks`. -/
def Chunks.slots (i : Nat) : Chunks → List (Int × Slot)
  | .toolUse id name fragments => [((i : Int), ⟨id.getD "", name.getD "", fragments.flatten⟩)]
  | _ => []

variable {loads}

theorem fold_texts (i : Option Int) (parts : List Text) (s : State) :
    (parts.map (fun t => Event.textDelta i (some t))).foldl (step loads) s =
      { s with deltas := s.deltas ++ (Chunks.text parts).said } := by
  induction parts generalizing s with
  | nil => simp [Chunks.said]
  | cons t parts ih =>
    rw [List.map_cons, List.foldl_cons, ih]
    by_cases ht : t = []
    · simp [step, ht, Chunks.said]
    · simp [step, ht, Chunks.said, List.append_assoc]

theorem fold_fragments (i : Nat) (fragments : List Text) (s : State) (slot : Slot) (tb : List (Int × Slot))
    (h : ∀ p ∈ tb, p.1 ≠ (i : Int)) :
    (fragments.map (fun t => Event.inputDelta (some i) (some t))).foldl (step loads) { s with toolBlocks := tb ++ [((i : Int), slot)] } =
      { s with toolBlocks := tb ++ [((i : Int), { slot with args := slot.args ++ fragments.flatten })] } := by
  induction fragments generalizing slot with
  | nil => simp
  | cons t fragments ih =>
    rw [List.map_cons, List.foldl_cons]
    have hstep : step loads { s with toolBlocks := tb ++ [((i : Int), slot)] } (.inputDelta (some i) (some t)) =
        { s with toolBlocks := tb ++ [((i : Int), { slot with args := slot.args ++ t })] } := by
      simp only [step, Option.getD_some, lookup_last slot h, put_last _ slot h]
    rw [hstep, ih]
    simp [List.append_assoc]

theorem fold_others (i : Option Int) (n : Nat) (s : State) :
    (List.replicate n (Event.otherDelta i)).foldl (step loads) s = s := by
  induction n with
  | zero => rfl
  | succ n ih => exact ih

theorem opening_fold (c : Chunks) (i : Nat) (s : State) (hactive : s.activeBlock = []) (hkeys : ∀ p ∈ s.toolBlocks, p.1 ≠ (i : Int)) :
    (c.opening i).foldl (step loads) s =
      { s with activeBlock := [((i : Int), c.header)], toolBlocks := s.toolBlocks ++ c.slots i, deltas := s.deltas ++ c.said } := by
  unfold Chunks.opening
  rw [List.foldl_cons]
  cases c with
  | text parts =>
    have hstep : step loads s (.blockStart (some i) .other) = { s with activeBlock := [((i : Int), .other)] } := by
      simp [step, hactive, put]
    show List.foldl _ (step loads s (.blockStart (some i) .other)) _ = _
    rw [hstep]
    refine (fold_texts _ parts _).trans ?_
    simp [Chunks.slots, Chunks.header]
  | toolUse id name fragments =>
    have hstep : step loads s (.blockStart (some i) (.toolUse id name)) =
        { s with activeBlock := [((i : Int), .toolUse id name)], toolBlocks := s.toolBlocks ++ [((i : Int), ⟨id.getD "", name.getD "", []⟩)] } := by
      simp only [step, hactive, put, Option.getD_some, put_of_fresh _ hkeys]
    show List.foldl _ (step loads s (.blockStart (some i) (.toolUse id name))) _ = _
    rw [hstep]
    refine (fold_fragments i fragments { s with activeBlock := [((i : Int), .toolUse id name)] } _ _ hkeys).trans ?_
    simp [Chunks.slots, Chunks.said, Chunks.header]
  | other n =>
    have hstep : step loads s (.blockStart (some i) .other) = { s with activeBlock := [((i : Int), .other)] } := by
      simp [step, hactive, put]
    show List.foldl _ (step loads s (.blockStart (some i) .other)) _ = _
    rw [hstep]
    refine (fold_others _ n _).trans ?_
    simp [Chunks.slots, Chunks.said, Chunks.header]

variable (loads) in
def Chunks.Readable : Chunks → Prop
  | .toolUse _ _ fragments => (loads (argsOr fragments.flatten)).isSome
  | _ => True

theorem readable_of_spells {block : Block} {c : Chunks} (h : Spells loads block c) : c.Readable loads := by
  cases c with
  | toolUse id name fragments =>
    cases block with
    | toolUse id' name' input =>
      show (loads (argsOr fragments.flatten)).isSome = true
      rw [h.2.2]
      rfl
    | _ => exact h.elim
  | _ => trivial

theorem chunk_fold (c : Chunks) (i : Nat) (s : State) (hactive : s.activeBlock = []) (hkeys : ∀ p ∈ s.toolBlocks, p.1 ≠ (i : Int))
    (hread : c.Readable loads) : (c.opening i ++ [Event.blockStop (some i)]).foldl (step loads) s =
      { s with toolBlocks := s.toolBlocks ++ c.slots i, deltas := s.deltas ++ c.said } := by
  rw [List.foldl_append, opening_fold c i s hactive hkeys]
  cases c with
  | toolUse id name fragments =>
    have hsome : (loads (argsOr fragments.flatten)).isNone = false := by
      rw [Option.isNone_eq_false_iff]
      exact hread
    have hlast : lookup (i : Int) (s.toolBlocks ++ (Chunks.toolUse id name fragments).slots i) =
        some ⟨id.getD "", name.getD "", fragments.flatten⟩ := lookup_last _ hkeys
    have hheader : lookup (i : Int) [((i : Int), (Chunks.toolUse id name fragments).header)] = some (.toolUse id name) := by
      simp [lookup, Chunks.header]
    simp [step, drop, hactive, hlast, hheader, hsome]
  | text | other => simp [step, lookup, drop, hactive, Chunks.header, Chunks.slots]

/-! ## the blocks -/

def slots : Nat → List Chunks → List (Int × Slot)
  | _, [] => []
  | i, c :: rest => c.slots i ++ slots (i + 1) rest

theorem chunk_slots_key {c : Chunks} {i : Nat} {p : Int × Slot} (h : p ∈ c.slots i) : p.1 = i := by
  cases c with
  | toolUse id name fragments => rw [List.mem_singleton.1 h]
  | _ => cases h

theorem slots_key {i : Nat} {cs : List Chunks} {p : Int × Slot} (h : p ∈ slots i cs) : (i : Int) ≤ p.1 ∧ p.1 < i + cs.length := by
  induction cs generalizing i with
  | nil => cases h
  | cons c cs ih =>
    obtain hc | hr := List.mem_append.1 h
    · have := chunk_slots_key hc
      simp only [List.length_cons]
      omega
    · have := ih hr
      simp only [List.length_cons]
      omega

theorem slots_sorted (i : Nat) (cs : List Chunks) : (slots i cs).Pairwise (fun a b => a.1 ≤ b.1) := by
  induction cs generalizing i with
  | nil => exact .nil
  | cons c cs ih =>
    refine List.pairwise_append.2 ⟨?_, ih (i + 1), fun a ha b hb => ?_⟩
    · cases c with
      | toolUse id name fragments => exact List.pairwise_singleton _ _
      | _ => exact .nil
    · have h1 := chunk_slots_key ha
      have h2 := (slots_key hb).1
      omega

variable (loads) in
theorem blocks_fold (cs : List Chunks) (i : Nat) (s : State) (hactive : s.activeBlock = [])
    (hkeys : ∀ p ∈ s.toolBlocks, p.1 < (i : Int)) (hread : ∀ c ∈ cs, c.Readable loads) :
    (blockEvents i cs).foldl (step loads) s =
      { s with toolBlocks := s.toolBlocks ++ slots i cs, deltas := s.deltas ++ cs.flatMap (·.said) } := by
  induction cs generalizing i s with
  | nil => simp [blockEvents, slots]
  | cons c cs ih =>
    have hsplit : blockEvents i (c :: cs) = (c.opening i ++ [Event.blockStop (some i)]) ++ blockEvents (i + 1) cs := by
      simp [blockEvents]
    rw [hsplit, List.foldl_append, chunk_fold c i s hactive (fun p hp => Int.ne_of_lt (hkeys p hp)) (hread c List.mem_cons_self)]
    refine (ih (i + 1) { s with toolBlocks := s.toolBlocks ++ c.slots i, deltas := s.deltas ++ c.said } hactive (fun p hp => ?_)
      (fun d hd => hread d (List.mem_cons_of_mem _ hd))).trans ?_
    · obtain hs | hc := List.mem_append.1 hp
      · have := hkeys p hs
        omega
      · have := chunk_slots_key hc
        omega
    · simp [slots, List.append_assoc]

/-! ## where a stream can end -/

theorem prefix_append_cases {α : Type} {a b q : List α} (h : q <+: a ++ b) : q <+: a ∨ ∃ t, q = a ++ t ∧ t <+: b := by
  obtain hq | ⟨t, rfl⟩ := List.prefix_or_prefix_of_prefix h (List.prefix_append a b)
  · exact .inl hq
  · exact .inr ⟨t, rfl, (List.prefix_append_right_inj a).1 h⟩

/-- The block with its first `n` deltas. -/
def Chunks.cut (n : Nat) : Chunks → Chunks
  | .text parts => .text (parts.take n)
  | .toolUse id name fragments => .toolUse id name (fragments.take n)
  | .other m => .other (min n m)

theorem opening_prefix {c : Chunks} {i : Nat} {q : List Event} (h : q <+: c.opening i) : q = [] ∨ ∃ n, q = (c.cut n).opening i := by
  cases q with
  | nil => exact .inl rfl
  | cons e q =>
    obtain ⟨rfl, hq⟩ := List.cons_prefix_cons.1 h
    refine .inr ⟨q.length, ?_⟩
    have htake := List.prefix_iff_eq_take.1 hq
    cases c with
    | text | toolUse => rw [htake]; simp [Chunks.opening, Chunks.cut, Chunks.header, Chunks.deltas, List.map_take]
    | other m => rw [htake]; simp [Chunks.opening, Chunks.cut, Chunks.header, Chunks.deltas, List.take_replicate]

theorem blocks_prefix {cs : List Chunks} {i : Nat} {q : List Event} (h : q <+: blockEvents i cs) :
    (∃ k ≤ cs.length, q = blockEvents i (cs.take k)) ∨
      ∃ k c n, k < cs.length ∧ cs[k]? = some c ∧ q = blockEvents i (cs.take k) ++ (c.cut n).opening (i + k) := by
  induction cs generalizing i q with
  | nil => exact .inl ⟨0, Nat.le_refl 0, List.prefix_nil.1 h⟩
  | cons c cs ih =>
    obtain hopen | ⟨t, rfl, ht⟩ := prefix_append_cases h
    · obtain rfl | ⟨n, rfl⟩ := opening_prefix hopen
      · exact .inl ⟨0, Nat.zero_le _, rfl⟩
      · exact .inr ⟨0, c, n, Nat.zero_lt_succ _, rfl, rfl⟩
    · cases t with
      | nil =>
        obtain hnil | ⟨n, hn⟩ := opening_prefix (List.prefix_refl (c.opening i))
        · cases hnil
        · exact .inr ⟨0, c, n, Nat.zero_lt_succ _, rfl, by rw [List.append_nil, hn]; rfl⟩
      | cons e t =>
        obtain ⟨rfl, hrest⟩ := List.cons_prefix_cons.1 ht
        obtain ⟨k, hk, rfl⟩ | ⟨k, d, n, hk, hd, rfl⟩ := ih hrest
        · exact .inl ⟨k + 1, Nat.succ_le_succ hk, by simp [blockEvents]⟩
        · refine .inr ⟨k + 1, d, n, Nat.succ_lt_succ hk, hd, ?_⟩
          simp [blockEvents, Nat.add_comm, Nat.add_left_comm]

/-! ## the ends of blocks -/

def Event.isDelta : Event → Bool
  | .textDelta _ _ => true
  | .inputDelta _ _ => true
  | .otherDelta _ => true
  | _ => false

theorem isDelta_of_mem {c : Chunks} {i : Nat} {e : Event} (h : e ∈ c.deltas i) : e.isDelta = true := by
  cases c with
  | text | toolUse =>
    obtain ⟨t, -, rfl⟩ := List.mem_map.1 h
    rfl
  | other n =>
    rw [List.eq_of_mem_replicate h]
    rfl

theorem mem_opening {c : Chunks} {i : Nat} {e : Event} (h : e ∈ c.opening i) : e = .blockStart (some i) c.header ∨ e.isDelta = true :=
  (List.mem_cons.1 h).imp_right isDelta_of_mem

theorem no_stop_opening {c : Chunks} {i : Nat} {e : Event} (h : e ∈ c.opening i) : e.isStop = false := by
  obtain rfl | hd := mem_opening h
  · rfl
  · cases e with
    | blockStop index => cases hd
    | _ => rfl

theorem no_error_opening {c : Chunks} {i : Nat} (message kind : Option String) : Event.error message kind ∉ c.opening i := by
  intro h
  obtain he | hd := mem_opening h
  · cases he
  · cases hd

theorem start_of_mem_opening {c : Chunks} {i : Nat} {index : Option Int} {block : Header} (h : Event.blockStart index block ∈ c.opening i) :
    index = some (i : Int) ∧ block = c.header := by
  obtain he | hd := mem_opening h
  · cases he
    exact ⟨rfl, rfl⟩
  · cases hd

theorem countP_opening (c : Chunks) (i : Nat) : (c.opening i).countP (·.isStop) = 0 :=
  List.countP_eq_zero.2 (fun e he => by simp [no_stop_opening he])

theorem countP_blockEvents (i : Nat) (cs : List Chunks) : (blockEvents i cs).countP (·.isStop) = cs.length := by
  induction cs generalizing i with
  | nil => rfl
  | cons c cs ih =>
    rw [blockEvents, List.countP_append, countP_opening, List.countP_cons_of_pos rfl, ih]
    simp

theorem stop_of_mem_blockEvents {i : Nat} {cs : List Chunks} {index : Option Int} (h : Event.blockStop index ∈ blockEvents i cs) :
    ∃ j : Nat, index = some (j : Int) ∧ j < i + cs.length := by
  induction cs generalizing i with
  | nil => cases h
  | cons c cs ih =>
    obtain ho | hr := List.mem_append.1 h
    · cases no_stop_opening ho
    · obtain he | hr := List.mem_cons.1 hr
      · cases he
        exact ⟨i, rfl, by simp⟩
      · obtain ⟨j, hj, hlt⟩ := ih hr
        exact ⟨j, hj, by simp only [List.length_cons]; omega⟩

theorem closed_append {a b : List Event} (ha : Closed a) (hb : Closed b) : Closed (a ++ b) := by
  intro index id name h
  obtain h | h := List.mem_append.1 h
  · exact List.mem_append_left _ (ha index id name h)
  · exact List.mem_append_right _ (hb index id name h)

theorem closed_of_no_start {a : List Event} (h : ∀ index id name, Event.blockStart index (.toolUse id name) ∉ a) : Closed a :=
  fun index id name hmem => absurd hmem (h index id name)

theorem closed_blockEvents (i : Nat) (cs : List Chunks) : Closed (blockEvents i cs) := by
  induction cs generalizing i with
  | nil => exact closed_of_no_start (fun _ _ _ h => by cases h)
  | cons c cs ih =>
    intro index id name h
    obtain ho | hr := List.mem_append.1 h
    · rw [(start_of_mem_opening ho).1]
      exact List.mem_append_right _ List.mem_cons_self
    · obtain he | hr := List.mem_cons.1 hr
      · cases he
      · exact List.mem_append_right _ (List.mem_cons_of_mem _ (ih (i + 1) index id name hr))

/-! ## the end of the message -/

def streamUsage (u : Usage) : TokenUsage :=
  { mapUsage (some u) with totalTokens := some (u.inputTokens.getD 0 + u.outputTokens.getD 0) }

theorem snapshot_usage (s : State) (c usage : Option Usage) (h : s.finalUsage = c.map streamUsage) :
    s.snapshot usage = { s with finalUsage := (combine c usage).map streamUsage } := by
  cases usage with
  | none =>
    cases c with
    | none | some u => exact congrArg (fun u => { s with finalUsage := u }) h
  | some v =>
    show { s with finalUsage := some (mergeStreamUsage s.finalUsage v) } = _
    rw [h]
    cases c with
    | none => simp [combine, mergeStreamUsage, streamUsage, mapUsage]
    | some u => simp [combine, mergeStreamUsage, streamUsage, mapUsage, Usage.updated]

theorem ends_fold (ends : List (Option String × Option Usage)) (s : State) (c : Option Usage) (h : s.finalUsage = c.map streamUsage) :
    (ends.map (fun e => Event.messageDelta e.1 e.2)).foldl (step loads) s =
      { s with
        finishReason := ((ends.filterMap (fun e => truthy e.1)).getLast?.map finishOf).or s.finishReason
        finalUsage := ((ends.map (·.2)).foldl combine c).map streamUsage } := by
  induction ends generalizing s c with
  | nil =>
    show s = { s with finalUsage := c.map streamUsage }
    rw [← h]
  | cons e ends ih =>
    rw [List.map_cons, List.foldl_cons]
    have hstep : step loads s (.messageDelta e.1 e.2) =
        { s with finishReason := ((truthy e.1).map finishOf).or s.finishReason, finalUsage := (combine c e.2).map streamUsage } :=
      snapshot_usage _ c e.2 h
    rw [hstep]
    refine (ih { s with
      finishReason := ((truthy e.1).map finishOf).or s.finishReason
      finalUsage := (combine c e.2).map streamUsage } (combine c e.2) rfl).trans ?_
    cases ht : truthy e.1 with
    | none => simp [ht]
    | some reason =>
      cases hl : (ends.filterMap (fun e => truthy e.1)).getLast? with
      | none | some => simp [ht, hl, List.getLast?_cons]

/-! ## a prefix of a serialisation -/

variable (loads) in
/-- A beginning of a stream, after `k` whole blocks and with a tool block open or not. -/
structure Cut (s : Serial) (q : List Event) (k : Nat) (opened : List (Int × Slot)) : Prop where
  noError : ∀ message kind, Event.error message kind ∉ q
  toolBlocks : (q.foldl (step loads) {}).toolBlocks = slots 0 (s.chunks.take k) ++ opened
  atMostOne : opened = [] ∨ ∃ slot, opened = [((k : Int), slot)]
  within : k ≤ s.chunks.length
  stops : q.countP (·.isStop) = k
  closed : Closed q ↔ opened = []

theorem snapshot_toolBlocks (s : State) (usage : Option Usage) : (s.snapshot usage).toolBlocks = s.toolBlocks := by
  cases usage <;> rfl

theorem snapshot_activeBlock (s : State) (usage : Option Usage) : (s.snapshot usage).activeBlock = s.activeBlock := by
  cases usage <;> rfl

theorem no_error_blockEvents {i : Nat} {cs : List Chunks} (message kind : Option String) :
    Event.error message kind ∉ blockEvents i cs := by
  induction cs generalizing i with
  | nil => exact List.not_mem_nil
  | cons c cs ih =>
    intro h
    obtain ho | hr := List.mem_append.1 h
    · exact no_error_opening message kind ho
    · obtain he | hr := List.mem_cons.1 hr
      · cases he
      · exact ih hr

theorem start_fold (usage : Option Usage) (q : List Event) :
    ((.messageStart usage :: q).foldl (step loads) {}) = q.foldl (step loads) (State.snapshot {} usage) := rfl

variable (loads) in
theorem cut_between {s : Serial} (hread : ∀ c ∈ s.chunks, c.Readable loads) {k : Nat} (hk : k ≤ s.chunks.length) :
    Cut loads s (.messageStart s.start :: blockEvents 0 (s.chunks.take k)) k [] := by
  have hfold := blocks_fold loads (s.chunks.take k) 0 (State.snapshot {} s.start) (snapshot_activeBlock _ _)
    (fun p hp => by rw [snapshot_toolBlocks] at hp; cases hp) (fun c hc => hread c (List.mem_of_mem_take hc))
  refine ⟨fun m kd h => ?_, ?_, .inl rfl, hk, ?_, ⟨fun _ => rfl, fun _ => ?_⟩⟩
  · obtain he | hb := List.mem_cons.1 h
    · cases he
    · exact no_error_blockEvents m kd hb
  · rw [start_fold, hfold]
    simp [snapshot_toolBlocks]
  · rw [List.countP_cons_of_neg (by simp [Event.isStop]), countP_blockEvents, List.length_take, Nat.min_eq_left hk]
  · exact closed_append (a := [Event.messageStart s.start]) (closed_of_no_start (by simp)) (closed_blockEvents 0 _)

variable (loads) in
theorem cut_inside {s : Serial} (hread : ∀ c ∈ s.chunks, c.Readable loads) {k : Nat} (hk : k < s.chunks.length) (c : Chunks) :
    Cut loads s (.messageStart s.start :: (blockEvents 0 (s.chunks.take k) ++ c.opening k)) k (c.slots k) := by
  have hbefore := cut_between loads hread (Nat.le_of_lt hk)
  have hfold := blocks_fold loads (s.chunks.take k) 0 (State.snapshot {} s.start) (snapshot_activeBlock _ _)
    (fun p hp => by rw [snapshot_toolBlocks] at hp; cases hp) (fun c hc => hread c (List.mem_of_mem_take hc))
  have hlen : (s.chunks.take k).length = k := by rw [List.length_take, Nat.min_eq_left (Nat.le_of_lt hk)]
  rw [← List.cons_append]
  refine ⟨fun m kd h => ?_, ?_, ?_, Nat.le_of_lt hk, ?_, ?_⟩
  · obtain hb | ho := List.mem_append.1 h
    · exact hbefore.noError m kd hb
    · exact no_error_opening m kd ho
  · rw [List.foldl_append, start_fold, hfold, opening_fold c k _ (snapshot_activeBlock _ _) (fun p hp => ?_)]
    · simp [snapshot_toolBlocks]
    · obtain hs | hs := List.mem_append.1 hp
      · rw [snapshot_toolBlocks] at hs
        cases hs
      · have := (slots_key hs).2
        omega
  · cases c with
    | toolUse id name fragments => exact .inr ⟨_, rfl⟩
    | _ => exact .inl rfl
  · rw [List.countP_append, hbefore.stops, countP_opening]
    rfl
  · have hother : ∀ c : Chunks, c.header = .other → Closed (.messageStart s.start :: blockEvents 0 (s.chunks.take k) ++ c.opening k) := by
      intro c hc
      refine closed_append (hbefore.closed.2 rfl) (closed_of_no_start (fun index id name h => ?_))
      have := (start_of_mem_opening h).2
      rw [hc] at this
      cases this
    cases c with
    | text | other => exact ⟨fun _ => rfl, fun _ => hother _ rfl⟩
    | toolUse id name fragments =>
      refine ⟨fun h => ?_, fun h => by cases h⟩
      have hstop := h (some k) id name (List.mem_append_right _ List.mem_cons_self)
      obtain hb | ho := List.mem_append.1 hstop
      · obtain he | hb := List.mem_cons.1 hb
        · cases he
        · obtain ⟨j, hj, hlt⟩ := stop_of_mem_blockEvents hb
          rw [hlen] at hlt
          have := Int.ofNat_inj.1 (Option.some.inj hj)
          omega
      · cases no_stop_opening ho

variable (loads) in
theorem cut_after {s : Serial} (hread : ∀ c ∈ s.chunks, c.Readable loads) (ends : List (Option String × Option Usage)) :
    Cut loads s (.messageStart s.start :: (blockEvents 0 s.chunks ++ ends.map (fun e => .messageDelta e.1 e.2)))
      s.chunks.length [] := by
  have hbefore := cut_between loads hread (Nat.le_refl _)
  rw [List.take_length] at hbefore
  rw [← List.cons_append]
  refine ⟨fun m kd h => ?_, ?_, .inl rfl, Nat.le_refl _, ?_, ⟨fun _ => rfl, fun _ => ?_⟩⟩
  · obtain hb | he := List.mem_append.1 h
    · exact hbefore.noError m kd hb
    · obtain ⟨e, -, he⟩ := List.mem_map.1 he
      cases he
  · have hends : ∀ t : State, ((ends.map (fun e => Event.messageDelta e.1 e.2)).foldl (step loads) t).toolBlocks = t.toolBlocks := by
      induction ends with
      | nil => exact fun t => rfl
      | cons e ends ih => exact fun t => (ih _).trans (snapshot_toolBlocks _ _)
    rw [List.foldl_append, hends, hbefore.toolBlocks, List.take_length]
  · rw [List.countP_append, hbefore.stops]
    have hzero : (ends.map (fun e => Event.messageDelta e.1 e.2)).countP (·.isStop) = 0 :=
      List.countP_eq_zero.2 (fun e he => by
        obtain ⟨_, -, rfl⟩ := List.mem_map.1 he
        simp [Event.isStop])
    rw [hzero]
    rfl
  · refine closed_append (hbefore.closed.2 rfl) (closed_of_no_start (fun index id name h => ?_))
    obtain ⟨e, -, he⟩ := List.mem_map.1 h
    cases he

variable (loads) in
theorem cut_of_prefix {s : Serial} (hread : ∀ c ∈ s.chunks, c.Readable loads) {q : List Event} (h : q <+: s.events) :
    ∃ k opened, Cut loads s q k opened := by
  cases q with
  | nil =>
    refine ⟨0, [], fun m kd h => (by cases h), rfl, .inl rfl, Nat.zero_le _, rfl, ⟨fun _ => rfl, fun _ => ?_⟩⟩
    exact closed_of_no_start (fun _ _ _ h => by cases h)
  | cons e q =>
    obtain ⟨rfl, hq⟩ := List.cons_prefix_cons.1 h
    obtain hb | ⟨t, rfl, ht⟩ := prefix_append_cases hq
    · obtain ⟨k, hk, rfl⟩ | ⟨k, c, n, hk, -, rfl⟩ := blocks_prefix hb
      · exact ⟨k, [], cut_between loads hread hk⟩
      · rw [Nat.zero_add]
        exact ⟨k, _, cut_inside loads hread hk (c.cut n)⟩
    · rw [List.prefix_iff_eq_take.1 ht, ← List.map_take]
      exact ⟨_, [], cut_after loads hread _⟩

/-! ## what comes out -/

theorem read_eq_foldl (events : List Event) (s : State) (h : ∀ message kind, Event.error message kind ∉ events) :
    read loads s events = (events.foldl (step loads) s, none) := by
  induction events generalizing s with
  | nil => rfl
  | cons e events ih =>
    have hrest := ih (step loads s e) (fun m k hm => h m k (List.mem_cons_of_mem _ hm))
    cases e with
    | error m k => exact absurd List.mem_cons_self (h m k)
    | _ => exact hrest

theorem read_filter (events : List Event) (s : State) :
    read loads s events = read loads s (events.filter (!·.isSkipped)) := by
  induction events generalizing s with
  | nil => rfl
  | cons e events ih =>
    cases e with
    | skipped => exact ih s
    | error m k => rfl
    | _ => exact ih _

def Delta.Plain (d : Delta) : Prop := d.toolCalls = none ∧ d.finishReason = none ∧ d.usage = none

theorem step_plain (s : State) (e : Event) (h : ∀ d ∈ s.deltas, d.Plain) : ∀ d ∈ (step loads s e).deltas, d.Plain := by
  have hsnap : ∀ (t : State) (usage : Option Usage), (t.snapshot usage).deltas = t.deltas := fun t usage => by cases usage <;> rfl
  cases e with
  | messageStart usage =>
    show ∀ d ∈ (s.snapshot usage).deltas, d.Plain
    rw [hsnap]
    exact h
  | messageDelta stopReason usage =>
    show ∀ d ∈ (State.snapshot { s with finishReason := _ } usage).deltas, d.Plain
    rw [hsnap]
    exact h
  | textDelta index text =>
    simp only [step]
    split
    · exact h
    · intro d hd
      obtain hd | hd := List.mem_append.1 hd
      · exact h d hd
      · rw [List.mem_singleton.1 hd]
        exact ⟨rfl, rfl, rfl⟩
  | inputDelta index partialJson =>
    simp only [step]
    split
    · exact h
    · exact h
  | _ => exact h

variable (loads) in
theorem fold_plain (events : List Event) (s : State) (h : ∀ d ∈ s.deltas, d.Plain) :
    ∀ d ∈ (events.foldl (step loads) s).deltas, d.Plain := by
  induction events generalizing s with
  | nil => exact h
  | cons e events ih => exact ih _ (step_plain s e h)

variable (loads) in
def Slot.value (b : Int × Slot) : Call := (b.2.id, b.2.name, loads (argsOr b.2.args))

theorem callsOf_out {s : State} (hplain : ∀ d ∈ s.deltas, d.Plain) (hsorted : s.toolBlocks.Pairwise (fun a b => a.1 ≤ b.1)) :
    callsOf loads (s.deltas ++ flush s) = s.toolBlocks.map (Slot.value loads) := by
  have hnone : callsOf loads s.deltas = [] := List.flatMap_eq_nil_iff.2 (fun d hd => by rw [(hplain d hd).1]; rfl)
  have happ : callsOf loads (s.deltas ++ flush s) = callsOf loads s.deltas ++ callsOf loads (flush s) := List.flatMap_append
  rw [happ, hnone, List.nil_append]
  unfold flush
  rw [hsorted.insertionSort_eq]
  cases hb : s.toolBlocks with
  | nil => rfl
  | cons b rest => simp [callsOf, ToolCall.value, Slot.value]

theorem finishReasonOf_out {s : State} (hplain : ∀ d ∈ s.deltas, d.Plain) :
    finishReasonOf (s.deltas ++ flush s) = some (if s.toolBlocks.isEmpty then s.finishReason.getD .stop else .toolCalls) := by
  unfold finishReasonOf
  rw [List.filterMap_append, List.filterMap_eq_nil_iff.2 (fun d hd => (hplain d hd).2.1)]
  unfold flush
  split <;> rfl

theorem usageOf_out {s : State} (hplain : ∀ d ∈ s.deltas, d.Plain) : usageOf (s.deltas ++ flush s) = s.finalUsage.getD {} := by
  unfold usageOf
  rw [List.filterMap_append, List.filterMap_eq_nil_iff.2 (fun d hd => (hplain d hd).2.2)]
  unfold flush
  split <;> cases s.finalUsage <;> rfl

theorem textOf_out (s : State) : textOf (s.deltas ++ flush s) = textOf s.deltas := by
  have hflush : textOf (flush s) = [] := by
    unfold flush
    split <;> rfl
  unfold textOf at hflush ⊢
  rw [List.map_append, List.flatten_append, hflush, List.append_nil]

/-! ## the blocks and the message -/

theorem said_text {content : List Block} {cs : List Chunks} (h : List.Forall₂ (Spells loads) content cs) (dumps : Json → Text) :
    textOf (cs.flatMap (·.said)) = (blocksToResult dumps content).1 := by
  induction h with
  | nil => rfl
  | @cons block c content cs hb _ ih =>
    have happ : textOf ((c :: cs).flatMap (·.said)) = textOf c.said ++ textOf (cs.flatMap (·.said)) := by
      simp [textOf]
    rw [happ, ih]
    cases block with
    | text text =>
      cases c with
      | text parts =>
        have hparts : textOf (Chunks.text parts).said = parts.flatten := by
          unfold textOf Chunks.said
          rw [List.map_map]
          exact (congrArg List.flatten (List.map_id _)).trans List.flatten_filter_ne_nil
        rw [hparts, hb]
        rfl
      | _ => exact hb.elim
    | toolUse id name input =>
      cases c with
      | toolUse id' name' fragments => rfl
      | _ => exact hb.elim
    | other =>
      cases c with
      | other n => rfl
      | _ => exact hb.elim

theorem slots_value {content : List Block} {cs : List Chunks} (h : List.Forall₂ (Spells loads) content cs) (i : Nat) :
    (slots i cs).map (Slot.value loads) = uses content := by
  induction h generalizing i with
  | nil => rfl
  | @cons block c content cs hb _ ih =>
    rw [slots, List.map_append, ih]
    cases block with
    | text text =>
      cases c with
      | text parts => rfl
      | _ => exact hb.elim
    | toolUse id name input =>
      cases c with
      | toolUse id' name' fragments =>
        obtain ⟨rfl, rfl, hload⟩ := hb
        simp [uses, Chunks.slots, Slot.value, hload]
      | _ => exact hb.elim
    | other =>
      cases c with
      | other n => rfl
      | _ => exact hb.elim

def Block.defaulted : Block → Block
  | .toolUse id name input => .toolUse id name (inputOr input)
  | block => block

theorem blocksToResult_calls (dumps : Json → Text) {content : List Block}
    (hjson : ∀ id name input, .toolUse id name input ∈ content → loads (dumps (inputOr input)) = some (inputOr input)) :
    (blocksToResult dumps content).2.map (·.value loads) = uses (content.map (·.defaulted)) := by
  induction content with
  | nil => rfl
  | cons block content ih =>
    have hrest := ih (fun id name input h => hjson id name input (List.mem_cons_of_mem _ h))
    cases block with
    | toolUse id name input =>
      rw [blocksToResult, List.map_cons, hrest]
      simp only [ToolCall.value, hjson id name input List.mem_cons_self]
      rfl
    | _ => exact hrest

theorem uses_inputOr (content : List Block) :
    uses content = uses (content.map (·.defaulted)) ↔ ∀ id name input, .toolUse id name input ∈ content → inputOr input = input := by
  induction content with
  | nil => exact ⟨fun _ _ _ _ h => (by cases h), fun _ => rfl⟩
  | cons block content ih =>
    cases block with
    | toolUse id name input =>
      simp only [uses, List.map_cons, List.filterMap_cons, Block.defaulted, List.cons.injEq, Prod.mk.injEq, true_and, Option.some.injEq]
      refine ⟨fun ⟨hhead, htail⟩ i n v hmem => ?_, fun h => ⟨(h _ _ _ List.mem_cons_self).symm, ?_⟩⟩
      · obtain he | hr := List.mem_cons.1 hmem
        · cases he
          exact hhead.symm
        · exact ih.1 htail i n v hr
      · exact ih.2 (fun i n v hmem => h i n v (List.mem_cons_of_mem _ hmem))
    | text | other =>
      refine ih.trans ⟨fun h i n v hmem => ?_, fun h i n v hmem => h i n v (List.mem_cons_of_mem _ hmem)⟩
      obtain he | hr := List.mem_cons.1 hmem
      · cases he
      · exact h i n v hr

/-! ## the stream and the plain call -/

theorem streamUsage_eq_iff (usage : Option Usage) :
    (usage.map streamUsage).getD {} = mapUsage usage ↔ ∀ u, usage = some u → u.inputTokens.isSome ∧ u.outputTokens.isSome := by
  cases usage with
  | none => exact ⟨fun _ _ h => (by cases h), fun _ => rfl⟩
  | some u =>
    obtain ⟨input, output, cacheRead, cacheCreation⟩ := u
    cases input <;> cases output <;> simp [streamUsage, mapUsage]

theorem uses_eq_nil_iff (content : List Block) : uses content = [] ↔ ∀ id name input, .toolUse id name input ∉ content := by
  unfold uses
  rw [List.filterMap_eq_nil_iff]
  refine ⟨fun h id name input hmem => (by cases h _ hmem), fun h block hmem => ?_⟩
  cases block with
  | toolUse id name input => exact absurd hmem (h id name input)
  | _ => rfl

theorem finishOf_truthy (reason : Option String) : ((truthy reason).map finishOf).getD .stop = finishOf (reason.getD "") := by
  cases reason with
  | none => rfl
  | some r =>
    by_cases hr : r = ""
    · rw [hr]
      rfl
    · simp [truthy, Option.filter, hr]

theorem all_readable {content : List Block} {cs : List Chunks} (h : List.Forall₂ (Spells loads) content cs) :
    ∀ c ∈ cs, c.Readable loads := by
  induction h with
  | nil => exact fun _ h => (by cases h)
  | cons hb _ ih =>
    intro c hc
    obtain rfl | hc := List.mem_cons.1 hc
    · exact readable_of_spells hb
    · exact ih c hc

theorem serial_fold {s : Serial} (hread : ∀ c ∈ s.chunks, c.Readable loads) :
    s.events.foldl (step loads) {} =
      { toolBlocks := slots 0 s.chunks
        finishReason := (s.ends.filterMap (fun e => truthy e.1)).getLast?.map finishOf
        finalUsage := ((s.ends.map (·.2)).foldl combine s.start).map streamUsage
        deltas := s.chunks.flatMap (·.said) } := by
  unfold Serial.events
  have hstart : State.snapshot {} s.start = { finalUsage := s.start.map streamUsage } :=
    (snapshot_usage {} none s.start rfl).trans (by cases s.start <;> rfl)
  rw [start_fold, hstart, List.foldl_append, blocks_fold loads s.chunks 0 _ rfl (fun p hp => by cases hp) hread,
    ends_fold s.ends _ s.start rfl]
  simp

theorem agrees_iff {dumps : Json → Text} {m : Message} {s : Serial} {events : List Event} {result : ChatResult}
    (hjson : ∀ id name input, .toolUse id name input ∈ m.content → loads (dumps (inputOr input)) = some (inputOr input))
    (hs : Serialises loads m s events) (hchat : chat dumps (.message m) = .ok result) :
    Agrees loads result (iterSse loads events) ↔ AgreeOk m := by
  have hread := all_readable hs.content
  have hcut := cut_of_prefix loads hread (List.prefix_refl s.events)
  obtain ⟨k, opened, hcut⟩ := hcut
  have hfold := serial_fold hread
  generalize ht : s.events.foldl (step loads) {} = t at hfold
  have hout : iterSse loads events = (t.deltas ++ flush t, none) := by
    unfold iterSse
    rw [read_filter, hs.events, read_eq_foldl _ _ hcut.noError, ht]
  have hplain : ∀ d ∈ t.deltas, d.Plain := by
    rw [← ht]
    exact fold_plain loads _ _ (fun d hd => by cases hd)
  have hsorted : t.toolBlocks.Pairwise (fun a b => a.1 ≤ b.1) := by
    rw [hfold]
    exact slots_sorted 0 _
  have hcalls : callsOf loads (t.deltas ++ flush t) = uses m.content := by
    rw [callsOf_out hplain hsorted, hfold]
    exact slots_value hs.content 0
  have htext : textOf (t.deltas ++ flush t) = (blocksToResult dumps m.content).1 := by
    rw [textOf_out, hfold]
    exact said_text hs.content dumps
  have hnil : t.toolBlocks.isEmpty = true ↔ ∀ id name input, .toolUse id name input ∉ m.content := by
    rw [← uses_eq_nil_iff, ← slots_value hs.content 0, hfold, List.isEmpty_iff, List.map_eq_nil_iff]
  have hfinish : finishReasonOf (t.deltas ++ flush t) =
      some (if t.toolBlocks.isEmpty then finishOf (m.stopReason.getD "") else .toolCalls) := by
    rw [finishReasonOf_out hplain, ← finishOf_truthy, ← hs.stopReason, hfold]
  have husage : usageOf (t.deltas ++ flush t) = (m.usage.map streamUsage).getD {} := by
    rw [usageOf_out hplain, hfold, ← hs.usage]
  cases hchat
  have hplaincalls : ((if (blocksToResult dumps m.content).2.isEmpty then none else some (blocksToResult dumps m.content).2).getD
      []).map (·.value loads) = uses (m.content.map (·.defaulted)) := by
    rw [← blocksToResult_calls dumps hjson]
    cases (blocksToResult dumps m.content).2 <;> rfl
  rw [hout]
  refine ⟨fun h => ⟨?_, fun id name input hmem => ?_, ?_⟩, fun h => ⟨rfl, htext, ?_, ?_, ?_⟩⟩
  · exact (streamUsage_eq_iff m.usage).1 (husage.symm.trans h.usage)
  · have hne : ¬ t.toolBlocks.isEmpty = true := fun he => hnil.1 he id name input hmem
    have := hfinish.symm.trans h.finish
    rw [if_neg hne] at this
    exact (Option.some.inj this).symm
  · exact (uses_inputOr m.content).1 (hcalls.symm.trans (h.calls.trans hplaincalls))
  · exact hcalls.trans (((uses_inputOr m.content).2 h.inputs).trans hplaincalls.symm)
  · rw [hfinish]
    refine congrArg some ?_
    split
    · rfl
    · next hne =>
      obtain ⟨id, name, input, hmem⟩ : ∃ id name input, Block.toolUse id name input ∈ m.content :=
        Classical.byContradiction (fun hno => hne (hnil.2 (fun id name input hmem => hno ⟨id, name, input, hmem⟩)))
      exact (h.finish id name input hmem).symm
  · exact husage.trans ((streamUsage_eq_iff m.usage).2 h.usage)

/-- **A stream that is cut short yields complete calls only, exactly when it is not cut inside a tool block.** -/
theorem completeOnly_iff {m : Message} {s : Serial} {events p : List Event} (hs : Serialises loads m s events) (hp : p <+: events) :
    CompleteOnly loads m p ↔ Closed p := by
  have hq : p.filter (!·.isSkipped) <+: s.events := by
    rw [← hs.events]
    exact hp.filter _
  obtain ⟨k, opened, hcut⟩ := cut_of_prefix loads (all_readable hs.content) hq
  have hstops : p.countP (·.isStop) = k := by
    rw [← hcut.stops, List.countP_filter]
    refine List.countP_congr (fun e _ => ?_)
    cases e <;> rfl
  have hclosed : Closed p ↔ opened = [] := by
    rw [← hcut.closed]
    refine ⟨fun h index id name hmem => ?_, fun h index id name hmem => ?_⟩
    · exact List.mem_filter.2 ⟨h index id name (List.mem_filter.1 hmem).1, rfl⟩
    · exact (List.mem_filter.1 (h index id name (List.mem_filter.2 ⟨hmem, rfl⟩))).1
  have hkeys : ∀ b ∈ slots 0 (s.chunks.take k), b.1 < (k : Int) := by
    intro b hb
    have := (slots_key hb).2
    rw [List.length_take, Nat.min_eq_left hcut.within] at this
    omega
  have hcalls : callsOf loads (iterSse loads p).1 = uses (m.content.take k) ++ opened.map (Slot.value loads) := by
    have hplain := fold_plain loads (p.filter (!·.isSkipped)) {} (fun d hd => by cases hd)
    have hout : iterSse loads p = (((p.filter (!·.isSkipped)).foldl (step loads) {}).deltas ++
        flush ((p.filter (!·.isSkipped)).foldl (step loads) {}), none) := by
      unfold iterSse
      rw [read_filter, read_eq_foldl _ _ hcut.noError]
    rw [hout, callsOf_out hplain, hcut.toolBlocks, List.map_append, slots_value (List.forall₂_take k hs.content) 0]
    rw [hcut.toolBlocks]
    refine List.pairwise_append.2 ⟨slots_sorted 0 _, ?_, fun a ha b hb => ?_⟩
    · obtain rfl | ⟨slot, rfl⟩ := hcut.atMostOne
      · exact .nil
      · exact List.pairwise_singleton _ _
    · obtain rfl | ⟨slot, rfl⟩ := hcut.atMostOne
      · cases hb
      · rw [List.mem_singleton.1 hb]
        exact Int.le_of_lt (hkeys a ha)
  unfold CompleteOnly
  rw [hstops, hcalls, hclosed]
  refine ⟨fun h => ?_, fun h => ?_⟩
  · have := h.length_le
    rw [List.length_append, List.length_map] at this
    exact List.eq_nil_of_length_eq_zero (by omega)
  · rw [h, List.map_nil, List.append_nil]

/-- **The stream and the plain call.** -/
theorem stream_agrees (loads : Text → Option Json) (dumps : Json → Text) (m : Message) (s : Serial) (events : List Event)
    (hjson : ∀ id name input, .toolUse id name input ∈ m.content → loads (dumps (inputOr input)) = some (inputOr input))
    (hs : Serialises loads m s events) :
    (∃ result, chat dumps (.message m) = .ok result ∧ (Agrees loads result (iterSse loads events) ↔ AgreeOk m)) ∧
      ∀ p, p <+: events → (CompleteOnly loads m p ↔ Closed p) :=
  ⟨⟨_, rfl, agrees_iff hjson hs rfl⟩, fun _ hp => completeOnly_iff hs hp⟩

/-! A message that calls one tool, as `json` reads and writes its input. -/

def inputText : Text := "\x7b\"q\": \"x\"\x7d".toList

def loadsInput (text : Text) : Option Json := if text = inputText then some (.obj [("q", .str "x")]) else none

def dumpsInput (_ : Json) : Text := inputText

def searchMessage (stopReason : String) : Message :=
  ⟨[.text (some "Hi".toList), .toolUse (some "t1") (some "search") (.obj [("q", .str "x")])], some stopReason,
    some { inputTokens := some 3, outputTokens := some 2 }⟩

def searchSerial (stopReason : String) : Serial :=
  ⟨some { inputTokens := some 3 }, [.text ["H".toList, "i".toList], .toolUse (some "t1") (some "search") [inputText.take 5, inputText.drop 5]],
    [(some stopReason, some { outputTokens := some 2 })]⟩

theorem searchSerial_serialises (stopReason : String) :
    Serialises loadsInput (searchMessage stopReason) (searchSerial stopReason) (.skipped :: (searchSerial stopReason).events) := by
  refine ⟨rfl, .cons rfl (.cons ⟨rfl, rfl, rfl⟩ .nil), ?_, rfl⟩
  simp [searchSerial, searchMessage, truthy]

theorem mem_searchMessage {stopReason : String} {id name : Option String} {input : Json}
    (h : Block.toolUse id name input ∈ (searchMessage stopReason).content) : input = .obj [("q", .str "x")] := by
  obtain h | h := List.mem_cons.1 h
  · cases h
  · cases List.mem_singleton.1 h
    rfl

theorem stream_agrees_search : (∃ result, chat dumpsInput (.message (searchMessage "tool_use")) = .ok result ∧
    Agrees loadsInput result (iterSse loadsInput (.skipped :: (searchSerial "tool_use").events))) ∧
      CompleteOnly loadsInput (searchMessage "tool_use") ((.skipped :: (searchSerial "tool_use").events).take 6) := by
  have hjson : ∀ id name input, .toolUse id name input ∈ (searchMessage "tool_use").content →
      loadsInput (dumpsInput (inputOr input)) = some (inputOr input) := by
    intro id name input hmem
    rw [mem_searchMessage hmem]
    rfl
  obtain ⟨⟨result, hchat, hiff⟩, hcut⟩ := stream_agrees loadsInput dumpsInput (searchMessage "tool_use") (searchSerial "tool_use")
    (.skipped :: (searchSerial "tool_use").events) hjson (searchSerial_serialises _)
  refine ⟨⟨result, hchat, hiff.2 ⟨fun u hu => ?_, fun _ _ _ _ => rfl, fun id name input hmem => ?_⟩⟩, ?_⟩
  · cases hu
    exact ⟨rfl, rfl⟩
  · rw [mem_searchMessage hmem]
    rfl
  · refine (hcut _ (List.take_prefix _ _)).2 (closed_of_no_start ?_)
    intro index id name hmem
    simp [searchSerial, Serial.events, blockEvents, Chunks.opening, Chunks.deltas, Chunks.header] at hmem

/-- **The finish reason of a call that ran into the token limit, and a call whose input has only begun.** -/
theorem limit_and_cut :
    (¬ ∀ loads dumps m s events result, (∀ id name input, .toolUse id name input ∈ m.content →
      loads (dumps (inputOr input)) = some (inputOr input)) → Serialises loads m s events →
        chat dumps (.message m) = .ok result → Agrees loads result (iterSse loads events)) ∧
      ¬ ∀ loads m s events p, Serialises loads m s events → p <+: events → CompleteOnly loads m p := by
  refine ⟨fun h => ?_, fun h => ?_⟩
  · have hfinish := (h loadsInput dumpsInput (searchMessage "max_tokens") (searchSerial "max_tokens") _ _
      (fun id name input hmem => by rw [mem_searchMessage hmem]; rfl) (searchSerial_serialises _) rfl).finish
    exact absurd hfinish (by decide)
  · have hcut := h loadsInput (searchMessage "tool_use") (searchSerial "tool_use") _
      ((.skipped :: (searchSerial "tool_use").events).take 8) (searchSerial_serialises _) (List.take_prefix _ _)
    exact absurd hcut.length_le (by decide)

end Anthropic
end MyGpt
