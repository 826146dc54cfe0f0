import MyGpt.Characters
import MyGpt.Lib.Assembly
import MyGpt.Lib.Transducer
import Mathlib.Data.List.Induction
import Mathlib.Data.List.Sort
/-!
# OpenAiStream — a model turn out of chat/completions chunks

`_iter_sse` of the OpenAI-compatible provider and what the native runtime does with its deltas.  Text, usage and, in a body
that just ends, the finish reason come through as they are.  The fragments of a call do when no flush comes between them and
one comes behind them; and a flush at `[DONE]` is itself a finish reason (`turn_assembled_iff`).
-/
namespace MyGpt
namespace OpenAi

open Chat (Text strip)

/-! ## the upstream -/

structure Fragment where
  index : Option Int := none
  id : Option Text := none
  name : Option Text := none
  arguments : Option Text := none

structure Choice where
  content : Option Text := none
  finishReason : Option String := none
  toolCalls : List Fragment := []

structure Chunk (U : Type) where
  usage : Option U := none
  choices : List Choice := []

inductive Line (U : Type)
  | skipped
  | done
  | chunk (c : Chunk U)

/-- A call that is put together, `tool_accum[idx]`. -/
structure Slot where
  id : Text := []
  name : Text := []
  arguments : Text := []
  deriving DecidableEq

/-- `ToolCallDef`; the index is that of its slot, which the source does not hand on. -/
structure ToolCall where
  index : Int
  id : Text
  name : Text
  arguments : Text
  deriving DecidableEq

structure Delta (U : Type) where
  content : Text := []
  toolCalls : Option (List ToolCall) := none
  finishReason : Option String := none
  usage : Option U := none

def truthy (finish : Option String) : Option String := finish.filter (· ≠ "")

def Fragment.at (tc : Fragment) : Int := tc.index.getD 0

def Slot.extended (slot : Slot) (tc : Fragment) : Slot where
  id := (tc.id.filter (· ≠ [])).getD slot.id
  name := slot.name ++ tc.name.getD []
  arguments := slot.arguments ++ tc.arguments.getD []

def toolCall (index : Int) (slot : Slot) : ToolCall := ⟨index, slot.id, slot.name, slot.arguments⟩

section
variable {U : Type}

/-- A line of the body; `loads` is `json.loads` on the chunks of a stream. -/
def readLine (loads : Text → Option (Chunk U)) (raw : Text) : Line U :=
  if raw = [] then .skipped
  else if !"data:".toList.isPrefixOf (strip raw) then .skipped
  else if strip ((strip raw).drop 5) = "[DONE]".toList then .done
  else
    match loads (strip ((strip raw).drop 5)) with
    | some c => .chunk c
    | none => .skipped

/-! ## the reader -/

structure Reader (U : Type) where
  toolAccum : List (Int × Slot) := []
  seenRealFinish : Option String := none
  finalUsage : Option U := none

def extend (accum : List (Int × Slot)) (tc : Fragment) : List (Int × Slot) :=
  Assembly.update tc.at (fun slot => slot.extended tc) {} accum

/-- `_flush_tool_accum`, in the order of the indices. -/
def flushToolAccum (accum : List (Int × Slot)) : Delta U where
  toolCalls := some ((accum.insertionSort (fun a b => a.1 ≤ b.1)).map (fun p => toolCall p.1 p.2))
  finishReason := some "tool_calls"

/-- `if tool_accum: yield self._flush_tool_accum(tool_accum)` -/
def flush (accum : List (Int × Slot)) : List (Delta U) := if accum.isEmpty then [] else [flushToolAccum accum]

def step (r : Reader U) (c : Chunk U) : Reader U × List (Delta U) :=
  let r := { r with finalUsage := c.usage.or r.finalUsage }
  match c.choices with
  | [] => (r, [])
  | choice :: _ =>
    let r := { r with toolAccum := choice.toolCalls.foldl extend r.toolAccum }
    match choice.content.getD [], truthy choice.finishReason with
    | [], none => (r, [])
    | [], some finish =>
      ({ r with toolAccum := [], seenRealFinish := some finish }, flush r.toolAccum ++ [{ finishReason := some finish }])
    -- text goes out at once, and its finish reason with it
    | content, finish =>
      ({ r with seenRealFinish := finish.or r.seenRealFinish },
        [{ content := content, finishReason := choice.finishReason }])

def Reader.usage (r : Reader U) : List (Delta U) := r.finalUsage.toList.map (fun u => { usage := some u })

def Reader.done (r : Reader U) : List (Delta U) :=
  flush r.toolAccum ++
    (if r.toolAccum.isEmpty && r.seenRealFinish.isNone then [{ finishReason := some "stop" }] else []) ++ r.usage

def read (r : Reader U) : List (Line U) → List (Delta U)
  | [] => r.usage
  | .skipped :: lines => read r lines
  | .done :: _ => r.done
  | .chunk c :: lines => (step r c).2 ++ read (step r c).1 lines

def iterSse (loads : Text → Option (Chunk U)) (raws : List Text) : List (Delta U) := read {} (raws.map (readLine loads))

structure Turn (U : Type) where
  content : Text := []
  pendingToolCalls : List ToolCall := []
  finishReason : Option String := none
  roundUsage : Option U := none

def Turn.take (t : Turn U) (delta : Delta U) : Turn U where
  content := t.content ++ delta.content
  pendingToolCalls := t.pendingToolCalls ++ delta.toolCalls.getD []
  finishReason := (truthy delta.finishReason).or t.finishReason
  roundUsage := delta.usage.or t.roundUsage

def turnOf (deltas : List (Delta U)) : Turn U := deltas.foldl Turn.take {}

/-! ## what the upstream has sent -/

def body : List (Line U) → List (Chunk U)
  | [] => []
  | .skipped :: lines => body lines
  | .done :: _ => []
  | .chunk c :: lines => c :: body lines

def ended : List (Line U) → Bool
  | [] => false
  | .done :: _ => true
  | _ :: lines => ended lines

namespace Chunk

variable (c : Chunk U)

def content : Text := (c.choices.head?.bind (·.content)).getD []
def finish : Option String := truthy (c.choices.head?.bind (·.finishReason))
def fragments : List Fragment := (c.choices.head?.map (·.toolCalls)).getD []

def flushes : Bool := c.content.isEmpty && c.finish.isSome

end Chunk

def cut (pending : List Fragment) : List (Chunk U) → List (List Fragment) × List Fragment
  | [] => ([], pending)
  | c :: chunks =>
    if c.flushes then ((pending ++ c.fragments) :: (cut [] chunks).1, (cut [] chunks).2)
    else cut (pending ++ c.fragments) chunks

def assembled (fragments : List Fragment) : Slot := fragments.foldl Slot.extended {}

def slots (fragments : List Fragment) (index : Int) : List Slot := Assembly.piece Fragment.at assembled fragments index

def lastFinish (chunks : List (Chunk U)) : Option String := (chunks.filterMap Chunk.finish).getLast?
def lastUsage (chunks : List (Chunk U)) : Option U := (chunks.filterMap Chunk.usage).getLast?

/-- **What a turn owes the stream.** -/
structure TurnAssembled (t : Turn U) (chunks : List (Chunk U)) : Prop where
  content : t.content = chunks.flatMap Chunk.content
  calls : ∀ index, t.pendingToolCalls.filter (fun call => call.index = index) =
    (slots (chunks.flatMap Chunk.fragments) index).map (toolCall index)
  finish : ∀ finish, lastFinish chunks = some finish → t.finishReason = some finish
  usage : t.roundUsage = lastUsage chunks

/-- **When it pays**: no call has fragments on both sides of a flush.  Behind the last flush there are none, or `[DONE]`
flushes them and the upstream finishes with tool calls or without a reason, or the body just ends and they add nothing to
the calls already out. -/
structure Assembles (lines : List (Line U)) : Prop where
  apart : ((cut [] (body lines)).1 ++ if ended lines then [(cut [] (body lines)).2] else []).Pairwise (Assembly.Apart Fragment.at)
  finish : ended lines = true → (cut [] (body lines)).2 ≠ [] → ∀ finish, lastFinish (body lines) = some finish → finish = "tool_calls"
  rest : ended lines = false → ∀ tc ∈ (cut [] (body lines)).2,
    Assembly.own Fragment.at (cut [] (body lines)).1.flatten tc.at ≠ [] ∧
      assembled (Assembly.own Fragment.at ((cut [] (body lines)).1.flatten ++ (cut [] (body lines)).2) tc.at) =
        assembled (Assembly.own Fragment.at (cut [] (body lines)).1.flatten tc.at)

/-! ## the deltas of a turn -/

open Assembly (Gathers)

def contentOf (deltas : List (Delta U)) : Text := deltas.flatMap (·.content)
def callsOf (deltas : List (Delta U)) : List ToolCall := deltas.flatMap (·.toolCalls.getD [])
def finishOf (deltas : List (Delta U)) : Option String := (deltas.filterMap (fun d => truthy d.finishReason)).getLast?
def usageOf (deltas : List (Delta U)) : Option U := (deltas.filterMap (·.usage)).getLast?

theorem getLast?_filterMap_concat {α β : Type} (f : α → Option β) (l : List α) (a : α) :
    ((l ++ [a]).filterMap f).getLast? = (f a).or (l.filterMap f).getLast? := by
  rw [List.filterMap_append, List.getLast?_append]
  cases hf : f a with
  | none => rw [List.filterMap_cons_none hf]; rfl
  | some b => rw [List.filterMap_cons_some hf]; rfl

theorem turnOf_eq (deltas : List (Delta U)) :
    turnOf deltas = ⟨contentOf deltas, callsOf deltas, finishOf deltas, usageOf deltas⟩ := by
  induction deltas using List.reverseRecOn with
  | nil => rfl
  | append_singleton deltas d ih =>
    have hfold : turnOf (deltas ++ [d]) = (turnOf deltas).take d := List.foldl_concat ..
    rw [hfold, ih]
    unfold Turn.take contentOf callsOf finishOf usageOf
    rw [getLast?_filterMap_concat, getLast?_filterMap_concat, List.flatMap_append, List.flatMap_append]
    simp

theorem finishOf_append (ds es : List (Delta U)) : finishOf (ds ++ es) = (finishOf es).or (finishOf ds) := by
  unfold finishOf
  rw [List.filterMap_append, List.getLast?_append]

theorem finishOf_singleton (d : Delta U) : finishOf [d] = truthy d.finishReason :=
  (getLast?_filterMap_concat (fun d : Delta U => truthy d.finishReason) [] d).trans (Option.or_none ..)

theorem usageOf_append (ds es : List (Delta U)) : usageOf (ds ++ es) = (usageOf es).or (usageOf ds) := by
  unfold usageOf
  rw [List.filterMap_append, List.getLast?_append]

theorem contentOf_append (ds es : List (Delta U)) : contentOf (ds ++ es) = contentOf ds ++ contentOf es :=
  List.flatMap_append

theorem callsOf_append (ds es : List (Delta U)) : callsOf (ds ++ es) = callsOf ds ++ callsOf es := List.flatMap_append

theorem lastFinish_append (cs ds : List (Chunk U)) : lastFinish (cs ++ ds) = (lastFinish ds).or (lastFinish cs) := by
  unfold lastFinish
  rw [List.filterMap_append, List.getLast?_append]

theorem lastUsage_append (cs ds : List (Chunk U)) : lastUsage (cs ++ ds) = (lastUsage ds).or (lastUsage cs) := by
  unfold lastUsage
  rw [List.filterMap_append, List.getLast?_append]

theorem lastFinish_singleton (c : Chunk U) : lastFinish [c] = c.finish := by
  unfold lastFinish
  cases h : c.finish with
  | none => rw [List.filterMap_cons_none h]; rfl
  | some f => rw [List.filterMap_cons_some h]; rfl

theorem lastUsage_singleton (c : Chunk U) : lastUsage [c] = c.usage := by
  unfold lastUsage
  cases h : c.usage with
  | none => rw [List.filterMap_cons_none h]; rfl
  | some u => rw [List.filterMap_cons_some h]; rfl

/-! ## a flush -/

theorem gathers_extend {accum : List (Int × Slot)} {pending : List Fragment} (h : Gathers Fragment.at assembled accum pending)
    (fragments : List Fragment) : Gathers Fragment.at assembled (fragments.foldl extend accum) (pending ++ fragments) := by
  induction fragments generalizing accum pending with
  | nil => rwa [List.append_nil]
  | cons tc fragments ih =>
    rw [List.append_cons]
    exact ih (Gathers.update h tc)

theorem callsOf_flush {accum : List (Int × Slot)} {piece : List Fragment} (h : Gathers Fragment.at assembled accum piece)
    (index : Int) : (callsOf (flush accum : List (Delta U))).filter (fun call => call.index = index) =
      (slots piece index).map (toolCall index) := by
  unfold flush
  cases hempty : accum with
  | nil =>
    have hnil : piece = [] := h.eq_nil_iff.1 hempty
    subst hnil
    rfl
  | cons p rest =>
    rw [← hempty]
    have hsorted := h.perm (List.perm_insertionSort (fun a b : Int × Slot => a.1 ≤ b.1) accum)
    have hnot : accum.isEmpty = false := by rw [hempty]; rfl
    simp only [hnot, Bool.false_eq_true, if_false]
    show (((accum.insertionSort _).map (fun p : Int × Slot => toolCall p.1 p.2)) ++ []).filter _ = _
    unfold slots
    rw [List.append_nil, List.filter_map, ← hsorted index, List.map_map]
    refine List.map_congr_left (fun q hq => ?_)
    have hindex : q.1 = index := of_decide_eq_true (List.mem_filter.1 hq).2
    show toolCall q.1 q.2 = toolCall index q.2
    rw [hindex]

theorem finishOf_flush (accum : List (Int × Slot)) :
    finishOf (flush accum : List (Delta U)) = if accum.isEmpty then none else some "tool_calls" := by
  unfold flush
  split <;> rfl

theorem usageOf_flush (accum : List (Int × Slot)) : usageOf (flush accum : List (Delta U)) = none := by
  unfold flush
  split <;> rfl

theorem contentOf_flush (accum : List (Int × Slot)) : contentOf (flush accum : List (Delta U)) = [] := by
  unfold flush
  split <;> rfl

/-! ## the chunks -/

/-- What chunks make of a reader whose fragments are `pending`: the reader, the deltas and the cut of the fragments. -/
structure Says (r : Reader U) (chunks : List (Chunk U)) (r' : Reader U) (out : List (Delta U))
    (pieces : List (List Fragment)) (rest : List Fragment) : Prop where
  accum : Gathers Fragment.at assembled r'.toolAccum rest
  seen : r'.seenRealFinish = (lastFinish chunks).or r.seenRealFinish
  final : r'.finalUsage = (lastUsage chunks).or r.finalUsage
  content : contentOf out = chunks.flatMap Chunk.content
  calls : ∀ index, (callsOf out).filter (fun call => call.index = index) =
    (pieces.flatMap (fun piece => slots piece index)).map (toolCall index)
  finish : finishOf out = lastFinish chunks
  usage : usageOf out = none

theorem Says.append {r r' r'' : Reader U} {cs cs' : List (Chunk U)} {out out' : List (Delta U)}
    {pieces pieces' : List (List Fragment)} {rest rest' : List Fragment} (h : Says r cs r' out pieces rest)
    (h' : Says r' cs' r'' out' pieces' rest') : Says r (cs ++ cs') r'' (out ++ out') (pieces ++ pieces') rest' where
  accum := h'.accum
  seen := by rw [h'.seen, h.seen, lastFinish_append, Option.or_assoc]
  final := by rw [h'.final, h.final, lastUsage_append, Option.or_assoc]
  content := by rw [contentOf_append, h.content, h'.content, List.flatMap_append]
  calls := by
    intro index
    rw [callsOf_append, List.filter_append, h.calls, h'.calls, List.flatMap_append, List.map_append]
  finish := by rw [finishOf_append, h.finish, h'.finish, lastFinish_append]
  usage := by rw [usageOf_append, h.usage, h'.usage]; rfl

def Reader.fed (r : Reader U) (c : Chunk U) : Reader U :=
  { r with finalUsage := c.usage.or r.finalUsage, toolAccum := c.fragments.foldl extend r.toolAccum }

theorem step_cases (r : Reader U) (c : Chunk U) :
    (c.content = [] ∧ c.finish = none ∧ step r c = (r.fed c, [])) ∨
    (c.content = [] ∧ ∃ finish, c.finish = some finish ∧ step r c =
      ({ r.fed c with toolAccum := [], seenRealFinish := some finish },
        flush (r.fed c).toolAccum ++ [{ finishReason := some finish }])) ∨
    (c.content ≠ [] ∧ ∃ raw, truthy raw = c.finish ∧ step r c =
      ({ r.fed c with seenRealFinish := c.finish.or r.seenRealFinish }, [{ content := c.content, finishReason := raw }])) := by
  obtain ⟨usage, choices⟩ := c
  cases choices with
  | nil => exact .inl ⟨rfl, rfl, rfl⟩
  | cons choice choices =>
    obtain ⟨content, finish, fragments⟩ := choice
    unfold step Chunk.content Chunk.finish
    simp only [List.head?_cons, Option.bind_some]
    cases htext : content.getD [] with
    | nil =>
      cases hfinish : truthy finish with
      | none => exact .inl ⟨rfl, rfl, rfl⟩
      | some f => exact .inr (.inl ⟨rfl, f, rfl, rfl⟩)
    | cons a text => exact .inr (.inr ⟨nofun, finish, rfl, rfl⟩)

theorem truthy_finish {c : Chunk U} {finish : String} (h : c.finish = some finish) : truthy (some finish) = some finish := by
  have hne := (Option.filter_eq_some_iff.1 h).2
  unfold truthy
  rw [Option.filter_some, if_pos hne]

theorem step_says {r : Reader U} {pending : List Fragment} (h : Gathers Fragment.at assembled r.toolAccum pending) (c : Chunk U) :
    Says r [c] (step r c).1 (step r c).2 (if c.flushes then [pending ++ c.fragments] else [])
      (if c.flushes then [] else pending ++ c.fragments) := by
  have hfed : Gathers Fragment.at assembled (r.fed c).toolAccum (pending ++ c.fragments) := gathers_extend h c.fragments
  have hcontent : [c].flatMap Chunk.content = c.content := List.append_nil _
  rcases step_cases r c with ⟨htext, hfinish, hstep⟩ | ⟨htext, finish, hfinish, hstep⟩ | ⟨htext, raw, hraw, hstep⟩
  · have hkeep : c.flushes = false := by
      unfold Chunk.flushes
      rw [hfinish]
      exact Bool.and_false _
    rw [hkeep, hstep]
    exact ⟨hfed, by rw [lastFinish_singleton, hfinish]; rfl, by rw [lastUsage_singleton]; rfl,
      by rw [hcontent, htext]; rfl, fun _ => rfl, by rw [lastFinish_singleton, hfinish]; rfl, rfl⟩
  · have hflush : c.flushes = true := by
      unfold Chunk.flushes
      rw [htext, hfinish]
      rfl
    rw [hflush, hstep]
    refine ⟨Assembly.gathers_nil, by rw [lastFinish_singleton, hfinish]; rfl, by rw [lastUsage_singleton]; rfl, ?_, ?_, ?_, ?_⟩
    · rw [contentOf_append, contentOf_flush, hcontent, htext]
      rfl
    · intro index
      rw [callsOf_append, List.filter_append, callsOf_flush hfed]
      show (slots _ index).map (toolCall index) ++ [] = _
      rw [List.append_nil, if_pos rfl, List.flatMap_cons, List.flatMap_nil, List.append_nil]
    · rw [finishOf_append, finishOf_singleton, truthy_finish hfinish, lastFinish_singleton, hfinish]
      rfl
    · rw [usageOf_append, usageOf_flush]
      rfl
  · have hkeep : c.flushes = false := by
      unfold Chunk.flushes
      cases htext' : c.content with
      | nil => exact absurd htext' htext
      | cons a text => rfl
    rw [hkeep, hstep]
    refine ⟨hfed, by rw [lastFinish_singleton], by rw [lastUsage_singleton]; rfl, ?_, fun _ => rfl, ?_, rfl⟩
    · rw [hcontent]
      exact List.append_nil _
    · rw [lastFinish_singleton, finishOf_singleton, hraw]

theorem run_says {r : Reader U} {pending : List Fragment} (h : Gathers Fragment.at assembled r.toolAccum pending)
    (chunks : List (Chunk U)) : Says r chunks (Transducer.run step r chunks).1 (Transducer.run step r chunks).2
      (cut pending chunks).1 (cut pending chunks).2 := by
  induction chunks generalizing r pending with
  | nil => exact ⟨h, rfl, rfl, rfl, fun _ => rfl, rfl, rfl⟩
  | cons c chunks ih =>
    have hone := step_says h c
    have hmore := hone.append (ih hone.accum)
    rw [Transducer.run_cons, cut]
    cases hflush : c.flushes with
    | true | false =>
      rw [hflush] at hmore
      exact hmore

theorem cut_flatten (pending : List Fragment) (chunks : List (Chunk U)) :
    (cut pending chunks).1.flatten ++ (cut pending chunks).2 = pending ++ chunks.flatMap Chunk.fragments := by
  induction chunks generalizing pending with
  | nil => rw [cut, List.flatMap_nil, List.append_nil]; rfl
  | cons c chunks ih =>
    rw [cut, List.flatMap_cons]
    split
    · rw [List.flatten_cons, List.append_assoc, ih, List.nil_append, List.append_assoc]
    · rw [ih, List.append_assoc]

/-! ## a turn -/

theorem read_eq (r : Reader U) (lines : List (Line U)) : read r lines = (Transducer.run step r (body lines)).2 ++
    if ended lines then (Transducer.run step r (body lines)).1.done else (Transducer.run step r (body lines)).1.usage := by
  induction lines generalizing r with
  | nil => rfl
  | cons line lines ih =>
    cases line with
    | skipped => exact ih r
    | done => rfl
    | chunk c =>
      rw [read, ih, body, Transducer.run_cons, List.append_assoc]
      rfl

theorem toolCall_injective (index : Int) : Function.Injective (toolCall index) := by
  rintro ⟨id, name, arguments⟩ ⟨id', name', arguments'⟩ h
  cases h
  rfl

theorem usageOf_usage (r : Reader U) : usageOf r.usage = r.finalUsage := by
  unfold Reader.usage
  cases r.finalUsage <;> rfl

theorem usage_quiet (r : Reader U) : contentOf r.usage = [] ∧ callsOf r.usage = [] ∧ finishOf r.usage = none := by
  unfold Reader.usage
  cases r.finalUsage <;> exact ⟨rfl, rfl, rfl⟩

theorem done_says {r : Reader U} {rest : List Fragment} (h : Gathers Fragment.at assembled r.toolAccum rest) :
    contentOf r.done = [] ∧ usageOf r.done = r.finalUsage ∧
    (∀ index, (callsOf r.done).filter (fun call => call.index = index) = (slots rest index).map (toolCall index)) ∧
    finishOf r.done = if rest = [] then if r.seenRealFinish.isNone then some "stop" else none else some "tool_calls" := by
  obtain ⟨hcontent, hcalls, hfinish⟩ := usage_quiet r
  have hempty : r.toolAccum.isEmpty = decide (rest = []) := by
    rw [Bool.eq_iff_iff, List.isEmpty_iff, decide_eq_true_iff]
    exact h.eq_nil_iff
  unfold Reader.done
  refine ⟨?_, ?_, fun index => ?_, ?_⟩
  · rw [contentOf_append, contentOf_append, contentOf_flush, hcontent]
    split <;> rfl
  · rw [usageOf_append, usageOf_append, usageOf_flush, usageOf_usage]
    split <;> exact Option.or_none ..
  · rw [callsOf_append, callsOf_append, hcalls, List.append_nil, List.filter_append, callsOf_flush h]
    split <;> exact List.append_nil _
  · rw [finishOf_append, finishOf_append, finishOf_flush, hfinish, hempty]
    by_cases hrest : rest = []
    · rw [if_pos hrest]
      cases hseen : r.seenRealFinish <;> simp [hrest, finishOf, truthy]
    · simp [hrest, finishOf]

structure Ends (lines : List (Line U)) (deltas : List (Delta U)) : Prop where
  content : contentOf deltas = (body lines).flatMap Chunk.content
  usage : usageOf deltas = lastUsage (body lines)
  calls : ∀ index, (callsOf deltas).filter (fun call => call.index = index) =
    (((cut [] (body lines)).1 ++ if ended lines then [(cut [] (body lines)).2] else []).flatMap
      (fun piece => slots piece index)).map (toolCall index)
  finish : finishOf deltas =
    if ended lines = true ∧ (cut [] (body lines)).2 ≠ [] then some "tool_calls"
    else if ended lines = true ∧ lastFinish (body lines) = none then some "stop"
    else lastFinish (body lines)

theorem read_ends (lines : List (Line U)) : Ends lines (read {} lines) := by
  have hnew : Gathers Fragment.at assembled ({} : Reader U).toolAccum [] := Assembly.gathers_nil
  have hrun := run_says hnew (body lines)
  have hfinal : (Transducer.run step {} (body lines)).1.finalUsage = lastUsage (body lines) :=
    hrun.final.trans (Option.or_none ..)
  have hseen : (Transducer.run step {} (body lines)).1.seenRealFinish = lastFinish (body lines) :=
    hrun.seen.trans (Option.or_none ..)
  rw [read_eq]
  cases hended : ended lines with
  | true =>
    obtain ⟨hcontent, husage, hcalls, hfinish⟩ := done_says hrun.accum
    rw [if_pos rfl]
    refine ⟨?_, ?_, fun index => ?_, ?_⟩
    · rw [contentOf_append, hrun.content, hcontent, List.append_nil]
    · rw [usageOf_append, husage, hrun.usage, hfinal, Option.or_none]
    · rw [callsOf_append, List.filter_append, hrun.calls, hcalls, hended, if_pos rfl, List.flatMap_append, List.map_append,
        List.flatMap_cons, List.flatMap_nil, List.append_nil]
    · rw [finishOf_append, hfinish, hrun.finish, hseen, hended]
      by_cases hrest : (cut [] (body lines)).2 = []
      · cases hlast : lastFinish (body lines) <;> simp [hrest]
      · simp [hrest]
  | false =>
    obtain ⟨hcontent, hcalls, hfinish⟩ := usage_quiet (Transducer.run step {} (body lines)).1
    rw [if_neg Bool.false_ne_true]
    refine ⟨?_, ?_, fun index => ?_, ?_⟩
    · rw [contentOf_append, hrun.content, hcontent, List.append_nil]
    · rw [usageOf_append, usageOf_usage, hrun.usage, hfinal, Option.or_none]
    · rw [callsOf_append, hcalls, List.append_nil, hrun.calls, hended, if_neg Bool.false_ne_true, List.append_nil]
    · rw [finishOf_append, hfinish, hrun.finish, hended]
      simp

theorem calls_iff {lines : List (Line U)} {deltas : List (Delta U)} (h : Ends lines deltas) :
    (∀ index, (callsOf deltas).filter (fun call => call.index = index) =
        (slots ((body lines).flatMap Chunk.fragments) index).map (toolCall index)) ↔
      ((cut [] (body lines)).1 ++ if ended lines then [(cut [] (body lines)).2] else []).Pairwise (Assembly.Apart Fragment.at) ∧
        (ended lines = false → ∀ tc ∈ (cut [] (body lines)).2,
          Assembly.own Fragment.at (cut [] (body lines)).1.flatten tc.at ≠ [] ∧
            assembled (Assembly.own Fragment.at ((cut [] (body lines)).1.flatten ++ (cut [] (body lines)).2) tc.at) =
              assembled (Assembly.own Fragment.at (cut [] (body lines)).1.flatten tc.at)) := by
  have hall := cut_flatten [] (body lines)
  rw [List.nil_append] at hall
  have hslots : ∀ index, (callsOf deltas).filter (fun call => call.index = index) =
        (slots ((body lines).flatMap Chunk.fragments) index).map (toolCall index) ↔
      (((cut [] (body lines)).1 ++ if ended lines then [(cut [] (body lines)).2] else []).flatMap (fun piece => slots piece index)) =
        slots ((cut [] (body lines)).1.flatten ++ (cut [] (body lines)).2) index := by
    intro index
    rw [h.calls, ← hall]
    exact (List.map_injective_iff.2 (toolCall_injective index)).eq_iff
  rw [forall_congr' hslots]
  generalize cut [] (body lines) = pieces
  cases ended lines with
  | true =>
    have hflat : pieces.1.flatten ++ pieces.2 = (pieces.1 ++ [pieces.2]).flatten := by simp
    rw [if_pos rfl, hflat]
    exact Assembly.pieces_iff.trans (and_iff_left nofun).symm
  | false =>
    rw [if_neg Bool.false_ne_true, List.append_nil]
    exact Assembly.pieces_rest_iff.trans (and_congr_right (fun _ => ⟨fun hrest _ => hrest, fun hrest => hrest rfl⟩))

theorem finish_iff {lines : List (Line U)} {deltas : List (Delta U)} (h : Ends lines deltas) :
    (∀ finish, lastFinish (body lines) = some finish → finishOf deltas = some finish) ↔
      (ended lines = true → (cut [] (body lines)).2 ≠ [] →
        ∀ finish, lastFinish (body lines) = some finish → finish = "tool_calls") := by
  rw [h.finish]
  constructor
  · intro hall hended hrest finish hlast
    have hfinish := hall finish hlast
    rw [if_pos ⟨hended, hrest⟩] at hfinish
    exact (Option.some.inj hfinish).symm
  · intro hcond finish hlast
    by_cases hflush : ended lines = true ∧ (cut [] (body lines)).2 ≠ []
    · rw [if_pos hflush, hcond hflush.1 hflush.2 finish hlast]
    · rw [if_neg hflush, if_neg (by rw [hlast]; exact fun h => nomatch h.2), hlast]

/-- **When a turn gets what the upstream has sent.** -/
theorem turn_assembled_iff (loads : Text → Option (Chunk U)) (raws : List Text) :
    TurnAssembled (turnOf (iterSse loads raws)) (body (raws.map (readLine loads))) ↔ Assembles (raws.map (readLine loads)) := by
  have hends := read_ends (raws.map (readLine loads))
  rw [iterSse, turnOf_eq]
  constructor
  · intro h
    obtain ⟨hapart, hrest⟩ := (calls_iff hends).1 h.calls
    exact ⟨hapart, (finish_iff hends).1 h.finish, hrest⟩
  · intro h
    exact ⟨hends.content, (calls_iff hends).2 ⟨h.apart, h.rest⟩, (finish_iff hends).2 h.finish, hends.usage⟩

end

/-! ## a call that is lost -/

def callChunk : Chunk Unit :=
  { choices := [{ toolCalls := [{ index := some 0, id := some "c1".toList, name := some "f".toList, arguments := some "[]".toList }] }] }

def textChunk : Chunk Unit := { choices := [{ content := some "ok".toList, finishReason := some "tool_calls" }] }

def callData : Text := "\x7b\"choices\":[\x7b\"delta\":\x7b\"tool_calls\":[\x7b\"index\":0,\"id\":\"c1\",\"function\":\x7b\"name\":\"f\",\"arguments\":\"[]\"\x7d\x7d]\x7d\x7d]\x7d".toList

def textData : Text := "\x7b\"choices\":[\x7b\"delta\":\x7b\"content\":\"ok\"\x7d,\"finish_reason\":\"tool_calls\"\x7d]\x7d".toList

def loadsTwo (data : Text) : Option (Chunk Unit) :=
  if data = callData then some callChunk else if data = textData then some textChunk else none

/-- **A body that ends without `[DONE]` loses a call** whose finish reason comes with text. -/
theorem call_lost : ¬ ∀ (loads : Text → Option (Chunk Unit)) (raws : List Text),
    TurnAssembled (turnOf (iterSse loads raws)) (body (raws.map (readLine loads))) := by
  intro h
  have hcalls := (h loadsTwo ["data: ".toList ++ callData, [], "data: ".toList ++ textData, []]).calls 0
  revert hcalls
  decide +kernel

end OpenAi
end MyGpt
