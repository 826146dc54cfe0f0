import MyGpt.SseDecoder
/-!
# SseFrames — what a frame is made of

A frame is emitted on a blank line and takes its fields with it.  Where a blank line ends lines that make no frame, the id
among them stays behind and goes into the next frame; a text decodes frame by frame exactly when none does
(`frames_separate_iff`).
-/
namespace MyGpt
namespace Sse

open Transducer (run)
open SSEFrameDecoder

/-! ## what is to hold -/

def linesOf (text : JsString) : List JsString := (text.splitOn lf).map chomp

def groupsOf (text : JsString) : List (List JsString) := (linesOf text).splitOn []

def frameOf (group : List JsString) : Option SSEFrame := (group.foldl Pending.absorb {}).emit.2

structure Separate (text : JsString) : Prop where
  chunks : ∀ chunks : List JsString, chunks.flatten = text → decode chunks = decode [text]
  framewise : decode [text] = (groupsOf text).filterMap frameOf

def isField (name : String) (line : JsString) : Bool := !isComment line && decide ((fieldOf line).1 = ascii name)

def lastOf (name : String) (group : List JsString) : Option JsString :=
  ((group.filter (isField name)).map (fun line => (fieldOf line).2)).getLast?

def Silent (group : List JsString) : Prop :=
  group.filter (isField "data") = [] ∧ (lastOf "event" group).getD [] = []

instance decidableSilent (group : List JsString) : Decidable (Silent group) := inferInstanceAs (Decidable (_ ∧ _))

def OwnId (groups : List (List JsString)) : Prop :=
  ∀ mid g post, groups = mid ++ g :: post → (∀ m ∈ mid, Silent m ∧ lastOf "id" m = none) → ¬ Silent g → lastOf "id" g ≠ none

/-- **Behind lines that have an id and make no frame, the next frame has an id of its own.** -/
def NoIdLeft (groups : List (List JsString)) : Prop :=
  ∀ pre s rest, groups = pre ++ s :: rest → Silent s → (lastOf "id" s).getD [] ≠ [] → OwnId rest

/-! ## from the text to its lines -/

def readLine (p : Pending) (line : JsString) : Pending × List SSEFrame :=
  ((p.processLine line).1, (p.processLine line).2.toList)

theorem readLine_nil (p : Pending) : readLine p [] = (p.emit.1, p.emit.2.toList) := rfl

theorem readLine_ne (p : Pending) {line : JsString} (h : line ≠ []) : readLine p line = (p.absorb line, []) := by
  unfold readLine Pending.processLine
  rw [if_neg h]
  rfl

theorem emit_emit (p : Pending) : p.emit.1.emit.2 = none := by
  unfold Pending.emit
  by_cases h : p.dataLines = [] ∧ p.event = []
  · rw [if_pos h]
    dsimp only
    rw [if_pos h]
  · rw [if_neg h]
    rfl

theorem flush_eq (dec : SSEFrameDecoder) :
    dec.flush.toList = (run readLine dec.toPending [chomp dec.buffer, []]).2 := by
  rw [Transducer.run_cons, Transducer.run_cons, Transducer.run_nil, readLine_nil, List.append_nil]
  unfold flush
  by_cases hbuffer : dec.buffer = []
  · rw [if_neg (not_not.2 hbuffer), hbuffer]
    show _ = dec.toPending.emit.2.toList ++ dec.toPending.emit.1.emit.2.toList
    rw [emit_emit, Option.toList_none, List.append_nil]
  · rw [if_pos hbuffer]
    by_cases hline : chomp dec.buffer = []
    · have hblank : dec.toPending.processLine [] = dec.toPending.emit := rfl
      rw [hline, readLine_nil, emit_emit, Option.toList_none, List.append_nil, hblank]
      dsimp only
      cases hfirst : dec.toPending.emit.2 with
      | some frame => rfl
      | none =>
        dsimp only
        rw [emit_emit]
    · rw [readLine_ne _ hline]
      unfold Pending.processLine
      rw [if_neg hline]
      rfl

/-- **Decoding is reading the lines**: what is in the buffer belongs to the first of them. -/
theorem run_feed_lines (text : JsString) (dec : SSEFrameDecoder) :
    (run feed dec text).2 ++ (run feed dec text).1.flush.toList =
      (run readLine dec.toPending (((text.splitOn lf).modifyHead (dec.buffer ++ ·)).map chomp ++ [[]])).2 := by
  induction text generalizing dec with
  | nil => simp [flush_eq]
  | cons c text ih =>
    rw [Transducer.run_cons, List.append_assoc, ih, List.splitOn_cons_eq_if_modifyHead]
    by_cases hc : c = lf
    · subst hc
      have hid : ∀ ls : List JsString, ls.modifyHead (([] : JsString) ++ ·) = ls := fun ls => by cases ls <;> rfl
      have hfeed : feed dec lf = ({ (readLine dec.toPending (chomp dec.buffer)).1 with buffer := [] },
        (readLine dec.toPending (chomp dec.buffer)).2) := if_pos rfl
      rw [if_pos (by simp), hfeed, hid]
      simp
    · have hfeed : feed dec c = ({ dec with buffer := dec.buffer ++ [c] }, []) := if_neg hc
      rw [if_neg (by simpa using hc), hfeed, List.modifyHead_modifyHead]
      simp [Function.comp_def]

theorem decode_lines (text : JsString) : decode [text] = (run readLine {} (linesOf text ++ [[]])).2 := by
  rw [decode_chunks, List.flatten_singleton, run_feed_lines]
  unfold linesOf
  cases text.splitOn lf <;> rfl

/-! ## from the lines to the groups -/

def framesFrom (p : Pending) : List (List JsString) → List SSEFrame
  | [] => []
  | g :: groups => (g.foldl Pending.absorb p).emit.2.toList ++ framesFrom (g.foldl Pending.absorb p).emit.1 groups

theorem framesFrom_modifyHead (p : Pending) {line : JsString} {groups : List (List JsString)} (h : groups ≠ []) :
    framesFrom p (groups.modifyHead (line :: ·)) = framesFrom (p.absorb line) groups := by
  cases groups with
  | nil => exact absurd rfl h
  | cons g groups => rfl

theorem run_readLine_groups (ls : List JsString) (p : Pending) :
    (run readLine p (ls ++ [[]])).2 = framesFrom p (ls.splitOn []) := by
  induction ls generalizing p with
  | nil =>
    rw [List.splitOn_nil, List.nil_append, Transducer.run_cons, readLine_nil]
    rfl
  | cons line ls ih =>
    rw [List.cons_append, Transducer.run_cons, ih, List.splitOn_cons_eq_if_modifyHead]
    by_cases hline : line = []
    · rw [hline, if_pos (by simp), readLine_nil]
      rfl
    · rw [if_neg (by simpa using hline), readLine_ne _ hline, framesFrom_modifyHead _ (List.splitOn_ne_nil _ _)]
      rfl

/-! ## what the lines of a group leave -/

def keptId (id : Option JsString) (group : List JsString) : Option JsString :=
  match lastOf "id" group with
  | none => id
  | some value => if value = [] then none else some value

theorem lastOf_cons (name : String) (line : JsString) (group : List JsString) :
    lastOf name (line :: group) =
      (lastOf name group).or (if isField name line then some (fieldOf line).2 else none) := by
  unfold lastOf
  rw [List.filter_cons]
  split
  · rw [List.map_cons, List.getLast?_cons]
    cases ((group.filter (isField name)).map fun line => (fieldOf line).2).getLast? <;> rfl
  · rw [Option.or_none]

theorem absorb_eq (p : Pending) (line : JsString) : p.absorb line =
    { event := if isField "event" line then (fieldOf line).2 else p.event
      dataLines := p.dataLines ++ (if isField "data" line then [(fieldOf line).2] else [])
      id := if isField "id" line then (if (fieldOf line).2 = [] then none else some (fieldOf line).2) else p.id } := by
  have hevent_data : ascii "event" ≠ ascii "data" := by decide
  have hevent_id : ascii "event" ≠ ascii "id" := by decide
  have hdata_id : ascii "data" ≠ ascii "id" := by decide
  unfold Pending.absorb isField
  by_cases hcomment : isComment line = true
  · simp [hcomment]
  by_cases hevent : (fieldOf line).1 = ascii "event"
  · simp [hcomment, hevent, hevent_data, hevent_id]
  by_cases hdata : (fieldOf line).1 = ascii "data"
  · simp [hcomment, hdata, hevent_data.symm, hdata_id]
  by_cases hid : (fieldOf line).1 = ascii "id"
  · simp [hcomment, hid, hevent_id.symm, hdata_id.symm]
  · simp [hcomment, hevent, hdata, hid]

theorem foldl_absorb (group : List JsString) (p : Pending) : group.foldl Pending.absorb p =
    { event := (lastOf "event" group).getD p.event
      dataLines := p.dataLines ++ (group.filter (isField "data")).map (fun line => (fieldOf line).2)
      id := keptId p.id group } := by
  induction group generalizing p with
  | nil => exact congrArg (fun l => Pending.mk p.event l p.id) (List.append_nil _).symm
  | cons line group ih =>
    rw [List.foldl_cons, ih, absorb_eq]
    refine Pending.mk.injEq .. |>.mpr ⟨?_, ?_, ?_⟩
    · rw [lastOf_cons]
      cases lastOf "event" group <;> split <;> rfl
    · rw [List.filter_cons, List.append_assoc]
      split <;> rfl
    · unfold keptId
      rw [lastOf_cons]
      cases lastOf "id" group with
      | none => cases isField "id" line <;> rfl
      | some value => rfl

def frameWith (id : Option JsString) (group : List JsString) : SSEFrame where
  event := (lastOf "event" group).getD []
  data := [lf].intercalate ((group.filter (isField "data")).map (fun line => (fieldOf line).2))
  id := id

/-- **A silent group emits nothing and leaves its id behind; any other is emitted and leaves nothing.** -/
theorem emit_group (id : Option JsString) (group : List JsString) :
    (group.foldl Pending.absorb { id := id }).emit =
      if Silent group then ({ id := keptId id group }, none) else ({}, some (frameWith (keptId id group) group)) := by
  rw [foldl_absorb]
  unfold Pending.emit
  dsimp only
  rw [List.nil_append]
  by_cases hsilent : Silent group
  · have hnone : (group.filter (isField "data")).map (fun line => (fieldOf line).2) = [] := by rw [hsilent.1]; rfl
    rw [if_pos ⟨hnone, hsilent.2⟩, if_pos hsilent, hnone, hsilent.2]
  · rw [if_neg (fun h => hsilent ⟨List.map_eq_nil_iff.1 h.1, h.2⟩), if_neg hsilent]
    rfl

theorem frameOf_eq (group : List JsString) :
    frameOf group = if Silent group then none else some (frameWith (keptId none group) group) := by
  unfold frameOf
  rw [show ({} : Pending) = { id := none } from rfl, emit_group]
  split <;> rfl

theorem frameWith_eq_iff {id : Option JsString} {group : List JsString} :
    frameWith (keptId id group) group = frameWith (keptId none group) group ↔ (id ≠ none → lastOf "id" group ≠ none) := by
  have hinj : ∀ i j, frameWith i group = frameWith j group ↔ i = j :=
    fun i j => ⟨fun h => congrArg SSEFrame.id h, fun h => h ▸ rfl⟩
  rw [hinj]
  unfold keptId
  cases lastOf "id" group with
  | none => simp
  | some value => simp

/-! ## the groups one after the other -/

def Clean (id : Option JsString) : List (List JsString) → Prop
  | [] => True
  | g :: groups => if Silent g then Clean (keptId id g) groups else (id ≠ none → lastOf "id" g ≠ none) ∧ Clean none groups

theorem framesFrom_iff (groups : List (List JsString)) (id : Option JsString) :
    framesFrom { id := id } groups = groups.filterMap frameOf ↔ Clean id groups := by
  induction groups generalizing id with
  | nil => exact ⟨fun _ => trivial, fun _ => rfl⟩
  | cons g groups ih =>
    rw [framesFrom, emit_group, Clean, List.filterMap_cons, frameOf_eq]
    by_cases hsilent : Silent g
    · rw [if_pos hsilent, if_pos hsilent, if_pos hsilent]
      exact ih _
    · rw [if_neg hsilent, if_neg hsilent, if_neg hsilent]
      show _ :: framesFrom { id := none } groups = _ :: groups.filterMap frameOf ↔ _
      rw [List.cons.injEq, frameWith_eq_iff, ih none]

theorem ownId_cons {g : List JsString} {groups : List (List JsString)} : OwnId (g :: groups) ↔
    (Silent g → lastOf "id" g = none → OwnId groups) ∧ (¬ Silent g → lastOf "id" g ≠ none) := by
  constructor
  · refine fun h => ⟨fun hsilent hid mid g' post he hmid => h (g :: mid) g' post (by rw [he]; rfl) ?_, fun hframe =>
      h [] g groups rfl (fun m hm => by cases hm) hframe⟩
    intro m hm
    rcases List.mem_cons.1 hm with rfl | hm
    · exact ⟨hsilent, hid⟩
    · exact hmid m hm
  · rintro ⟨hlater, hown⟩ mid g' post he hmid hframe
    cases mid with
    | nil =>
      obtain ⟨rfl, -⟩ := List.cons.inj he
      exact hown hframe
    | cons m mid =>
      obtain ⟨rfl, hrest⟩ := List.cons.inj he
      obtain ⟨hsilent, hid⟩ := hmid g List.mem_cons_self
      exact hlater hsilent hid mid g' post hrest (fun m hm => hmid m (List.mem_cons_of_mem _ hm)) hframe

theorem noIdLeft_cons {g : List JsString} {groups : List (List JsString)} : NoIdLeft (g :: groups) ↔
    (Silent g → (lastOf "id" g).getD [] ≠ [] → OwnId groups) ∧ NoIdLeft groups := by
  constructor
  · exact fun h => ⟨h [] g groups rfl, fun pre s rest he => h (g :: pre) s rest (by rw [he]; rfl)⟩
  · rintro ⟨hhead, htail⟩ pre s rest he
    cases pre with
    | nil =>
      obtain ⟨rfl, rfl⟩ := List.cons.inj he
      exact hhead
    | cons x pre =>
      obtain ⟨-, hrest⟩ := List.cons.inj he
      exact htail pre s rest hrest

theorem keptId_ne_none {id : Option JsString} {g : List JsString} :
    keptId id g ≠ none ↔ (id ≠ none ∧ lastOf "id" g = none) ∨ (lastOf "id" g).getD [] ≠ [] := by
  unfold keptId
  cases lastOf "id" g with
  | none => simp
  | some value => simp

theorem clean_iff (groups : List (List JsString)) (id : Option JsString) :
    Clean id groups ↔ (id ≠ none → OwnId groups) ∧ NoIdLeft groups := by
  induction groups generalizing id with
  | nil =>
    refine ⟨fun _ => ⟨fun _ mid g post he => ?_, fun pre s rest he => ?_⟩, fun _ => trivial⟩
    · cases mid <;> cases he
    · cases pre <;> cases he
  | cons g groups ih =>
    rw [Clean, ownId_cons, noIdLeft_cons]
    by_cases hsilent : Silent g
    · rw [if_pos hsilent, ih, keptId_ne_none]
      tauto
    · rw [if_neg hsilent, ih]
      tauto

/-! ## every text -/

/-- **A text decodes to one frame for each of its groups, however it is cut**, exactly when no id is left behind. -/
theorem frames_separate_iff (text : JsString) : Separate text ↔ NoIdLeft (groupsOf text) := by
  have hframes : decode [text] = framesFrom { id := none } (groupsOf text) := by
    rw [decode_lines, run_readLine_groups]
    rfl
  have hclean := (framesFrom_iff (groupsOf text) none).trans (clean_iff (groupsOf text) none)
  constructor
  · intro h
    exact (hclean.1 (hframes.symm.trans h.framewise)).2
  · intro h
    refine ⟨fun chunks hflat => ?_, hframes.trans (hclean.2 ⟨fun hne => absurd rfl hne, h⟩)⟩
    rw [decode_chunks, decode_chunks, hflat, List.flatten_singleton]

def loneId : JsString := ascii "id: 5\n\ndata: x\n\n"

/-- **The id goes into the frame behind the blank line.** -/
theorem lone_id_leaks : ¬ ∀ text, Separate text := by
  intro h
  have hframes := (h loneId).framewise
  revert hframes
  decide +kernel

end Sse
end MyGpt
