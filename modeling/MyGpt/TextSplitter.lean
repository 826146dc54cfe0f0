import MyGpt.CitationLocator
import MyGpt.Lib.Regex
/-!
# TextSplitter — cutting a document into chunks of so many tokens

`rag/splitter.py`: a text with headings is cut into their sections, and what is too long is cut at the first separator that
occurs in it, its pieces gathered up to the size and those too long by themselves cut at finer separators.  The separator
is put back behind every piece, the last one too, so a chunk can have a full stop that the text has not: the characters are
kept exactly where every separator that is used is blank (`splitWith_inked_iff`).
-/
namespace MyGpt
namespace Rag

open Chat (Text isSpace strip inked inked_append inked_strip)
open Joins (slice)

def separators : List Text :=
  ["\n\n\n".toList, "\n# ".toList, "\n## ".toList, "\n### ".toList, "\n\n".toList, "\n".toList, ". ".toList, "。".toList,
    " ".toList, []]

/-! ## tokens -/

/-- What the splitter uses of a `tiktoken` encoding; `none` where it raises. -/
structure Encoding (τ : Type) where
  encode : Text → Option (List τ)
  decode : List τ → Option Text

variable {τ : Type}

/-- `_count_tokens`: without an encoding, by the length. -/
def countTokens (encoding : Option (Encoding τ)) (text : Text) : Nat :=
  if text = [] then 0
  else
    match encoding.bind (fun enc => enc.encode text) with
    | some tokens => tokens.length
    | none => max 1 (text.length / 4)

def lastChars (text : Text) (n : Nat) : Text := text.drop (text.length - n)

def takeTailTokens (encoding : Option (Encoding τ)) (text : Text) (nTokens : Nat) : Text :=
  if nTokens = 0 ∨ text = [] then []
  else
    match encoding with
    | none => lastChars text (nTokens * 4)
    | some enc =>
      match enc.encode text with
      | none => lastChars text (nTokens * 4)
      | some tokens =>
        if nTokens < tokens.length then
          (enc.decode (tokens.drop (tokens.length - nTokens))).getD (lastChars text (nTokens * 4))
        else text

/-! ## cutting -/

/-- `if buf.strip(): out.append(buf.strip())`. -/
def emit (buf : Text) : List Text := if strip buf = [] then [] else [strip buf]

/-- The loop of `_split_text` over the parts: `finer` cuts a piece that is too long by itself. -/
def mergeParts (count : Text → Nat) (size : Nat) (sep : Text) (finer : Option (Text → List Text)) :
    Text → List Text → List Text
  | buf, [] => emit buf
  | buf, part :: parts =>
    let piece := part ++ sep
    if count (buf ++ piece) ≤ size then mergeParts count size sep finer (buf ++ piece) parts
    else
      emit buf ++
        match finer with
        | some cut =>
          if size < count piece then cut piece ++ mergeParts count size sep finer [] parts
          else mergeParts count size sep finer piece parts
        | none => mergeParts count size sep finer piece parts

/-- `_split_text`; `last` is the last separator of the list, taken where none of them occurs. -/
def splitText (count : Text → Nat) (size : Nat) (last : Text) : List Text → Text → List Text
  | [], text => mergeParts count size last none [] (splitAt last 0 text)
  | candidate :: finer, text =>
    if candidate = [] then mergeParts count size [] none [] (text.map (fun c => [c]))
    else if candidate <:+: text then
      mergeParts count size candidate (if finer = [] then none else some (splitText count size last finer)) []
        (splitAt candidate 0 text)
    else splitText count size last finer text

/-! ## sections -/

/-- `(?m)^#{1,6}\s+.+$`. -/
def headingRe : Regex.Pattern Char :=
  .seq (.notBehind (· != '\n')) <| .seq (.char (· == '#')) <| .seq (.upTo 5 (.char (· == '#'))) <| .seq (.char isSpace) <|
    .seq (.star (.char isSpace)) <| .seq (.char (· != '\n')) <| .seq (.star (.char (· != '\n'))) (.notAhead (· != '\n'))

def sectionsFrom (text : Text) : List Nat → List Text
  | [] => []
  | [start] => [strip (text.drop start)]
  | start :: next :: starts => strip (slice text start next) :: sectionsFrom text (next :: starts)

def preamble (text : Text) (first : Nat) : List Text := if 0 < first then emit (text.take first) else []

def splitMarkdownSections (text : Text) : List Text :=
  match (Regex.findIter headingRe text).map (·.1) with
  | first :: next :: starts => (preamble text first ++ sectionsFrom text (first :: next :: starts)).filter (· ≠ [])
  | _ => []

/-! ## the splitter -/

structure RecursiveTextSplitter (τ : Type) where
  encoding : Option (Encoding τ)
  chunkSize : Nat
  chunkOverlap : Nat

/-- `a or b` of a number. -/
def orSetting (value : Option Nat) (setting : Nat) : Nat := if value.getD 0 = 0 then setting else value.getD 0

/-- `__init__`: an overlap as long as a chunk is cut down. -/
def RecursiveTextSplitter.init (encoding : Option (Encoding τ)) (ragChunkSize ragChunkOverlap : Nat)
    (chunkSize chunkOverlap : Option Nat) : RecursiveTextSplitter τ :=
  let size := orSetting chunkSize ragChunkSize
  let overlap := orSetting chunkOverlap ragChunkOverlap
  { encoding := encoding, chunkSize := size, chunkOverlap := if size ≤ overlap then size / 4 else overlap }

def withTails (tail : Text → Text) (prev : Text) : List Text → List Text
  | [] => []
  | chunk :: chunks => (tail prev ++ chunk) :: withTails tail chunk chunks

def applyOverlap (tail : Text → Text) : List Text → List Text
  | [] => []
  | chunk :: chunks => chunk :: withTails tail chunk chunks

namespace RecursiveTextSplitter

variable (s : RecursiveTextSplitter τ)

def countTokens (text : Text) : Nat := Rag.countTokens s.encoding text

/-- `_split_text` over all of a list of separators. -/
def cutText (seps : List Text) (hseps : seps ≠ []) (text : Text) : List Text :=
  splitText s.countTokens s.chunkSize (seps.getLast hseps) seps text

def splitOversized (seps : List Text) (hseps : seps ≠ []) (text : Text) : List Text :=
  if s.countTokens text ≤ s.chunkSize then [text] else (s.cutText seps hseps text).filter (fun c => strip c ≠ [])

def overlapped (parts : List Text) : List Text :=
  if s.chunkOverlap ≠ 0 ∧ 1 < parts.length then applyOverlap (takeTailTokens s.encoding · s.chunkOverlap) parts else parts

/-- `split`, with any separators. -/
def splitWith (seps : List Text) (hseps : seps ≠ []) (text : Text) : List Text :=
  if strip text = [] then []
  else
    let sections := splitMarkdownSections text
    let chunks :=
      if sections = [] then s.overlapped (s.cutText seps hseps text)
      else sections.flatMap (fun sec => s.overlapped (s.splitOversized seps hseps sec))
    chunks.filter (fun c => strip c ≠ [])

def split (text : Text) : List Text := s.splitWith separators (by decide) text

end RecursiveTextSplitter

/-! ## parts and pieces -/

theorem splitAt_ne_nil (sep : Text) : ∀ (text : Text) (skip : Nat), splitAt sep skip text ≠ []
  | [], _ => List.cons_ne_nil _ _
  | c :: text, skip => by
    unfold splitAt
    split
    · exact splitAt_ne_nil sep text (skip - 1)
    · split
      · exact List.cons_ne_nil _ _
      · cases splitAt sep 0 text <;> exact List.cons_ne_nil _ _

/-- **The pieces of a text**: its parts with the separator behind each are the text with one separator more. -/
theorem splitAt_pieces {sep : Text} (hsep : sep ≠ []) : ∀ (text : Text) (skip : Nat), skip ≤ text.length →
    ((splitAt sep skip text).map (· ++ sep)).flatten = text.drop skip ++ sep
  | [], skip, _ => by simp [splitAt]
  | c :: text, skip, hskip => by
    unfold splitAt
    split
    · rename_i hpos
      obtain ⟨n, rfl⟩ := Nat.exists_eq_succ_of_ne_zero (Nat.pos_iff_ne_zero.1 hpos)
      rw [List.length_cons] at hskip
      rw [Nat.succ_sub_one, splitAt_pieces hsep text n (by omega)]
      rfl
    · rename_i hzero
      obtain rfl : skip = 0 := by omega
      have hlen : 0 < sep.length := List.length_pos_iff.2 hsep
      split
      · rename_i hprefix
        obtain ⟨rest, hrest⟩ := List.isPrefixOf_iff_prefix.1 hprefix
        have hle := congrArg List.length hrest
        rw [List.length_append, List.length_cons] at hle
        have hdrop : text.drop (sep.length - 1) = rest := by
          have hboth := congrArg (List.drop sep.length) hrest
          rw [List.drop_left] at hboth
          obtain ⟨n, hn⟩ := Nat.exists_eq_succ_of_ne_zero (Nat.pos_iff_ne_zero.1 hlen)
          rw [hn, List.drop_succ_cons] at hboth
          rw [hn, Nat.succ_sub_one, hboth]
        rw [List.map_cons, List.flatten_cons, splitAt_pieces hsep text (sep.length - 1) (by omega), hdrop, List.nil_append,
          List.drop_zero, ← hrest, List.append_assoc]
      · have hrest := splitAt_pieces hsep text 0 (Nat.zero_le _)
        cases hs : splitAt sep 0 text with
        | nil => exact absurd hs (splitAt_ne_nil sep text 0)
        | cons part parts =>
          rw [hs, List.map_cons, List.flatten_cons, List.drop_zero] at hrest
          rw [consPiece, List.map_cons, List.flatten_cons, List.cons_append, List.cons_append, hrest, List.drop_zero,
            List.cons_append]

theorem singletons_flatten (text : Text) : (text.map (fun c => [c])).flatten = text := by
  induction text with
  | nil => rfl
  | cons c text ih => rw [List.map_cons, List.flatten_cons, ih, List.singleton_append]

theorem inked_emit (buf : Text) : inked (emit buf).flatten = inked buf := by
  unfold emit
  split
  · rename_i hblank
    rw [← inked_strip buf, hblank]
    rfl
  · rw [List.flatten_singleton, inked_strip]

/-! ## what the gathering keeps -/

def handedOn (count : Text → Nat) (size : Nat) (sep : Text) : Text → List Text → List Text
  | _, [] => []
  | buf, part :: parts =>
    if count (buf ++ (part ++ sep)) ≤ size then handedOn count size sep (buf ++ (part ++ sep)) parts
    else if size < count (part ++ sep) then (part ++ sep) :: handedOn count size sep [] parts
    else handedOn count size sep (part ++ sep) parts

structure Kept (text out : Text) (exact : Prop) : Prop where
  sublist : (inked text).Sublist (inked out)
  iff : inked out = inked text ↔ exact

theorem Kept.append {text text' out out' : Text} {exact exact' : Prop} (h : Kept text out exact)
    (h' : Kept text' out' exact') : Kept (text ++ text') (out ++ out') (exact ∧ exact') := by
  refine ⟨?_, ?_⟩
  · rw [inked_append, inked_append]
    exact h.sublist.append h'.sublist
  · rw [inked_append, inked_append, ← h.iff, ← h'.iff]
    constructor
    · intro heq
      -- neither part is shorter than what it keeps
      have hlen := congrArg List.length heq
      rw [List.length_append, List.length_append] at hlen
      have hle := h.sublist.length_le
      have hle' := h'.sublist.length_le
      exact ⟨(h.sublist.eq_of_length (by omega)).symm, (h'.sublist.eq_of_length (by omega)).symm⟩
    · rintro ⟨heq, heq'⟩
      rw [heq, heq']

theorem Kept.of_eq {text out : Text} (h : inked out = inked text) : Kept text out True := by
  refine ⟨?_, iff_true_intro h⟩
  rw [h]

theorem Kept.congr {text out : Text} {exact exact' : Prop} (h : Kept text out exact) (hiff : exact ↔ exact') :
    Kept text out exact' := ⟨h.sublist, h.iff.trans hiff⟩

theorem Kept.drop_separator {text sep out : Text} {exact : Prop} (h : Kept (text ++ sep) out exact) :
    Kept text out (inked sep = [] ∧ exact) := by
  have hsub := h.sublist
  rw [inked_append] at hsub
  refine ⟨(List.sublist_append_left _ _).trans hsub, ?_⟩
  rw [← h.iff, inked_append]
  constructor
  · intro heq
    rw [heq] at hsub ⊢
    have hle := hsub.length_le
    rw [List.length_append] at hle
    have hnil : inked sep = [] := List.eq_nil_of_length_eq_zero (by omega)
    exact ⟨hnil, by rw [hnil, List.append_nil]⟩
  · rintro ⟨hnil, heq⟩
    rw [heq, hnil, List.append_nil]

/-- **The gathering** keeps what it is given, as far as the finer cuts keep what is handed on to them. -/
theorem mergeParts_kept (count : Text → Nat) (size : Nat) (sep : Text) (finer : Option (Text → List Text)) (good : Text → Prop)
    (hfiner : ∀ cut ∈ finer, ∀ piece, Kept piece (cut piece).flatten (good piece)) : ∀ (parts : List Text) (buf : Text),
    Kept (buf ++ (parts.map (· ++ sep)).flatten) (mergeParts count size sep finer buf parts).flatten
      (finer ≠ none → ∀ piece ∈ handedOn count size sep buf parts, good piece)
  | [], buf => by
    rw [List.map_nil, List.flatten_nil, List.append_nil, mergeParts, handedOn]
    exact (Kept.of_eq (inked_emit buf)).congr ⟨fun _ _ => nofun, fun _ => trivial⟩
  | part :: parts, buf => by
    have hemit : Kept buf (emit buf).flatten True := Kept.of_eq (inked_emit buf)
    rw [List.map_cons, List.flatten_cons]
    unfold mergeParts handedOn
    dsimp only
    split
    · have hrest := mergeParts_kept count size sep finer good hfiner parts (buf ++ (part ++ sep))
      rwa [List.append_assoc] at hrest
    · have hnext := mergeParts_kept count size sep finer good hfiner parts (part ++ sep)
      cases finer with
      | none =>
        rw [List.flatten_append]
        exact (hemit.append hnext).congr ⟨fun _ h => absurd rfl h, fun _ => ⟨trivial, fun h => absurd rfl h⟩⟩
      | some cut =>
        dsimp only
        rw [List.flatten_append]
        split
        · have hrest := mergeParts_kept count size sep (some cut) good hfiner parts []
          rw [List.nil_append] at hrest
          have hpiece := hfiner cut rfl (part ++ sep)
          rw [List.flatten_append]
          refine (hemit.append (hpiece.append hrest)).congr ?_
          simp
        · exact (hemit.append hnext).congr (iff_of_eq (true_and _))

/-! ## what the cuts keep -/

/-- Every separator that the cuts use is blank: the first that occurs in the text, and the first of the finer ones that occurs
in each piece handed on. -/
def Clean (count : Text → Nat) (size : Nat) (last : Text) : List Text → Text → Prop
  | [], _ => inked last = []
  | candidate :: finer, text =>
    if candidate = [] then True
    else if candidate <:+: text then
      inked candidate = [] ∧
        (finer ≠ [] → ∀ piece ∈ handedOn count size candidate [] (splitAt candidate 0 text), Clean count size last finer piece)
    else Clean count size last finer text

/-- **The cuts keep every character**, and add none exactly where the separators used are blank. -/
theorem splitText_kept (count : Text → Nat) (size : Nat) {last : Text} : ∀ (seps : List Text), (last ≠ [] ∨ [] ∈ seps) →
    ∀ text, Kept text (splitText count size last seps text).flatten (Clean count size last seps text)
  | [], hlast, text => by
    have hne : last ≠ [] := hlast.resolve_right (List.not_mem_nil)
    have hmerged := mergeParts_kept count size last none (fun _ => True) nofun (splitAt last 0 text) []
    rw [List.nil_append, splitAt_pieces hne text 0 (Nat.zero_le _), List.drop_zero] at hmerged
    exact hmerged.drop_separator.congr ⟨And.left, fun h => ⟨h, fun hnone => absurd rfl hnone⟩⟩
  | candidate :: finer, hlast, text => by
    unfold splitText Clean
    split
    · have hmerged := mergeParts_kept count size [] none (fun _ => True) nofun (text.map (fun c => [c])) []
      rw [List.nil_append, List.map_map] at hmerged
      have hsame : text.map ((· ++ []) ∘ fun c => [c]) = text.map (fun c => [c]) := rfl
      rw [hsame, singletons_flatten] at hmerged
      exact hmerged.congr ⟨fun _ => trivial, fun _ hnone => absurd rfl hnone⟩
    · rename_i hne
      have hfiner : last ≠ [] ∨ [] ∈ finer := by
        refine hlast.imp_right (fun hmem => ?_)
        rcases List.mem_cons.1 hmem with h | h
        · exact absurd h.symm hne
        · exact h
      have ih := splitText_kept count size finer hfiner
      split
      · have hmerged := mergeParts_kept count size candidate
          (if finer = [] then none else some (splitText count size last finer)) (Clean count size last finer)
          (fun cut hcut => by
            split at hcut
            · cases hcut
            · rw [Option.mem_def, Option.some_inj] at hcut
              exact hcut ▸ ih) (splitAt candidate 0 text) []
        rw [List.nil_append, splitAt_pieces hne text 0 (Nat.zero_le _), List.drop_zero] at hmerged
        refine hmerged.drop_separator.congr (and_congr_right (fun _ => imp_congr_left ?_))
        split <;> simp_all
      · exact ih text

/-! ## sections -/

theorem inked_sections (text : Text) : ∀ (starts : List Nat) (first : Nat), (first :: starts).Pairwise (· < ·) →
    inked (sectionsFrom text (first :: starts)).flatten = inked (text.drop first)
  | [], first, _ => by rw [sectionsFrom, List.flatten_singleton, inked_strip]
  | next :: starts, first, h => by
    obtain ⟨hfirst, hrest⟩ := List.pairwise_cons.1 h
    have hlt := hfirst next List.mem_cons_self
    have hsplit : text.drop first = slice text first next ++ text.drop next := by
      have hdrop : text.drop next = (text.drop first).drop (next - first) := by
        rw [List.drop_drop]
        congr 1
        omega
      rw [hdrop, slice, List.take_append_drop]
    rw [sectionsFrom, List.flatten_cons, inked_append, inked_strip, inked_sections text starts next hrest, hsplit,
      inked_append]

theorem flatten_filter_ne_nil (l : List Text) : (l.filter (fun c => decide (c ≠ []))).flatten = l.flatten := by
  induction l with
  | nil => rfl
  | cons c l ih =>
    by_cases hc : c = []
    · rw [hc, List.filter_cons_of_neg (by simp), ih, List.flatten_cons, List.nil_append]
    · rw [List.filter_cons_of_pos (by simpa using hc), List.flatten_cons, List.flatten_cons, ih]

theorem inked_splitMarkdownSections (text : Text) (h : splitMarkdownSections text ≠ []) :
    inked (splitMarkdownSections text).flatten = inked text := by
  obtain ⟨-, hincreasing⟩ := Regex.findIter_spec headingRe text
  have hstarts := List.pairwise_map.2 hincreasing
  unfold splitMarkdownSections at h ⊢
  split at h
  · rename_i first next starts heq
    rw [heq] at hstarts
    rw [flatten_filter_ne_nil, List.flatten_append, inked_append, inked_sections text (next :: starts) first hstarts]
    have hsplit := inked_append (text.take first) (text.drop first)
    rw [List.take_append_drop] at hsplit
    rw [hsplit, preamble]
    split
    · rw [inked_emit]
    · rename_i hzero
      obtain rfl : first = 0 := by omega
      rfl
  · exact absurd rfl h

/-! ## the whole split -/

theorem inked_filter_blank (l : List Text) : inked (l.filter (fun c => decide (strip c ≠ []))).flatten = inked l.flatten := by
  induction l with
  | nil => rfl
  | cons c l ih =>
    by_cases hc : strip c = []
    · have hblank : inked c = [] := by
        rw [← inked_strip, hc]
        rfl
      rw [List.filter_cons_of_neg (by simpa using hc), ih, List.flatten_cons, inked_append, hblank, List.nil_append]
    · rw [List.filter_cons_of_pos (by simpa using hc), List.flatten_cons, List.flatten_cons, inked_append, inked_append, ih]

namespace RecursiveTextSplitter

variable (s : RecursiveTextSplitter τ)

def CleanText (seps : List Text) (hseps : seps ≠ []) (text : Text) : Prop :=
  Clean s.countTokens s.chunkSize (seps.getLast hseps) seps text

def CleanSplit (seps : List Text) (hseps : seps ≠ []) (text : Text) : Prop :=
  if splitMarkdownSections text = [] then s.CleanText seps hseps text
  else ∀ sec ∈ splitMarkdownSections text, s.chunkSize < s.countTokens sec → s.CleanText seps hseps sec

theorem cutText_kept (seps : List Text) (hseps : seps ≠ []) (text : Text) :
    Kept text (s.cutText seps hseps text).flatten (s.CleanText seps hseps text) := by
  refine splitText_kept s.countTokens s.chunkSize seps ?_ text
  by_cases hlast : seps.getLast hseps = []
  · exact .inr (hlast ▸ List.getLast_mem hseps)
  · exact .inl hlast

theorem splitOversized_kept (seps : List Text) (hseps : seps ≠ []) (text : Text) :
    Kept text (s.splitOversized seps hseps text).flatten
      (s.chunkSize < s.countTokens text → s.CleanText seps hseps text) := by
  unfold splitOversized
  split
  · rename_i hfits
    rw [List.flatten_singleton]
    exact (Kept.of_eq rfl).congr ⟨fun _ hlong => absurd hlong (Nat.not_lt.2 hfits), fun _ => trivial⟩
  · rename_i hlong
    have hkept := s.cutText_kept seps hseps text
    refine ⟨?_, ?_⟩
    · rw [inked_filter_blank]
      exact hkept.sublist
    · rw [inked_filter_blank, hkept.iff]
      exact ⟨fun h _ => h, fun h => h (Nat.lt_of_not_le hlong)⟩

theorem sections_kept (seps : List Text) (hseps : seps ≠ []) : ∀ (sections : List Text),
    Kept sections.flatten (sections.flatMap (s.splitOversized seps hseps)).flatten
      (∀ sec ∈ sections, s.chunkSize < s.countTokens sec → s.CleanText seps hseps sec)
  | [] => (Kept.of_eq rfl).congr ⟨fun _ => nofun, fun _ => trivial⟩
  | sec :: sections => by
    rw [List.flatten_cons, List.flatMap_cons, List.flatten_append]
    refine ((s.splitOversized_kept seps hseps sec).append (sections_kept seps hseps sections)).congr ?_
    rw [List.forall_mem_cons]

theorem inked_blank {text : Text} (h : strip text = []) : inked text = [] := by
  rw [← inked_strip, h]
  rfl

/-- **The split preserves content** exactly where every separator it uses is blank. -/
theorem splitWith_inked_iff (h : s.chunkOverlap = 0) (seps : List Text) (hseps : seps ≠ []) (text : Text) :
    inked (s.splitWith seps hseps text).flatten = inked text ↔ strip text = [] ∨ s.CleanSplit seps hseps text := by
  have hplain : ∀ parts, s.overlapped parts = parts := fun parts => if_neg (fun hboth => hboth.1 h)
  unfold splitWith CleanSplit
  split
  · rename_i hblank
    rw [List.flatten_nil, inked_blank hblank]
    exact ⟨fun _ => .inl hblank, fun _ => rfl⟩
  · rename_i hblank
    rw [inked_filter_blank, or_iff_right hblank]
    split
    · rw [hplain]
      exact (s.cutText_kept seps hseps text).iff
    · rename_i hsections
      simp only [hplain]
      have hkept := s.sections_kept seps hseps (splitMarkdownSections text)
      rw [← inked_splitMarkdownSections text hsections]
      exact hkept.iff

end RecursiveTextSplitter

def plainSplitter : RecursiveTextSplitter Nat := .init none 500 0 none none

/-- The full stop of the separator is put behind the last sentence too. -/
theorem full_stop_added :
    inked (plainSplitter.split "Hello. World".toList).flatten ≠ inked "Hello. World".toList := by
  decide +kernel

theorem splitWith_inked_iff_words : inked (plainSplitter.splitWith [" ".toList, []] (by decide) "Hello World".toList).flatten =
      inked "Hello World".toList ↔
    strip "Hello World".toList = [] ∨ plainSplitter.CleanSplit [" ".toList, []] (by decide) "Hello World".toList :=
  RecursiveTextSplitter.splitWith_inked_iff plainSplitter rfl _ _ _

end Rag
end MyGpt
