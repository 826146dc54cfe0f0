import MyGpt.AnswerClaims
import MyGpt.Lib.Joins
import MyGpt.Lib.Spans
/-!
# ClaimSpans — what the splitting of claims covers, and what their removal leaves

The claims of an answer stand in order and apart, each begins with a character that is no blank, and none is in fenced code
(`splitClaimSpans_spec`).  Claims removed by place leave every character that is in none of them; the clean-up after it takes
out blanks only (`removeClaimSpans_spec`).
-/
namespace MyGpt
namespace Rag

open Chat (Text isSpace strip inked inked_append inked_blanks)
open Spans (Ordered covers outside)

/-! ## sentences -/

theorem sentenceSpans_ordered : ∀ (body : Text) (start i : Nat) (prev : Option Char) (closing : Bool), start ≤ i →
    (closing = true → start < i) → Ordered start (i + body.length) (sentenceSpans start i prev closing body)
  | [], start, i, prev, closing, hle, _ => by
    unfold sentenceSpans
    split
    · rename_i hlt
      exact Ordered.cons (Nat.le_refl _) hlt (by simp) (Ordered.nil _ _)
    · exact Ordered.nil _ _
  | c :: rest, start, i, prev, closing, hle, hclosing => by
    have hlen : i + (c :: rest).length = i + 1 + rest.length := by
      rw [List.length_cons]
      omega
    rw [hlen]
    unfold sentenceSpans
    split
    · exact sentenceSpans_ordered rest start (i + 1) _ true (by omega) (fun _ => by omega)
    · split
      · rename_i hclosed
        have hrest := sentenceSpans_ordered rest i (i + 1) (some c) (endsSentence prev c rest) (by omega) (fun _ => by omega)
        exact Ordered.cons (Nat.le_refl _) (hclosing hclosed) (by omega) hrest
      · exact sentenceSpans_ordered rest start (i + 1) _ _ (by omega) (fun _ => by omega)

/-! ## lines -/

theorem takeWhile_next {p : Char → Bool} (l : Text) (h : (l.takeWhile p).length < l.length) :
    ∃ c, l[(l.takeWhile p).length]? = some c ∧ p c = false := by
  have hsplit := List.takeWhile_append_dropWhile (p := p) (l := l)
  cases hrest : l.dropWhile p with
  | nil =>
    rw [hrest, List.append_nil] at hsplit
    rw [hsplit] at h
    omega
  | cons c rest =>
    refine ⟨c, ?_, ?_⟩
    · have hget : (l.takeWhile p ++ c :: rest)[(l.takeWhile p).length]? = some c := by
        rw [List.getElem?_append_right (Nat.le_refl _), Nat.sub_self]
        rfl
      rwa [← hrest, hsplit] at hget
    · have hhead := List.head?_dropWhile_not p l
      rw [hrest] at hhead
      simpa using hhead

theorem rstrip_begins (line : Text) : rstrip line <+: line := by
  unfold rstrip
  rw [← List.reverse_suffix, List.reverse_reverse]
  exact List.dropWhile_suffix isSpace

theorem body_get (rawLine : Text) (start i : Nat) :
    ((rawLine.drop start).dropWhile isSpace)[i]? = rawLine[start + ((rawLine.drop start).takeWhile isSpace).length + i]? := by
  rw [Nat.add_assoc, ← List.getElem?_drop]
  generalize rawLine.drop start = text
  have hsplit := List.takeWhile_append_dropWhile (p := isSpace) (l := text)
  have hget : (text.takeWhile isSpace ++ text.dropWhile isSpace)[(text.takeWhile isSpace).length + i]? =
      (text.dropWhile isSpace)[i]? := by
    rw [List.getElem?_append_right (Nat.le_add_right _ _), Nat.add_sub_cancel_left]
  rw [← hget, hsplit]

theorem lineSpans_spec (lineStart : Nat) (rawLine : Text) :
    Ordered lineStart (lineStart + rawLine.length) (lineSpans lineStart rawLine) ∧
      ∀ p ∈ lineSpans lineStart rawLine, ∃ c, rawLine[p.1 - lineStart]? = some c ∧ isSpace c = false := by
  have hget := body_get rawLine (mdPrefixLength rawLine)
  have hhead := List.head?_dropWhile_not isSpace (rawLine.drop (mdPrefixLength rawLine))
  unfold lineSpans
  dsimp only
  generalize mdPrefixLength rawLine + ((rawLine.drop (mdPrefixLength rawLine)).takeWhile isSpace).length = base at hget ⊢
  generalize (rawLine.drop (mdPrefixLength rawLine)).dropWhile isSpace = body at hget hhead ⊢
  split
  · exact ⟨Ordered.nil _ _, nofun⟩
  rename_i hbody
  have hpos : 0 < body.length := List.length_pos_iff.2 hbody
  have hlen : base + body.length ≤ rawLine.length := by
    have hlast := hget (body.length - 1)
    rw [List.getElem?_eq_getElem (by omega)] at hlast
    have hlt := (List.getElem?_eq_some_iff.1 hlast.symm).1
    omega
  split
  · have hlo : lineStart ≤ lineStart + base := Nat.le_add_right _ _
    refine ⟨Ordered.cons hlo (by omega) (by omega) (Ordered.nil _ _), fun p hp => ?_⟩
    rw [List.mem_singleton] at hp
    subst hp
    have hplace : lineStart + base - lineStart = base + 0 := by omega
    rw [hplace, ← hget 0, List.getElem?_eq_getElem hpos]
    refine ⟨_, rfl, ?_⟩
    cases body with
    | nil => exact absurd rfl hbody
    | cons c rest => simpa using hhead
  · have hsentences := sentenceSpans_ordered body 0 0 none false (Nat.le_refl 0) nofun
    rw [Nat.zero_add] at hsentences
    -- a piece is narrowed to what its blanks leave of it
    have hpiece : ∀ p ∈ sentenceSpans 0 0 none false body, ∀ q,
        (let piece := (body.take p.2).drop p.1
        let ls := (piece.takeWhile isSpace).length
        let rs := (rstrip piece).length
        if rs ≤ ls then none else some (lineStart + base + p.1 + ls, lineStart + base + p.1 + rs)) = some q →
        (lineStart + base + p.1 ≤ q.1 ∧ q.1 < q.2 ∧ q.2 ≤ lineStart + base + p.2) ∧
          ∃ c, rawLine[q.1 - lineStart]? = some c ∧ isSpace c = false := by
      intro p hp q hq
      dsimp only at hq
      split at hq
      · cases hq
      rename_i hkept
      rw [Option.some_inj] at hq
      subst hq
      obtain ⟨-, hlt, hhi⟩ := hsentences.inside p hp
      have hlength : ((body.take p.2).drop p.1).length = p.2 - p.1 := by
        rw [List.length_drop, List.length_take]
        omega
      have hrs := (rstrip_begins ((body.take p.2).drop p.1)).length_le
      obtain ⟨c, hc, hspace⟩ := takeWhile_next (p := isSpace) ((body.take p.2).drop p.1) (by omega)
      refine ⟨⟨by omega, by omega, by omega⟩, c, ?_, hspace⟩
      rw [List.getElem?_drop, List.getElem?_take_of_lt (by omega), hget] at hc
      rw [← hc]
      congr 1
      omega
    constructor
    · have hshrunk := hsentences.filterMap (lineStart + base) _ (fun p hp q hq => (hpiece p hp q hq).1)
      exact hshrunk.mono (by omega) (by omega)
    · intro q hq
      obtain ⟨p, hp, hpq⟩ := List.mem_filterMap.1 hq
      exact (hpiece p hp q hpq).2

/-! ## fences -/

def fenceLine (rawLine : Text) : Bool := isFence (rstrip rawLine)

def InFence (text : Text) (i : Nat) : Prop :=
  ∃ k line, (text.splitOn '\n')[k]? = some line ∧ Joins.offset 1 (text.splitOn '\n') k ≤ i ∧
    i ≤ Joins.offset 1 (text.splitOn '\n') k + line.length ∧
    (fenceLine line = true ∨ ((text.splitOn '\n').take k).countP fenceLine % 2 = 1)

theorem splitLines_spec : ∀ (lines : List Text) (offset : Nat) (inFence : Bool),
    Ordered offset (offset + Joins.offset 1 lines lines.length) (splitLines offset inFence lines) ∧
      ∀ p ∈ splitLines offset inFence lines, ∃ k l, lines[k]? = some l ∧ fenceLine l = false ∧
        (inFence.toNat + (lines.take k).countP fenceLine) % 2 = 0 ∧ offset + Joins.offset 1 lines k ≤ p.1 ∧
        p.2 ≤ offset + Joins.offset 1 lines k + l.length ∧
        ∃ c, l[p.1 - (offset + Joins.offset 1 lines k)]? = some c ∧ isSpace c = false
  | [], offset, inFence => by
    exact ⟨Ordered.nil _ _, nofun⟩
  | rawLine :: lines, offset, inFence => by
    have hsum : offset + Joins.offset 1 (rawLine :: lines) (rawLine :: lines).length =
        offset + rawLine.length + 1 + Joins.offset 1 lines lines.length := by
      rw [List.length_cons, Joins.offset_cons_succ]
      omega
    have hlater : ∀ fence : Bool, fence.toNat % 2 = (inFence.toNat + (fenceLine rawLine).toNat) % 2 →
        Ordered offset (offset + Joins.offset 1 (rawLine :: lines) (rawLine :: lines).length)
            (splitLines (offset + rawLine.length + 1) fence lines) ∧
          ∀ p ∈ splitLines (offset + rawLine.length + 1) fence lines, ∃ k l, (rawLine :: lines)[k]? = some l ∧
            fenceLine l = false ∧ (inFence.toNat + ((rawLine :: lines).take k).countP fenceLine) % 2 = 0 ∧
            offset + Joins.offset 1 (rawLine :: lines) k ≤ p.1 ∧
            p.2 ≤ offset + Joins.offset 1 (rawLine :: lines) k + l.length ∧
            ∃ c, l[p.1 - (offset + Joins.offset 1 (rawLine :: lines) k)]? = some c ∧ isSpace c = false := by
      intro fence hfence
      obtain ⟨hordered, hmem⟩ := splitLines_spec lines (offset + rawLine.length + 1) fence
      refine ⟨hordered.mono (by omega) (by omega), fun p hp => ?_⟩
      obtain ⟨k, line, hline, hnot, hparity, hlo, hhi, c, hc, hspace⟩ := hmem p hp
      have hoffset : offset + Joins.offset 1 (rawLine :: lines) (k + 1) =
          offset + rawLine.length + 1 + Joins.offset 1 lines k := by
        rw [Joins.offset_cons_succ]
        omega
      refine ⟨k + 1, line, hline, hnot, ?_, by rw [hoffset]; exact hlo, by rw [hoffset]; exact hhi, c,
        by rw [hoffset]; exact hc, hspace⟩
      rw [List.take_succ_cons, List.countP_cons]
      cases hraw : fenceLine rawLine <;> rw [hraw] at hfence <;> simp at hfence ⊢ <;> omega
    unfold splitLines
    dsimp only
    split
    · rename_i hfence
      have hraw : fenceLine rawLine = true := hfence
      refine hlater (!inFence) ?_
      rw [hraw]
      cases inFence <;> rfl
    rename_i hfence
    have hraw : fenceLine rawLine = false := (Bool.not_eq_true _).mp hfence
    have hsame := hlater inFence (by rw [hraw]; rfl)
    split
    · exact hsame
    · rename_i hopen
      have hclosed : inFence = false := by
        cases hin : inFence
        · rfl
        · simp [hin] at hopen
      obtain ⟨hline, hhere⟩ := lineSpans_spec offset (rstrip rawLine)
      have hle := (rstrip_begins rawLine).length_le
      obtain ⟨hordered, -⟩ := splitLines_spec lines (offset + rawLine.length + 1) inFence
      constructor
      · rw [hsum]
        exact (hline.mono (Nat.le_refl _) (by omega)).append hordered (by omega) (by omega)
      · intro p hp
        rcases List.mem_append.1 hp with hp | hp
        · obtain ⟨hlo, -, hhi⟩ := hline.inside p hp
          obtain ⟨c, hc, hspace⟩ := hhere p hp
          refine ⟨0, rawLine, rfl, hraw, by rw [hclosed]; rfl, by simpa using hlo, ?_, c, ?_, hspace⟩
          · rw [Joins.offset_zero]
            omega
          · obtain ⟨more, hmore⟩ := rstrip_begins rawLine
            rw [Joins.offset_zero, Nat.add_zero, ← hmore, List.getElem?_append_left (List.getElem?_eq_some_iff.1 hc).1]
            exact hc
        · exact hsame.2 p hp

theorem line_get {text l : Text} {k i : Nat} (hline : (text.splitOn '\n')[k]? = some l) (hi : i < l.length) :
    text[Joins.offset 1 (text.splitOn '\n') k + i]? = l[i]? := by
  have hjoin : ['\n'].intercalate (text.splitOn '\n') = text := List.intercalate_splitOn '\n'
  obtain ⟨hslice, -⟩ := Joins.slice_join ['\n'] hline
  rw [hjoin, List.length_singleton] at hslice
  conv_rhs => rw [← hslice]
  rw [Joins.slice, List.getElem?_take_of_lt (by omega), List.getElem?_drop]

theorem line_unique {lines : List Text} {j k i : Nat} {line other : Text} (hline : lines[k]? = some line)
    (hother : lines[j]? = some other) (hlo : Joins.offset 1 lines k ≤ i) (hhi : i ≤ Joins.offset 1 lines k + line.length)
    (hlo' : Joins.offset 1 lines j ≤ i) (hhi' : i ≤ Joins.offset 1 lines j + other.length) : j = k := by
  have hk := Joins.offset_succ (w := 1) hline
  have hj := Joins.offset_succ (w := 1) hother
  rcases Nat.lt_trichotomy j k with hlt | heq | hgt
  · have hle : Joins.offset 1 lines (j + 1) ≤ Joins.offset 1 lines k := Joins.offset_le 1 lines hlt
    omega
  · exact heq
  · have hle : Joins.offset 1 lines (k + 1) ≤ Joins.offset 1 lines j := Joins.offset_le 1 lines hgt
    omega

/-- **The claims of an answer**: in order and apart, within it, none blank, none in fenced code. -/
theorem splitClaimSpans_spec (answer : Text) : Ordered 0 answer.length (splitClaimSpans answer) ∧
    ∀ p ∈ splitClaimSpans answer, (∃ c, answer[p.1]? = some c ∧ isSpace c = false) ∧
      ∀ i, p.1 ≤ i → i < p.2 → ¬ InFence answer i := by
  unfold splitClaimSpans
  split
  · exact ⟨Ordered.nil _ _, nofun⟩
  obtain ⟨hordered, hmem⟩ := splitLines_spec (answer.splitOn '\n') 0 false
  have hplace : ∀ p ∈ splitLines 0 false (answer.splitOn '\n'), p.2 ≤ answer.length ∧
      (∃ c, answer[p.1]? = some c ∧ isSpace c = false) ∧ ∀ i, p.1 ≤ i → i < p.2 → ¬ InFence answer i := by
    intro p hp
    obtain ⟨k, line, hline, hnot, hparity, hlo, hhi, c, hc, hspace⟩ := hmem p hp
    rw [Nat.zero_add] at hlo hhi hc
    have hin := (List.getElem?_eq_some_iff.1 hc).1
    refine ⟨?_, ⟨c, ?_, hspace⟩, ?_⟩
    · have hend := (Joins.slice_join ['\n'] hline).2
      rw [List.intercalate_splitOn '\n', List.length_singleton] at hend
      omega
    · rw [← hc, ← line_get hline hin, Nat.add_sub_cancel' hlo]
    · rintro i h1 h2 ⟨j, other, hother, hlo', hhi', hfence⟩
      have hjk := line_unique hline hother (by omega) (by omega) hlo' hhi'
      subst hjk
      rw [hline, Option.some_inj] at hother
      subst hother
      rcases hfence with hfence | hfence
      · rw [hnot] at hfence
        exact absurd hfence Bool.false_ne_true
      · rw [Bool.toNat_false, Nat.zero_add] at hparity
        omega
  refine ⟨⟨hordered.apart, fun p hp => ?_⟩, fun p hp => (hplace p hp).2⟩
  obtain ⟨hlo, hlt, -⟩ := hordered.inside p hp
  exact ⟨hlo, hlt, (hplace p hp).1⟩

/-! ## removal -/

theorem sorted_reverse {lo hi : Nat} {spans : List (Nat × Nat)} (h : Ordered lo hi spans) :
    spans.insertionSort (fun a b => b.1 ≤ a.1) = spans.reverse := by
  have hlater : spans.Pairwise (fun a b => a.1 < b.1) := by
    refine h.apart.imp_of_mem (fun {a b} ha _ hab => ?_)
    have hlt := (h.inside a ha).2.1
    omega
  have htotal : Std.Total (fun a b : Nat × Nat => b.1 ≤ a.1) := ⟨fun a b => Nat.le_total b.1 a.1⟩
  have htrans : IsTrans (Nat × Nat) (fun a b => b.1 ≤ a.1) := ⟨fun a b c hab hbc => Nat.le_trans hbc hab⟩
  have hsorted := List.pairwise_insertionSort (fun a b : Nat × Nat => b.1 ≤ a.1) spans
  have hreversed : spans.reverse.Pairwise (fun a b => b.1 ≤ a.1) :=
    (List.pairwise_reverse.2 (hlater.imp (fun hab => Nat.le_of_lt hab)))
  have hperm : (spans.insertionSort (fun a b => b.1 ≤ a.1)).Perm spans.reverse :=
    (List.perm_insertionSort _ _).trans spans.reverse_perm.symm
  refine List.Perm.eq_of_pairwise (fun a b ha hb hab hba => ?_) hsorted hreversed hperm
  -- two spans that begin at one place are one
  have ha : a ∈ spans := (List.mem_insertionSort _).1 ha
  have hb : b ∈ spans := List.mem_reverse.1 hb
  by_contra hne
  have hsymm : Std.Symm (fun x y : Nat × Nat => x.1 ≠ y.1) := ⟨fun _ _ hxy => hxy.symm⟩
  have hapart : spans.Pairwise (fun x y => x.1 ≠ y.1) := hlater.imp (fun hxy => Nat.ne_of_lt hxy)
  exact hapart.forall ha hb hne (Nat.le_antisymm hba hab)

theorem foldr_cutSpan {lo hi : Nat} {spans : List (Nat × Nat)} {answer : Text} (h : Ordered lo hi spans)
    (hle : hi ≤ answer.length) : spans.foldr (fun p text => cutSpan text p) answer = outside spans 0 answer := by
  induction spans generalizing lo with
  | nil => rw [Spans.outside_nil, List.foldr_nil]
  | cons p spans ih =>
    obtain ⟨-, hlt, hhi⟩ := h.inside p List.mem_cons_self
    have hlong := Spans.length_outside_ge (l := answer) h.tail (by omega)
    rw [List.foldr_cons, ih h.tail, cutSpan, if_pos ⟨hlt, hlong⟩]
    exact Spans.cut_outside h hle

/-! ## the clean-up -/

theorem dropTrailingBlanks_sublist : ∀ (text run : Text), (dropTrailingBlanks run text).Sublist (run ++ text)
  | [], run => by rw [dropTrailingBlanks, List.append_nil]
  | c :: rest, run => by
    unfold dropTrailingBlanks
    split
    · have hrest := dropTrailingBlanks_sublist rest (run ++ [c])
      rwa [List.append_assoc, List.singleton_append] at hrest
    · split
      · rename_i hc
        have hrest := dropTrailingBlanks_sublist rest []
        rw [hc]
        exact (hrest.cons_cons '\n').trans (List.sublist_append_right _ _)
      · exact (List.Sublist.refl run).append ((dropTrailingBlanks_sublist rest []).cons_cons c)

theorem collapseNewlines_sublist : ∀ (text : Text) (seen : Nat), (collapseNewlines seen text).Sublist text
  | [], _ => List.Sublist.refl _
  | c :: rest, seen => by
    unfold collapseNewlines
    split
    · rename_i hc
      subst hc
      split
      · exact (collapseNewlines_sublist rest (seen + 1)).cons_cons '\n'
      · exact (collapseNewlines_sublist rest (seen + 1)).cons '\n'
    · exact (collapseNewlines_sublist rest 0).cons_cons c

theorem isSpace_of_isBlank {c : Char} (h : isBlank c = true) : isSpace c = true := by
  simp only [isBlank, Bool.or_eq_true, beq_iff_eq] at h
  rcases h with rfl | rfl <;> decide

theorem inked_dropTrailingBlanks : ∀ (text run : Text), (∀ c ∈ run, isSpace c = true) →
    inked (dropTrailingBlanks run text) = inked text
  | [], run, hrun => by rw [dropTrailingBlanks, inked_blanks hrun]; rfl
  | c :: rest, run, hrun => by
    unfold dropTrailingBlanks
    split
    · rename_i hc
      have hblank : ∀ d ∈ run ++ [c], isSpace d = true := by
        intro d hd
        rcases List.mem_append.1 hd with hd | hd
        · exact hrun d hd
        · rw [List.mem_singleton.1 hd]
          exact isSpace_of_isBlank hc
      rw [inked_dropTrailingBlanks rest _ hblank, inked, inked, List.filter_cons, isSpace_of_isBlank hc]
      rfl
    · have hrest := inked_dropTrailingBlanks rest [] nofun
      split
      · rename_i hc
        subst hc
        exact congrArg (fun text => inked ['\n'] ++ text) hrest
      · have hsplit : c :: rest = [c] ++ rest := rfl
        have hcons : c :: dropTrailingBlanks [] rest = [c] ++ dropTrailingBlanks [] rest := rfl
        rw [inked_append, inked_blanks hrun, List.nil_append, hsplit, hcons, inked_append, inked_append, hrest]

theorem inked_collapseNewlines : ∀ (text : Text) (seen : Nat), inked (collapseNewlines seen text) = inked text
  | [], _ => rfl
  | c :: rest, seen => by
    unfold collapseNewlines
    split
    · rename_i hc
      subst hc
      rw [inked_append, inked_collapseNewlines rest]
      split <;> rfl
    · have hrest := inked_collapseNewlines rest 0
      unfold inked at hrest ⊢
      rw [List.filter_cons, List.filter_cons, hrest]

structure Tidy (text : Text) : Prop where
  trailing : ∀ c, isBlank c = true → ¬ [c, '\n'] <:+: text
  newlines : ¬ ['\n', '\n', '\n'] <:+: text
  ends : strip text = text

theorem dropTrailingBlanks_tidy : ∀ (text run : Text), (∀ c ∈ run, isBlank c = true) →
    (∀ c, isBlank c = true → ¬ [c, '\n'] <:+: run ++ text) → dropTrailingBlanks run text = run ++ text
  | [], run, _, _ => by rw [dropTrailingBlanks, List.append_nil]
  | c :: rest, run, hrun, htidy => by
    unfold dropTrailingBlanks
    have htail : ∀ d, isBlank d = true → ¬ [d, '\n'] <:+: [] ++ rest := by
      intro d hd hin
      rw [List.nil_append] at hin
      exact htidy d hd (hin.trans ((List.suffix_cons c rest).trans (List.suffix_append run _)).isInfix)
    split
    · rename_i hc
      have hsplit : run ++ c :: rest = (run ++ [c]) ++ rest := by simp
      rw [hsplit] at htidy ⊢
      refine dropTrailingBlanks_tidy rest (run ++ [c]) (fun d hd => ?_) htidy
      rcases List.mem_append.1 hd with hd | hd
      · exact hrun d hd
      · rw [List.mem_singleton.1 hd]
        exact hc
    · have hrest := dropTrailingBlanks_tidy rest [] nofun htail
      rw [List.nil_append] at hrest
      split
      · rename_i hc
        subst hc
        rcases List.eq_nil_or_concat run with rfl | ⟨before, d, rfl⟩
        · rw [hrest, List.nil_append]
        · have hd := hrun d (by simp)
          exact absurd ⟨before, rest, by simp⟩ (htidy d hd)
      · rw [hrest]

theorem collapseNewlines_tidy : ∀ (text : Text) (seen : Nat), ¬ ['\n', '\n', '\n'] <:+: List.replicate seen '\n' ++ text →
    collapseNewlines seen text = text
  | [], _, _ => rfl
  | c :: rest, seen, htidy => by
    unfold collapseNewlines
    split
    · rename_i hc
      subst hc
      have hsplit : List.replicate seen '\n' ++ '\n' :: rest = List.replicate (seen + 1) '\n' ++ rest := by
        rw [List.replicate_succ', List.append_assoc, List.singleton_append]
      have hfew : seen < 2 := by
        refine Nat.lt_of_not_le (fun hmany => htidy ?_)
        obtain ⟨more, rfl⟩ := Nat.exists_eq_add_of_le' hmany
        refine ⟨List.replicate more '\n', rest, ?_⟩
        rw [List.replicate_add]
        simp [List.replicate]
      rw [if_pos hfew, collapseNewlines_tidy rest (seen + 1) (hsplit ▸ htidy)]
      rfl
    · refine congrArg (c :: ·) (collapseNewlines_tidy rest 0 (fun hin => htidy ?_))
      exact hin.trans ((List.suffix_cons c rest).trans (List.suffix_append _ _)).isInfix

/-! ## what removal leaves -/

def droppedClaims (answer : Text) (items : List ContextItem) (drop : Claim → Bool) : List Claim :=
  (buildClaims answer items).map (fun c => { c with dropped := drop c })

def outsideClaims (answer : Text) (claims : List Claim) : Text :=
  outside ((claims.filter (·.dropped)).map (·.span)) 0 answer

theorem droppedClaims_ordered (answer : Text) (items : List ContextItem) (drop : Claim → Bool) :
    Ordered 0 answer.length (((droppedClaims answer items drop).filter (·.dropped)).map (·.span)) := by
  refine (splitClaimSpans_spec answer).1.sublist ?_
  have hspans : (droppedClaims answer items drop).map (·.span) = splitClaimSpans answer := by
    rw [droppedClaims, buildClaims, List.map_map, List.map_map]
    exact List.zipIdx_map_fst 0 _
  rw [← hspans]
  exact List.filter_sublist.map _

theorem removeClaimSpans_eq (answer : Text) (items : List ContextItem) (drop : Claim → Bool) :
    removeClaimSpans answer (droppedClaims answer items drop) =
      strip (collapseNewlines 0 (dropTrailingBlanks [] (outsideClaims answer (droppedClaims answer items drop)))) := by
  have hordered := droppedClaims_ordered answer items drop
  unfold removeClaimSpans outsideClaims
  dsimp only
  rw [sorted_reverse hordered, List.foldl_reverse, foldr_cutSpan hordered (Nat.le_refl _)]

/-- **Splitting and removal touch only claims.**  The spans are in order, apart, within the answer, not blank and in no
fenced code.  Whichever of them are dropped, what removal leaves is made of the characters outside of them, in order: all
that are no blank, and all there are where the clean-up has nothing to do. -/
theorem claims_framed (answer : Text) :
    (Ordered 0 answer.length (splitClaimSpans answer) ∧
      ∀ p ∈ splitClaimSpans answer, (∃ c, answer[p.1]? = some c ∧ isSpace c = false) ∧
        ∀ i, p.1 ≤ i → i < p.2 → ¬ InFence answer i) ∧
    ∀ (items : List ContextItem) (drop : Claim → Bool),
      let claims := droppedClaims answer items drop
      (removeClaimSpans answer claims).Sublist (outsideClaims answer claims) ∧
      inked (removeClaimSpans answer claims) = inked (outsideClaims answer claims) ∧
      (Tidy (outsideClaims answer claims) → removeClaimSpans answer claims = outsideClaims answer claims) := by
  refine ⟨splitClaimSpans_spec answer, fun items drop => ?_⟩
  dsimp only
  rw [removeClaimSpans_eq]
  generalize outsideClaims answer (droppedClaims answer items drop) = rest
  refine ⟨?_, ?_, fun htidy => ?_⟩
  · have hblanks := dropTrailingBlanks_sublist rest []
    exact ((Chat.strip_sublist _).trans (collapseNewlines_sublist _ 0)).trans hblanks
  · rw [Chat.inked_strip, inked_collapseNewlines, inked_dropTrailingBlanks rest [] nofun]
  · have hblanks := dropTrailingBlanks_tidy rest [] nofun htidy.trailing
    rw [List.nil_append] at hblanks
    rw [hblanks, collapseNewlines_tidy rest 0 (by simpa using htidy.newlines), htidy.ends]

/-- The blank between a claim that stays and one that goes is in neither, and is cut off. -/
theorem blank_not_kept :
    let answer := ['A', '.', ' ', 'B', '.']
    let claims := droppedClaims answer [] (fun c => c.claimId == 2)
    ¬ (outsideClaims answer claims).Sublist (removeClaimSpans answer claims) := by
  decide +kernel

end Rag
end MyGpt
