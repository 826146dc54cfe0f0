import MyGpt.TextSplitter
/-!
# ChunkBounds — how many tokens a chunk has

A counter that counts no part of a text higher than the text, and a character as no more than a chunk, bounds every chunk
before the overlap is put before it (`splitText_le`).  With the overlap a chunk is the tail of a bounded one and a bounded
one: what the two count together is up to the counter (`split_bounded`).
-/
namespace MyGpt
namespace Rag

open Chat (Text isSpace strip)

variable {τ : Type}

theorem strip_within (text : Text) : strip text <:+: text := by
  have hright : (strip text) <+: text.dropWhile isSpace := by
    unfold strip
    rw [← List.reverse_suffix, List.reverse_reverse]
    exact List.dropWhile_suffix isSpace
  exact hright.isInfix.trans (List.dropWhile_suffix isSpace).isInfix

section Counter

variable {count : Text → Nat} {size : Nat} (hmono : ∀ part text, part <:+: text → count part ≤ count text)
include hmono

theorem emit_le {buf : Text} (h : count buf ≤ size) : ∀ chunk ∈ emit buf, count chunk ≤ size := by
  intro chunk hchunk
  unfold emit at hchunk
  split at hchunk
  · cases hchunk
  · rw [List.mem_singleton.1 hchunk]
    exact Nat.le_trans (hmono _ _ (strip_within buf)) h

theorem mergeParts_le {sep : Text} {finer : Option (Text → List Text)}
    (hfiner : ∀ cut ∈ finer, ∀ piece, ∀ chunk ∈ cut piece, count chunk ≤ size) : ∀ (parts : List Text) (buf : Text),
    count buf ≤ size → (finer = none → ∀ part ∈ parts, count (part ++ sep) ≤ size) →
    ∀ chunk ∈ mergeParts count size sep finer buf parts, count chunk ≤ size
  | [], buf, hbuf, _ => by
    unfold mergeParts
    exact emit_le hmono hbuf
  | part :: parts, buf, hbuf, hparts => by
    have hlater : finer = none → ∀ p ∈ parts, count (p ++ sep) ≤ size :=
      fun hnone p hp => hparts hnone p (List.mem_cons_of_mem part hp)
    have hempty : count [] ≤ size := Nat.le_trans (hmono [] buf List.nil_infix) hbuf
    unfold mergeParts
    dsimp only
    split
    · rename_i hfits
      exact mergeParts_le hfiner parts _ hfits hlater
    · intro chunk hchunk
      rcases List.mem_append.1 hchunk with hchunk | hchunk
      · exact emit_le hmono hbuf chunk hchunk
      · cases finer with
        | none => exact mergeParts_le hfiner parts _ (hparts rfl part List.mem_cons_self) hlater chunk hchunk
        | some cut =>
          dsimp only at hchunk
          split at hchunk
          · rcases List.mem_append.1 hchunk with hchunk | hchunk
            · exact hfiner cut rfl _ chunk hchunk
            · exact mergeParts_le hfiner parts [] hempty hlater chunk hchunk
          · rename_i hshort
            exact mergeParts_le hfiner parts _ (Nat.le_of_not_lt hshort) hlater chunk hchunk

/-- **Every chunk is within the size**, cut at any separators of which the last resort is the single character. -/
theorem splitText_le (last : Text) (hchar : ∀ c, count [c] ≤ size) : ∀ (seps : List Text), [] ∈ seps → ∀ text,
    ∀ chunk ∈ splitText count size last seps text, count chunk ≤ size
  | [], hmem, _ => by cases hmem
  | candidate :: finer, hmem, text => by
    have hempty : count [] ≤ size := Nat.le_trans (hmono [] ['a'] List.nil_infix) (hchar 'a')
    unfold splitText
    split
    · refine mergeParts_le hmono (fun cut hcut => by cases hcut) _ [] hempty (fun _ part hpart => ?_)
      obtain ⟨c, -, rfl⟩ := List.mem_map.1 hpart
      exact hchar c
    · rename_i hne
      have hfiner : [] ∈ finer := (List.mem_cons.1 hmem).resolve_left (fun h => hne h.symm)
      have ih := splitText_le last hchar finer hfiner
      split
      · rw [if_neg (List.ne_nil_of_mem hfiner)]
        refine mergeParts_le hmono (fun cut hcut => ?_) _ [] hempty (fun hnone => by cases hnone)
        rw [Option.mem_def, Option.some_inj] at hcut
        exact hcut ▸ ih
      · exact ih text

end Counter

/-! ## the overlap -/

theorem mem_withTails {tail : Text → Text} : ∀ {chunks : List Text} {prev chunk : Text}, chunk ∈ withTails tail prev chunks →
    ∃ before ∈ prev :: chunks, ∃ piece ∈ chunks, chunk = tail before ++ piece
  | [], _, _, h => by cases h
  | first :: chunks, prev, chunk, h => by
    rcases List.mem_cons.1 h with rfl | h
    · exact ⟨prev, List.mem_cons_self, first, List.mem_cons_self, rfl⟩
    · obtain ⟨before, hbefore, piece, hpiece, rfl⟩ := mem_withTails h
      exact ⟨before, List.mem_cons_of_mem _ hbefore, piece, List.mem_cons_of_mem _ hpiece, rfl⟩

namespace RecursiveTextSplitter

variable (s : RecursiveTextSplitter τ)

theorem mem_overlapped {parts : List Text} {chunk : Text} (h : chunk ∈ s.overlapped parts) :
    chunk ∈ parts ∨ (s.chunkOverlap ≠ 0 ∧ ∃ before ∈ parts, ∃ piece ∈ parts,
      chunk = takeTailTokens s.encoding before s.chunkOverlap ++ piece) := by
  unfold overlapped at h
  split at h
  · rename_i hoverlap
    cases parts with
    | nil => cases h
    | cons first parts =>
      rcases List.mem_cons.1 h with rfl | h
      · exact .inl List.mem_cons_self
      · obtain ⟨before, hbefore, piece, hpiece, heq⟩ := mem_withTails h
        exact .inr ⟨hoverlap.1, before, hbefore, piece, List.mem_cons_of_mem first hpiece, heq⟩
  · exact .inl h

def Bounded (chunk : Text) : Prop :=
  s.countTokens chunk ≤ s.chunkSize ∨ (s.chunkOverlap ≠ 0 ∧ ∃ before piece, s.countTokens before ≤ s.chunkSize ∧
    s.countTokens piece ≤ s.chunkSize ∧ chunk = takeTailTokens s.encoding before s.chunkOverlap ++ piece)

theorem overlapped_bounded {parts : List Text} (h : ∀ part ∈ parts, s.countTokens part ≤ s.chunkSize) :
    ∀ chunk ∈ s.overlapped parts, s.Bounded chunk := by
  intro chunk hchunk
  rcases s.mem_overlapped hchunk with hpart | ⟨hoverlap, before, hbefore, piece, hpiece, heq⟩
  · exact .inl (h chunk hpart)
  · exact .inr ⟨hoverlap, before, piece, h before hbefore, h piece hpiece, heq⟩

theorem split_pieces (hmono : ∀ part text, part <:+: text → s.countTokens part ≤ s.countTokens text)
    (hchar : ∀ c, s.countTokens [c] ≤ s.chunkSize) (text : Text) : ∀ chunk ∈ s.split text, s.Bounded chunk := by
  have hcut : ∀ text, ∀ chunk ∈ s.cutText separators (by decide) text, s.countTokens chunk ≤ s.chunkSize :=
    splitText_le hmono _ hchar separators (by decide)
  intro chunk hchunk
  unfold split splitWith at hchunk
  split at hchunk
  · cases hchunk
  · dsimp only at hchunk
    have hmem := (List.mem_filter.1 hchunk).1
    split at hmem
    · exact s.overlapped_bounded (hcut text) chunk hmem
    · obtain ⟨sec, -, hsec⟩ := List.mem_flatMap.1 hmem
      refine s.overlapped_bounded (fun part hpart => ?_) chunk hsec
      unfold splitOversized at hpart
      split at hpart
      · rename_i hfits
        rw [List.mem_singleton.1 hpart]
        exact hfits
      · exact hcut sec part (List.mem_filter.1 hpart).1

end RecursiveTextSplitter

/-! ## without an encoding -/

theorem countTokens_none (text : Text) :
    countTokens (none : Option (Encoding τ)) text = if text = [] then 0 else max 1 (text.length / 4) := rfl

theorem countTokens_none_char (c : Char) : countTokens (none : Option (Encoding τ)) [c] = 1 := by
  simp [countTokens_none]

theorem countTokens_none_mono (part text : Text) (h : part <:+: text) :
    countTokens (none : Option (Encoding τ)) part ≤ countTokens (none : Option (Encoding τ)) text := by
  have hle := h.length_le
  rw [countTokens_none, countTokens_none]
  split
  · exact Nat.zero_le _
  · rename_i hne
    have htext : text ≠ [] := by
      rintro rfl
      exact hne (List.infix_nil.1 h)
    rw [if_neg htext]
    omega

theorem takeTailTokens_none (text : Text) (n : Nat) : (takeTailTokens (none : Option (Encoding τ)) text n).length ≤ 4 * n := by
  unfold takeTailTokens
  split
  · exact Nat.zero_le _
  · simp only [lastChars, List.length_drop]
    omega

theorem countTokens_none_tail (before piece : Text) (n : Nat) {size : Nat} (hsize : 1 ≤ size)
    (h : countTokens (none : Option (Encoding τ)) piece ≤ size) :
    countTokens (none : Option (Encoding τ)) (takeTailTokens (none : Option (Encoding τ)) before n ++ piece) ≤ size + n := by
  have htail := takeTailTokens_none (τ := τ) before n
  rw [countTokens_none] at h ⊢
  rw [List.length_append]
  split
  · exact Nat.zero_le _
  · split at h
    · rename_i hnil
      rw [hnil, List.length_nil]
      omega
    · omega

/-! ## the bound -/

/-- **The splitter stays within its bound**: without overlap every chunk is within the size, and with it a chunk is a piece
within the size behind the tail of one.  So it is within the size and the overlap together where the counter counts a text no
higher than its parts and a tail no higher than its tokens, and where there is no encoding. -/
theorem split_bounded (s : RecursiveTextSplitter τ)
    (hmono : ∀ part text, part <:+: text → s.countTokens part ≤ s.countTokens text)
    (hchar : ∀ c, s.countTokens [c] ≤ s.chunkSize) (text : Text) :
    (s.chunkOverlap = 0 → ∀ chunk ∈ s.split text, s.countTokens chunk ≤ s.chunkSize) ∧
    (∀ chunk ∈ s.split text, s.countTokens chunk ≤ s.chunkSize ∨ ∃ before piece, s.countTokens before ≤ s.chunkSize ∧
      s.countTokens piece ≤ s.chunkSize ∧ chunk = takeTailTokens s.encoding before s.chunkOverlap ++ piece) ∧
    (s.encoding = none ∨ ((∀ l r, s.countTokens (l ++ r) ≤ s.countTokens l + s.countTokens r) ∧
        ∀ before, s.countTokens (takeTailTokens s.encoding before s.chunkOverlap) ≤ s.chunkOverlap) →
      ∀ chunk ∈ s.split text, s.countTokens chunk ≤ s.chunkSize + s.chunkOverlap) := by
  have hpieces := s.split_pieces hmono hchar text
  refine ⟨fun hzero chunk hchunk => ?_, fun chunk hchunk => ?_, fun hcounter chunk hchunk => ?_⟩
  · exact (hpieces chunk hchunk).resolve_right (fun hboth => hboth.1 hzero)
  · exact (hpieces chunk hchunk).imp_right And.right
  · rcases hpieces chunk hchunk with hsmall | ⟨-, before, piece, -, hpiece, rfl⟩
    · exact Nat.le_trans hsmall (Nat.le_add_right _ _)
    · rcases hcounter with hnone | ⟨hsum, htail⟩
      · have hone : 1 ≤ s.chunkSize := by
          have hcount := hchar 'a'
          rwa [RecursiveTextSplitter.countTokens, hnone, countTokens_none_char] at hcount
        rw [RecursiveTextSplitter.countTokens, hnone] at hpiece ⊢
        exact countTokens_none_tail before piece s.chunkOverlap hone hpiece
      · have hboth := hsum (takeTailTokens s.encoding before s.chunkOverlap) piece
        have hless := htail before
        omega

/-- The splitter of the settings, when no encoding is at hand. -/
theorem split_bounded_plain : ∃ chunks, (RecursiveTextSplitter.init (none : Option (Encoding Nat)) 500 80 none none).split
      "# A\none. two\n# B\nthree".toList = chunks ∧
    ∀ chunk ∈ chunks,
      (RecursiveTextSplitter.init (none : Option (Encoding Nat)) 500 80 none none).countTokens chunk ≤ 500 + 80 :=
  ⟨_, rfl, (split_bounded (.init none 500 80 none none) countTokens_none_mono
    (fun c => Nat.le_trans (Nat.le_of_eq (countTokens_none_char c)) (by decide)) _).2.2 (.inl rfl)⟩

/-! ## a counter of pairs -/

def pairs : Text → List Text
  | [] => []
  | [a] => [[a]]
  | [a, b] => [[a, b]]
  | [a, b, c] => [[a, b, c]]
  | a :: b :: rest => [a, b] :: pairs rest

def pairEncoding : Encoding Text := ⟨fun text => some (pairs text), fun tokens => some tokens.flatten⟩

def pairSplitter : RecursiveTextSplitter Text := ⟨some pairEncoding, 2, 1⟩

theorem length_pairs : ∀ text : Text, (pairs text).length = if text.length = 1 then 1 else text.length / 2
  | [] => rfl
  | [_] => rfl
  | [_, _] => by simp [pairs]
  | [_, _, _] => by simp [pairs]
  | a :: b :: c :: d :: rest => by
    have hrest := length_pairs (c :: d :: rest)
    simp only [pairs, List.length_cons] at hrest ⊢
    rw [hrest]
    split <;> split <;> omega

/-- A chunk of two tokens behind the last token of another: four tokens, where two and one are allowed. -/
theorem overlap_beyond_bound :
    (∀ part text, part <:+: text → pairSplitter.countTokens part ≤ pairSplitter.countTokens text) ∧
      (∀ c, pairSplitter.countTokens [c] ≤ pairSplitter.chunkSize) ∧
      ∃ chunk ∈ pairSplitter.split "abcdefghij".toList,
        pairSplitter.chunkSize + pairSplitter.chunkOverlap < pairSplitter.countTokens chunk := by
  have hcount : ∀ text, pairSplitter.countTokens text = if text.length = 1 then 1 else text.length / 2 := by
    intro text
    rw [← length_pairs]
    cases text <;> rfl
  refine ⟨fun part text h => ?_, fun c => ?_, "cdefghij".toList, by decide +kernel, by decide +kernel⟩
  · have hle := h.length_le
    rw [hcount, hcount]
    split <;> split <;> omega
  · rw [hcount, if_pos (List.length_singleton ..)]
    decide

end Rag
end MyGpt
