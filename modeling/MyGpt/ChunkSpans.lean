import MyGpt.PdfRanges
/-!
# ChunkSpans — where a chunk stands in the text it was cut from

`rag/chunk_meta.py`: a chunk is searched behind the one before it, then in the whole text; one that is nowhere as it is is
searched again in the text without its blanks.  A span is in the text and has the chunk's characters up to blanks; it begins
behind the one before it unless the chunk does not occur there (`offsets_spec`).
-/
namespace MyGpt
namespace Rag

open Chat (Text isSpace inked inked_append inked_blanks)
open Joins (slice)

/-! ## the index -/

/-- `_CompactIndex`: the characters that are no blank, and where each of them stands. -/
structure CompactIndex where
  compact : Text
  positions : List Nat

/-- The characters that are no blank, each with its position, of a text that begins at `n`. -/
def inkedFrom (n : Nat) : Text → List (Char × Nat)
  | [] => []
  | c :: rest => if isSpace c then inkedFrom (n + 1) rest else (c, n) :: inkedFrom (n + 1) rest

/-- `_CompactIndex.__init__`. -/
def CompactIndex.of (text : Text) : CompactIndex := ⟨(inkedFrom 0 text).map (·.1), (inkedFrom 0 text).map (·.2)⟩

/-- `bisect_left`, in a list in order. -/
def bisectLeft (positions : List Nat) (x : Nat) : Nat := (positions.takeWhile (fun i => decide (i < x))).length

def CompactIndex.find (index : CompactIndex) (chunk : Text) (fromChar : Nat) : Option (Nat × Nat) :=
  let needle := inked chunk
  if needle = [] then none
  else
    match (Rag.find index.compact needle (bisectLeft index.positions fromChar)).or (Rag.find index.compact needle 0) with
    | none => none
    | some place => some (index.positions.getD place 0, index.positions.getD (place + needle.length - 1) 0 + 1)

/-- `_offsets`, from a chunk on. -/
def offsetsFrom (text : Text) (cursor : Nat) : List Text → List (Option (Nat × Nat))
  | [] => []
  | chunk :: chunks =>
    if chunk = [] then none :: offsetsFrom text cursor chunks
    else
      -- the tail of the chunk before may be joined to this one: then it is searched in the whole text
      match (find text chunk cursor).or (find text chunk 0) with
      | some start => some (start, start + chunk.length) :: offsetsFrom text (start + 1) chunks
      | none =>
        match (CompactIndex.of text).find chunk cursor with
        | none => none :: offsetsFrom text cursor chunks
        | some span => some span :: offsetsFrom text (span.1 + 1) chunks

def offsets (chunks : List Text) (text : Text) : List (Option (Nat × Nat)) := offsetsFrom text 0 chunks

/-! ## search -/

theorem find_none {text sub : Text} {start : Nat} (hne : sub ≠ []) (h : find text sub start = none) :
    ∀ i, start ≤ i → ¬ sub <+: text.drop i := by
  intro i hi hpre
  have hlen := hpre.length_le
  have hpos : 0 < sub.length := List.length_pos_iff.2 hne
  rw [List.length_drop] at hlen
  have hnot := List.find?_eq_none.1 h i (List.mem_range.2 (by omega))
  exact hnot (by simpa using ⟨hi, hpre⟩)

theorem find_ge {text sub : Text} {start position : Nat} (h : find text sub start = some position) : start ≤ position := by
  have hfound := List.find?_some h
  simp only [Bool.and_eq_true, decide_eq_true_eq] at hfound
  exact hfound.1

theorem find_begins {text sub : Text} {start position : Nat} (h : find text sub start = some position) :
    sub <+: text.drop position := by
  have hfound := List.find?_some h
  simp only [Bool.and_eq_true, List.isPrefixOf_iff_prefix] at hfound
  exact hfound.2

/-! ## the text without its blanks -/

theorem inked_cons (c : Char) (rest : Text) : inked (c :: rest) = if isSpace c then inked rest else c :: inked rest := by
  unfold inked
  rw [List.filter_cons]
  cases isSpace c <;> rfl

theorem inkedFrom_fst (text : Text) (n : Nat) : (inkedFrom n text).map (·.1) = inked text := by
  induction text generalizing n with
  | nil => rfl
  | cons c rest ih =>
    unfold inkedFrom
    rw [inked_cons]
    split
    · exact ih (n + 1)
    · rw [List.map_cons, ih (n + 1)]

theorem length_positions (text : Text) : (CompactIndex.of text).positions.length = (inked text).length := by
  rw [CompactIndex.of, List.length_map, ← inkedFrom_fst text 0, List.length_map]

theorem inkedFrom_get : ∀ (text : Text) (n k i : Nat), ((inkedFrom n text).map (·.2))[k]? = some i →
    ∃ j, i = n + j ∧ j < text.length ∧ inked (text.take j) = (inked text).take k ∧
      inked (text.take (j + 1)) = (inked text).take (k + 1)
  | [], _, _, _, h => by simp [inkedFrom] at h
  | c :: rest, n, k, i, h => by
    unfold inkedFrom at h
    split at h
    · rename_i hc
      obtain ⟨j, hi, hj, htake, hnext⟩ := inkedFrom_get rest (n + 1) k i h
      refine ⟨j + 1, by omega, Nat.succ_lt_succ hj, ?_, ?_⟩
      · rw [List.take_succ_cons, inked_cons, inked_cons, if_pos hc, if_pos hc, htake]
      · rw [List.take_succ_cons, inked_cons, inked_cons, if_pos hc, if_pos hc, hnext]
    · rename_i hc
      rw [List.map_cons] at h
      cases k with
      | zero =>
        rw [List.getElem?_cons_zero, Option.some_inj] at h
        refine ⟨0, h.symm, Nat.zero_lt_succ _, rfl, ?_⟩
        rw [List.take_succ_cons, inked_cons, inked_cons, if_neg hc, if_neg hc, List.take_succ_cons]
        rfl
      | succ k =>
        rw [List.getElem?_cons_succ] at h
        obtain ⟨j, hi, hj, htake, hnext⟩ := inkedFrom_get rest (n + 1) k i h
        refine ⟨j + 1, by omega, Nat.succ_lt_succ hj, ?_, ?_⟩
        · rw [List.take_succ_cons, inked_cons, inked_cons, if_neg hc, if_neg hc, htake, List.take_succ_cons]
        · rw [List.take_succ_cons, inked_cons, inked_cons, if_neg hc, if_neg hc, hnext, List.take_succ_cons]

theorem bisectLeft_inkedFrom : ∀ (text : Text) (n x : Nat),
    bisectLeft ((inkedFrom n text).map (·.2)) (n + x) = (inked (text.take x)).length
  | [], n, x => by simp [inkedFrom, bisectLeft, inked]
  | c :: rest, n, x => by
    cases x with
    | zero =>
      -- every position is at or behind the beginning
      have hlate : ∀ i ∈ (inkedFrom n (c :: rest)).map (·.2), n ≤ i := by
        intro i hi
        obtain ⟨k, hk⟩ := List.mem_iff_getElem?.1 hi
        obtain ⟨j, hj, -⟩ := inkedFrom_get (c :: rest) n k i hk
        omega
      have hnone : ((inkedFrom n (c :: rest)).map (·.2)).takeWhile (fun i => decide (i < n + 0)) = [] := by
        rw [List.takeWhile_eq_nil_iff]
        intro hpos
        have hfirst := hlate _ (List.getElem_mem hpos)
        simpa using hfirst
      rw [bisectLeft, hnone]
      rfl
    | succ x =>
      have hrest := bisectLeft_inkedFrom rest (n + 1) x
      have hplace : n + 1 + x = n + (x + 1) := by omega
      rw [hplace] at hrest
      rw [List.take_succ_cons, inked_cons, inkedFrom]
      split
      · exact hrest
      · have hlt : decide (n < n + (x + 1)) = true := decide_eq_true (by omega)
        rw [List.map_cons, bisectLeft, List.takeWhile_cons, if_pos hlt, List.length_cons, List.length_cons, ← hrest]
        rfl

/-! ## one chunk -/

/-- A chunk that does not occur at `cursor` or behind it: as it is, it stands only before; or it stands nowhere as it is, and
up to blanks only before. -/
def OnlyBefore (text chunk : Text) (cursor start : Nat) : Prop :=
  (∀ i, cursor ≤ i → ¬ chunk <+: text.drop i) ∧
    (chunk <+: text.drop start ∨
      ((∀ i, ¬ chunk <+: text.drop i) ∧ ∀ i, cursor ≤ i → ∀ n, inked ((text.drop i).take n) ≠ inked chunk))

/-- The place of a chunk: within the text, with its characters up to blanks, and not before `cursor` without need. -/
structure Placed (text chunk : Text) (cursor : Nat) (span : Nat × Nat) : Prop where
  nonempty : span.1 < span.2
  inside : span.2 ≤ text.length
  same : inked (slice text span.1 span.2) = inked chunk
  behind : cursor ≤ span.1 ∨ OnlyBefore text chunk cursor span.1

theorem find_placed {text chunk : Text} {cursor start : Nat} (hne : chunk ≠ [])
    (h : (find text chunk cursor).or (find text chunk 0) = some start) :
    Placed text chunk cursor (start, start + chunk.length) := by
  have hpos : 0 < chunk.length := List.length_pos_iff.2 hne
  have hplace : ∀ {c}, find text chunk c = some start → start < start + chunk.length ∧
      start + chunk.length ≤ text.length ∧ inked (slice text start (start + chunk.length)) = inked chunk := by
    intro c hfind
    obtain ⟨hslice, hle⟩ := find_spec hfind
    exact ⟨by omega, hle, by rw [hslice]⟩
  cases hahead : find text chunk cursor with
  | some position =>
    rw [hahead, Option.some_or, Option.some_inj] at h
    subst h
    obtain ⟨h1, h2, h3⟩ := hplace hahead
    exact ⟨h1, h2, h3, .inl (find_ge hahead)⟩
  | none =>
    rw [hahead, Option.none_or] at h
    obtain ⟨h1, h2, h3⟩ := hplace h
    exact ⟨h1, h2, h3, .inr ⟨find_none hne hahead, .inl (find_begins h)⟩⟩

theorem compact_begins {text : Text} {needle : Text} {i n : Nat} (h : inked ((text.drop i).take n) = needle) :
    needle <+: (inked text).drop (inked (text.take i)).length := by
  have hsplit := inked_append (text.take i) (text.drop i)
  have hmore := inked_append ((text.drop i).take n) ((text.drop i).drop n)
  rw [List.take_append_drop] at hsplit hmore
  rw [hsplit, List.drop_left, hmore, h]
  exact List.prefix_append _ _

theorem inked_take_le (text : Text) {i j : Nat} (h : i ≤ j) : (inked (text.take i)).length ≤ (inked (text.take j)).length := by
  have hpre : text.take i <+: text.take j := List.take_prefix_take_left h
  exact (hpre.filter _).length_le

theorem compactFind_placed {text chunk : Text} {cursor : Nat} {span : Nat × Nat}
    (hnowhere : ∀ i, ¬ chunk <+: text.drop i) (h : (CompactIndex.of text).find chunk cursor = some span) :
    Placed text chunk cursor span := by
  unfold CompactIndex.find at h
  dsimp only at h
  split at h
  · cases h
  rename_i hneedle
  have hpos : 0 < (inked chunk).length := List.length_pos_iff.2 hneedle
  have hcompact : (CompactIndex.of text).compact = inked text := inkedFrom_fst text 0
  have hrank := bisectLeft_inkedFrom text 0 cursor
  rw [Nat.zero_add] at hrank
  rw [hcompact] at h
  change bisectLeft (CompactIndex.of text).positions cursor = _ at hrank
  rw [hrank] at h
  split at h
  · cases h
  rename_i place hfind
  rw [Option.some_inj] at h
  -- wherever it is found, the two ends are positions of the index
  have hends : ∀ {c}, find (inked text) (inked chunk) c = some place →
      span.1 < span.2 ∧ span.2 ≤ text.length ∧ inked (slice text span.1 span.2) = inked chunk ∧
        (inked (text.take span.1)).length = place := by
    intro c hfind
    obtain ⟨hslice, hle⟩ := find_spec hfind
    have hfirst : place < (CompactIndex.of text).positions.length := by
      rw [length_positions]
      omega
    have hlast : place + (inked chunk).length - 1 < (CompactIndex.of text).positions.length := by
      rw [length_positions]
      omega
    obtain ⟨s, hs, hslt, hstake, -⟩ := inkedFrom_get text 0 place _ (List.getElem?_eq_getElem hfirst)
    obtain ⟨e, he, helt, -, hetake⟩ := inkedFrom_get text 0 _ _ (List.getElem?_eq_getElem hlast)
    have hspan : span = (s, e + 1) := by
      rw [← h, List.getD_eq_getElem?_getD, List.getD_eq_getElem?_getD, List.getElem?_eq_getElem hfirst,
        List.getElem?_eq_getElem hlast, Option.getD_some, Option.getD_some]
      exact Prod.ext (hs.trans (Nat.zero_add s)) (congrArg (· + 1) (he.trans (Nat.zero_add e)))
    have hcount : place + (inked chunk).length - 1 + 1 = place + (inked chunk).length := by omega
    rw [hcount] at hetake
    have hse : s < e + 1 := by
      refine Nat.lt_of_not_le (fun hes => ?_)
      have hmono := inked_take_le text hes
      rw [hetake, hstake, List.length_take, List.length_take] at hmono
      omega
    rw [hspan]
    refine ⟨hse, helt, ?_, ?_⟩
    · have hsplit : text.take (e + 1) = text.take s ++ slice text s (e + 1) := by
        rw [slice, ← List.take_append_drop s (text.take (e + 1)), List.take_take, List.drop_take,
          Nat.min_eq_left (Nat.le_of_lt hse)]
      have hboth := inked_append (text.take s) (slice text s (e + 1))
      rw [← hsplit, hetake, hstake] at hboth
      have hdrop := congrArg (List.drop place) hboth
      rw [List.drop_take, Nat.add_sub_cancel_left, List.drop_append, List.drop_take, Nat.sub_self, List.take_zero,
        List.nil_append, List.length_take] at hdrop
      have hwhole : place - min place (inked text).length = 0 := by omega
      rw [hwhole, List.drop_zero] at hdrop
      rw [← hdrop]
      rw [slice, Nat.add_sub_cancel_left] at hslice
      exact hslice
    · rw [hstake, List.length_take]
      omega
  cases hahead : find (inked text) (inked chunk) (inked (text.take cursor)).length with
  | some position =>
    rw [hahead, Option.some_or, Option.some_inj] at hfind
    subst hfind
    obtain ⟨h1, h2, h3, hplace⟩ := hends hahead
    refine ⟨h1, h2, h3, .inl (Nat.le_of_not_lt (fun hlt => ?_))⟩
    -- a character before the cursor comes before what the cursor counts
    have hge := find_ge hahead
    have hnext : (inked (text.take (span.1 + 1))).length ≤ (inked (text.take cursor)).length := inked_take_le text hlt
    have hone : (inked (text.take (span.1 + 1))).length = (inked (text.take span.1)).length + 1 := by
      obtain ⟨hslice, hle⟩ := find_spec hahead
      have hfirst : position < (CompactIndex.of text).positions.length := by
        rw [length_positions]
        omega
      obtain ⟨s, hs, hslt, hstake, hsnext⟩ := inkedFrom_get text 0 position _ (List.getElem?_eq_getElem hfirst)
      have hstart : span.1 = s := by
        rw [← h, List.getD_eq_getElem?_getD, List.getElem?_eq_getElem hfirst, Option.getD_some]
        exact hs.trans (Nat.zero_add s)
      rw [hstart, hsnext, hstake, List.length_take, List.length_take]
      omega
    omega
  | none =>
    rw [hahead, Option.none_or] at hfind
    obtain ⟨h1, h2, h3, -⟩ := hends hfind
    refine ⟨h1, h2, h3, .inr ⟨fun i _ => hnowhere i, .inr ⟨hnowhere, fun i hi n hsame => ?_⟩⟩⟩
    exact find_none hneedle hahead _ (inked_take_le text hi) (compact_begins hsame)

/-! ## all chunks -/

/-- **Each step**: what is located is placed from the cursor on, and the next chunk is searched behind it. -/
theorem offsetsFrom_spec (text : Text) : ∀ (chunks : List Text) (cursor : Nat),
    (offsetsFrom text cursor chunks).length = chunks.length ∧
      ∀ j span, (offsetsFrom text cursor chunks)[j]? = some (some span) →
        (∃ chunk c, chunks[j]? = some chunk ∧ Placed text chunk c span ∧
          ((∀ k < j, (offsetsFrom text cursor chunks)[k]? = some none) → c = cursor)) ∧
        (offsetsFrom text cursor chunks).drop (j + 1) = offsetsFrom text (span.1 + 1) (chunks.drop (j + 1))
  | [], _ => ⟨rfl, fun j span h => by simp [offsetsFrom] at h⟩
  | chunk :: chunks, cursor => by
    -- a chunk that is located, or not, before the others
    have hrest : ∀ (first : Option (Nat × Nat)) (next : Nat), (∀ span, first = some span →
        Placed text chunk cursor span ∧ next = span.1 + 1) → (first = none → next = cursor) →
        (first :: offsetsFrom text next chunks).length = (chunk :: chunks).length ∧
          ∀ j span, (first :: offsetsFrom text next chunks)[j]? = some (some span) →
            (∃ chunk' c, (chunk :: chunks)[j]? = some chunk' ∧ Placed text chunk' c span ∧
              ((∀ k < j, (first :: offsetsFrom text next chunks)[k]? = some none) → c = cursor)) ∧
            (first :: offsetsFrom text next chunks).drop (j + 1) =
              offsetsFrom text (span.1 + 1) ((chunk :: chunks).drop (j + 1)) := by
      intro first next hplaced hskipped
      obtain ⟨hlen, hlater⟩ := offsetsFrom_spec text chunks next
      refine ⟨by rw [List.length_cons, hlen, List.length_cons], fun j span hj => ?_⟩
      cases j with
      | zero =>
        rw [List.getElem?_cons_zero, Option.some_inj] at hj
        obtain ⟨hhere, hnext⟩ := hplaced span hj
        exact ⟨⟨chunk, cursor, rfl, hhere, fun _ => rfl⟩, by rw [hnext]; rfl⟩
      | succ j =>
        rw [List.getElem?_cons_succ] at hj
        obtain ⟨⟨chunk', c, hchunk, hhere, hc⟩, hdrop⟩ := hlater j span hj
        refine ⟨⟨chunk', c, hchunk, hhere, fun hnone => ?_⟩, hdrop⟩
        have hfirst : first = none := by
          have hzero := hnone 0 (Nat.succ_pos j)
          rwa [List.getElem?_cons_zero, Option.some_inj] at hzero
        have hsame := hc (fun k hk => hnone (k + 1) (Nat.succ_lt_succ hk))
        rw [hsame, hskipped hfirst]
    rw [offsetsFrom]
    split
    · exact hrest none cursor nofun (fun _ => rfl)
    · rename_i hne
      split
      · rename_i start hfind
        refine hrest (some (start, start + chunk.length)) (start + 1) (fun span hspan => ?_) nofun
        rw [Option.some_inj] at hspan
        subst hspan
        exact ⟨find_placed hne hfind, rfl⟩
      · rename_i hnone
        rw [Option.or_eq_none_iff] at hnone
        split
        · exact hrest none cursor nofun (fun _ => rfl)
        · rename_i span hspan
          refine hrest (some span) (span.1 + 1) (fun span' heq => ?_) nofun
          rw [Option.some_inj] at heq
          subst heq
          exact ⟨compactFind_placed (fun i => find_none hne hnone.2 i (Nat.zero_le i)) hspan, rfl⟩

/-- **Spans are sound.**  Each is in the text and has its chunk's characters up to blanks; and of two chunks located one after
the other the second begins behind the first, unless it does not occur there. -/
theorem offsets_spec (chunks : List Text) (text : Text) : (offsets chunks text).length = chunks.length ∧
    (∀ (j : Nat) (span : Nat × Nat), (offsets chunks text)[j]? = some (some span) → ∃ chunk, chunks[j]? = some chunk ∧
      span.1 < span.2 ∧ span.2 ≤ text.length ∧ inked (slice text span.1 span.2) = inked chunk) ∧
    ∀ (i j : Nat) (first second : Nat × Nat), i < j → (offsets chunks text)[i]? = some (some first) →
      (offsets chunks text)[j]? = some (some second) → (∀ k, i < k → k < j → (offsets chunks text)[k]? = some none) →
      ∃ chunk, chunks[j]? = some chunk ∧ (first.1 < second.1 ∨ OnlyBefore text chunk (first.1 + 1) second.1) := by
  obtain ⟨hlength, hspec⟩ := offsetsFrom_spec text chunks 0
  refine ⟨hlength, fun j span hj => ?_, fun i j first second hij hi hj hnone => ?_⟩
  · obtain ⟨⟨chunk, c, hchunk, hplaced, -⟩, -⟩ := hspec j span hj
    exact ⟨chunk, hchunk, hplaced.nonempty, hplaced.inside, hplaced.same⟩
  · obtain ⟨-, hdrop⟩ := hspec i first hi
    obtain ⟨d, rfl⟩ := Nat.exists_eq_add_of_lt hij
    have hget : ∀ k, (offsets chunks text)[i + 1 + k]? = (offsetsFrom text (first.1 + 1) (chunks.drop (i + 1)))[k]? := by
      intro k
      rw [← hdrop, List.getElem?_drop]
      rfl
    have hplace : i + d + 1 = i + 1 + d := by omega
    rw [hplace] at hj hnone ⊢
    rw [hget] at hj
    obtain ⟨-, htail⟩ := offsetsFrom_spec text (chunks.drop (i + 1)) (first.1 + 1)
    obtain ⟨⟨chunk, c, hchunk, hplaced, hc⟩, -⟩ := htail d second hj
    rw [List.getElem?_drop] at hchunk
    have hcursor := hc (fun k hk => by
      rw [← hget]
      exact hnone (i + 1 + k) (by omega) (by omega))
    subst hcursor
    refine ⟨chunk, hchunk, hplaced.behind.imp_left (fun hle => ?_)⟩
    omega

/-- The second chunk stands before the first only: the spans are not in order. -/
theorem offsets_not_ordered : ¬ ∀ (i j : Nat) (first second : Nat × Nat), i < j →
    (offsets [['b'], ['a']] ['a', 'b'])[i]? = some (some first) →
    (offsets [['b'], ['a']] ['a', 'b'])[j]? = some (some second) → first.1 ≤ second.1 := by
  intro h
  have hlater := h 0 1 (1, 2) (0, 1) (by decide) (by decide +kernel) (by decide +kernel)
  exact absurd hlater (by decide)

end Rag
end MyGpt
