import MyGpt.ContinuedMerge
import MyGpt.Lib.Border
/-!
# MergedOverlap — what the merge of a continuation cuts off

`_suffix_prefix_length` finds the longest overlap (`suffixPrefixLength_best`), and the ends that `_normalise_whitespace`
notes take an overlap of the collapsed texts back to the text itself (`cutAt_spec`).  So what the merge cuts repeats the end
of the existing text, up to the length of its blanks, and no longer repeat within the window is left, unless it is a
single character or blank and is not exact (`novelText_spec`).
-/
namespace MyGpt
namespace Chat

open Border

/-! ## the failure table -/

/-- The entries of `_suffix_prefix_length`'s table: the longest proper border of each beginning. -/
def BorderTable (head : Text) (failure : List Nat) : Prop :=
  ∀ i < failure.length, Best (head.take (i + 1)) head (i + 1) (failure.getD i 0)

theorem fallBack_spec {head consumed : Text} {failure : List Nat} {c : Char} {bound : Nat}
    (htable : BorderTable head failure) (hlen : bound ≤ failure.length + 1) :
    ∀ fuel matched, matched ≤ fuel → Reach consumed head c bound matched →
      Reach consumed head c bound (fallBack head failure c fuel matched) ∧
        (fallBack head failure c fuel matched = 0 ∨ head[fallBack head failure c fuel matched]? = some c) := by
  intro fuel
  induction fuel with
  | zero => exact fun matched hle h => ⟨h, .inl (Nat.le_zero.1 hle)⟩
  | succ fuel ih =>
    intro matched hle h
    unfold fallBack
    split
    · rename_i hstop
      exact ⟨h, hstop⟩
    · rename_i hgo
      obtain ⟨hpos, hc⟩ := not_or.1 hgo
      have hlt := h.lt
      have hborder := htable (matched - 1) (by omega)
      rw [Nat.sub_add_cancel (Nat.one_le_iff_ne_zero.2 hpos)] at hborder
      have hless := hborder.lt
      exact ih _ (by omega) (h.fall hc hborder)

/-- **One character**, read by the loop that falls back and then by the test for one more. -/
theorem advance_best {head consumed : Text} {failure : List Nat} {bound matched : Nat} (htable : BorderTable head failure)
    (hlen : bound ≤ failure.length + 1) (h : Best consumed head bound matched) (c : Char) :
    Best (consumed ++ [c]) head (bound + 1)
      (if head[fallBack head failure c matched matched]? = some c then fallBack head failure c matched matched + 1
        else fallBack head failure c matched matched) := by
  obtain ⟨hreach, hstop⟩ := fallBack_spec htable hlen matched matched (Nat.le_refl _) (h.reach c)
  split
  · rename_i hc
    exact hreach.hit hc
  · rename_i hc
    have hzero := hstop.resolve_right hc
    rw [hzero] at hreach hc ⊢
    exact hreach.miss hc

theorem failureTable_spec (head : Text) (hne : head ≠ []) :
    (failureTable head).length = head.length ∧ BorderTable head (failureTable head) := by
  have hrun : ∀ (cs : Text) (st : List Nat × Nat), head = head.take st.1.length ++ cs → st.1.length ≤ head.length →
      st.1 ≠ [] → st.2 = st.1.getD (st.1.length - 1) 0 → BorderTable head st.1 →
      let st' := cs.foldl (fun st c =>
        let matched := fallBack head st.1 c st.2 st.2
        let matched := if head[matched]? = some c then matched + 1 else matched
        (st.1 ++ [matched], matched)) st
      st'.1.length = head.length ∧ BorderTable head st'.1 := by
    intro cs
    induction cs with
    | nil =>
      intro st hsplit hle _ _ htable
      rw [List.append_nil] at hsplit
      have hall := congrArg List.length hsplit
      rw [List.length_take] at hall
      exact ⟨by simp only [List.foldl_nil]; omega, htable⟩
    | cons c cs ih =>
      intro st hsplit hle hst hlast htable
      obtain ⟨table, matched⟩ := st
      dsimp only at hsplit hle hst hlast htable
      have hpos : 0 < table.length := List.length_pos_iff.2 hst
      have hread := congrArg List.length hsplit
      rw [List.length_append, List.length_take, List.length_cons] at hread
      have hc : head[table.length]? = some c := by
        rw [hsplit, List.getElem?_append_right (by rw [List.length_take]; omega), List.length_take,
          Nat.min_eq_left hle, Nat.sub_self]
        rfl
      have htake : head.take (table.length + 1) = head.take table.length ++ [c] := by
        rw [List.take_add_one, hc, Option.toList_some]
      have hbest : Best (head.take table.length) head table.length matched := by
        have hentry := htable (table.length - 1) (by omega)
        rwa [Nat.sub_add_cancel hpos, ← hlast] at hentry
      have hnext := advance_best htable (Nat.le_succ _) hbest c
      rw [← htake] at hnext
      refine ih _ ?_ ?_ (by simp) ?_ ?_
      · dsimp only
        rw [List.length_append, List.length_singleton, htake, List.append_assoc, List.singleton_append]
        exact hsplit
      · simp only [List.length_append, List.length_singleton]
        omega
      · simp
      · intro i hi
        simp only [List.length_append, List.length_singleton] at hi
        by_cases hold : i < table.length
        · simpa [List.getD_eq_getElem?_getD, List.getElem?_append_left hold] using htable i hold
        · have hi : i = table.length := by omega
          subst hi
          simpa [List.getD_eq_getElem?_getD] using hnext
  cases head with
  | nil => exact absurd rfl hne
  | cons c cs =>
    refine hrun cs ([0], 0) rfl (by simp) (by simp) rfl (fun i hi => ?_)
    have hi : i = 0 := by simpa using hi
    subst hi
    refine ⟨Nat.one_pos, overlaps_zero _ _, fun k hk _ => ?_⟩
    simp only [List.getD_cons_zero]
    omega

/-! ## the scan -/

theorem scanOverlap_best {head : Text} (hne : head ≠ []) : ∀ (rest : Text) (c : Char) (consumed : Text) (matched : Nat),
    Best consumed head head.length matched → Best (consumed ++ c :: rest) head (head.length + 1)
      (scanOverlap head (failureTable head) matched (c :: rest)) := by
  obtain ⟨hlen, htable⟩ := failureTable_spec head hne
  have hpos : 0 < head.length := List.length_pos_iff.2 hne
  intro rest
  induction rest with
  | nil =>
    intro c consumed matched h
    have hnext := advance_best htable (by omega) h c
    unfold scanOverlap
    dsimp only
    split
    · rename_i hc
      rw [if_pos hc] at hnext
      rw [if_neg (fun hmore => hmore.2 rfl)]
      exact hnext
    · rename_i hc
      rw [if_neg hc] at hnext
      exact hnext
  | cons d rest ih =>
    intro c consumed matched h
    have hnext := advance_best htable (by omega) h c
    have hsplit : consumed ++ c :: d :: rest = (consumed ++ [c]) ++ d :: rest := by simp
    rw [hsplit]
    unfold scanOverlap
    dsimp only
    split
    · rename_i hc
      rw [if_pos hc] at hnext
      apply ih
      split
      · -- a full match goes on as its longest border
        rename_i hfull
        have hborder := htable (fallBack head (failureTable head) c matched matched) (by omega)
        rw [hfull.1] at hborder
        have hover := hnext.overlaps
        rw [hfull.1] at hover
        exact hborder.of_overlap hover
      · rename_i hmore
        have hle := hnext.lt
        have hshort : fallBack head (failureTable head) c matched matched + 1 ≠ head.length := by
          intro heq
          exact hmore ⟨heq, by simp⟩
        exact hnext.restrict (by omega) (Nat.le_succ _)
    · rename_i hc
      rw [if_neg hc] at hnext
      apply ih
      have hlt := hnext.lt
      refine hnext.restrict ?_ (Nat.le_succ _)
      obtain ⟨hreach, -⟩ := fallBack_spec htable (by omega) matched matched (Nat.le_refl _) (h.reach c)
      exact hreach.lt

/-- **`_suffix_prefix_length` is the longest overlap**: of the beginnings of one text that end the other. -/
theorem suffixPrefixLength_best (existing head : Text) :
    Best existing head (head.length + 1) (suffixPrefixLength existing head) := by
  unfold suffixPrefixLength
  split
  · rename_i hnil
    refine ⟨Nat.succ_pos _, overlaps_zero _ _, fun k _ hk => ?_⟩
    have hle := hk.1
    have hlen := hk.2.length_le
    rw [List.length_take] at hlen
    rcases hnil with rfl | rfl
    · rw [List.length_nil] at hlen
      omega
    · exact hle
  · rename_i hboth
    obtain ⟨he, hh⟩ := not_or.1 hboth
    cases existing with
    | nil => exact absurd rfl he
    | cons c rest =>
      have hstart := best_nil (p := head) (List.length_pos_iff.2 hh)
      exact scanOverlap_best hh rest c [] 0 hstart

/-- **Border computation**: the length of the longest text that ends the one and begins the other. -/
theorem suffixPrefixLength_longest (existing head : Text) :
    (∃ overlap : Text, overlap <:+ existing ∧ overlap <+: head ∧ overlap.length = suffixPrefixLength existing head) ∧
      ∀ overlap : Text, overlap <:+ existing → overlap <+: head → overlap.length ≤ suffixPrefixLength existing head := by
  have hbest := suffixPrefixLength_best existing head
  constructor
  · refine ⟨head.take (suffixPrefixLength existing head), hbest.overlaps.2, List.take_prefix _ _, ?_⟩
    rw [List.length_take]
    exact Nat.min_eq_left hbest.overlaps.1
  · intro overlap hends hbegins
    have htake : head.take overlap.length = overlap := (List.prefix_iff_eq_take.1 hbegins).symm
    have hover : Overlaps existing head overlap.length := ⟨hbegins.length_le, htake.symm ▸ hends⟩
    exact hbest.longest overlap.length (Nat.lt_succ_of_le hover.1) hover

/-! ## collapsed blanks -/

def collapsed (c : Char) (next : Option Char) : Text :=
  if isSpace c then if next.any isSpace then [] else [' '] else [c]

/-- A text with every run of blanks as one blank: the characters of `_normalise_whitespace`. -/
def collapse (text : Text) : Text := (normaliseWhitespace 0 text).map (·.1)

theorem normaliseWhitespace_cons (i : Nat) (c : Char) (rest : Text) : normaliseWhitespace i (c :: rest) =
    (collapsed c rest.head?).map (·, i + 1) ++ normaliseWhitespace (i + 1) rest := by
  rw [normaliseWhitespace, collapsed]
  split
  · split <;> rfl
  · rfl

theorem normaliseWhitespace_fst (text : Text) (i : Nat) : (normaliseWhitespace i text).map (·.1) = collapse text := by
  have hshift : ∀ (text : Text) (i j : Nat),
      (normaliseWhitespace i text).map (·.1) = (normaliseWhitespace j text).map (·.1) := by
    intro text
    induction text with
    | nil => exact fun i j => rfl
    | cons c rest ih =>
      intro i j
      simp [normaliseWhitespace_cons, ih (i + 1) (j + 1)]
  exact hshift text i 0

@[simp] theorem collapse_nil : collapse [] = [] := rfl

theorem collapse_cons (c : Char) (rest : Text) : collapse (c :: rest) = collapsed c rest.head? ++ collapse rest := by
  rw [collapse, normaliseWhitespace_cons, List.map_append, normaliseWhitespace_fst, List.map_map]
  exact congrArg (· ++ collapse rest) (List.map_id _)

theorem collapse_ne_nil : ∀ {text : Text}, text ≠ [] → collapse text ≠ []
  | [], h => absurd rfl h
  | [c], _ => by
    rw [collapse_cons]
    unfold collapsed
    split <;> simp
  | c :: d :: rest, _ => by
    rw [collapse_cons]
    intro hnil
    exact collapse_ne_nil (List.cons_ne_nil d rest) (List.append_eq_nil_iff.1 hnil).2

theorem collapse_suffix {text whole : Text} (h : text <:+ whole) : collapse text <:+ collapse whole := by
  obtain ⟨pre, rfl⟩ := h
  induction pre with
  | nil => exact List.suffix_rfl
  | cons c pre ih =>
    rw [List.cons_append, collapse_cons]
    exact ih.trans (List.suffix_append _ _)

theorem collapse_blank {text : Text} (h : text.head?.any isSpace = true) : ∃ more, collapse text = ' ' :: more := by
  induction text with
  | nil => cases h
  | cons c rest ih =>
    have hc : isSpace c = true := h
    rw [collapse_cons, collapsed, if_pos hc]
    split
    · rename_i hnext
      exact ih hnext
    · exact ⟨collapse rest, rfl⟩

theorem collapse_prefix (text more : Text) : collapse text <+: collapse (text ++ more) := by
  induction text with
  | nil => exact List.nil_prefix
  | cons c rest ih =>
    rw [List.cons_append, collapse_cons, collapse_cons]
    cases rest with
    | cons d rest => exact (List.prefix_append_right_inj _).2 ih
    | nil =>
      rw [List.nil_append, collapse_nil, List.append_nil]
      unfold collapsed
      split
      · rw [List.head?_nil, Option.any_none, if_neg Bool.false_ne_true]
        split
        · rename_i hblank
          obtain ⟨more', hmore⟩ := collapse_blank hblank
          rw [hmore, List.nil_append]
          exact ⟨more', rfl⟩
        · exact List.prefix_append _ _
      · exact List.prefix_append _ _

/-! ## back to the text -/

/-- **The end of a collapsed character**: up to there the text collapses to what ends with that character, and no longer
beginning of the text collapses to as few. -/
theorem normaliseWhitespace_spec : ∀ (text : Text) (i k e : Nat) (x : Char), (normaliseWhitespace i text)[k]? = some (x, e) →
    ∃ cut, e = i + cut ∧ 0 < cut ∧ cut ≤ text.length ∧ collapse (text.take cut) = (collapse text).take (k + 1) ∧
      ∀ n ≤ text.length, (collapse (text.take n)).length ≤ k + 1 → n ≤ cut
  | [], _, _, _, _, h => by simp [normaliseWhitespace] at h
  | c :: rest, i, k, e, x, h => by
    by_cases hrun : isSpace c = true ∧ rest.head?.any isSpace = true
    · -- inside a run of blanks: the end is one of the rest's
      have hnone : collapsed c rest.head? = [] := by simp [collapsed, hrun.1, hrun.2]
      rw [normaliseWhitespace_cons, hnone, List.map_nil, List.nil_append] at h
      obtain ⟨cut, he, hpos, hle, htake, hmax⟩ := normaliseWhitespace_spec rest (i + 1) k e x h
      have hhead : ∀ n, 0 < n → collapse ((c :: rest).take (n + 1)) = collapse (rest.take n) := by
        intro n hn
        rw [List.take_succ_cons, collapse_cons, List.head?_take, if_neg (Nat.pos_iff_ne_zero.1 hn), hnone, List.nil_append]
      refine ⟨cut + 1, by omega, Nat.succ_pos _, Nat.succ_le_succ hle, ?_, ?_⟩
      · rw [hhead cut hpos, htake, collapse_cons, hnone, List.nil_append]
      · intro n hn hshort
        cases n with
        | zero => exact Nat.zero_le _
        | succ n =>
          cases n with
          | zero => omega
          | succ n =>
            rw [hhead (n + 1) (Nat.succ_pos n)] at hshort
            exact Nat.succ_le_succ (hmax (n + 1) (Nat.le_of_succ_le_succ hn) hshort)
    · -- the character is one of the collapsed text, whatever the rest is cut to
      have hone : ∃ y, ∀ n, collapse ((c :: rest).take (n + 1)) = y :: collapse (rest.take n) := by
        by_cases hc : isSpace c = true
        · have hnext : rest.head?.any isSpace = false := by
            cases hany : rest.head?.any isSpace
            · rfl
            · exact absurd ⟨hc, hany⟩ hrun
          refine ⟨' ', fun n => ?_⟩
          rw [List.take_succ_cons, collapse_cons, List.head?_take, collapsed, if_pos hc]
          split
          · rfl
          · rw [hnext]
            rfl
        · refine ⟨c, fun n => ?_⟩
          rw [List.take_succ_cons, collapse_cons, collapsed, if_neg hc]
          rfl
      obtain ⟨y, hone⟩ := hone
      have hwhole : collapse (c :: rest) = y :: collapse rest := by
        have hlast := hone rest.length
        rwa [List.take_length, List.take_of_length_le (by simp)] at hlast
      have hchar : collapsed c rest.head? = [y] := by
        rw [collapse_cons] at hwhole
        exact List.append_cancel_right hwhole
      rw [normaliseWhitespace_cons, hchar, List.map_singleton, List.singleton_append] at h
      cases k with
      | zero =>
        rw [List.getElem?_cons_zero, Option.some_inj, Prod.mk.injEq] at h
        refine ⟨1, h.2.symm, Nat.one_pos, by simp, ?_, ?_⟩
        · have hfirst := hone 0
          rw [List.take_zero, collapse_nil] at hfirst
          rw [hwhole, List.take_succ_cons, List.take_zero]
          exact hfirst
        · intro n hn hshort
          cases n with
          | zero => exact Nat.zero_le _
          | succ n =>
            rw [hone n, List.length_cons] at hshort
            have hnil : collapse (rest.take n) = [] := List.eq_nil_of_length_eq_zero (by omega)
            have hnone : rest.take n = [] := by
              by_contra hne
              exact collapse_ne_nil hne hnil
            have hlen := congrArg List.length hnone
            rw [List.length_take, List.length_nil] at hlen
            rw [List.length_cons] at hn
            omega
      | succ k =>
        rw [List.getElem?_cons_succ] at h
        obtain ⟨cut, he, hpos, hle, htake, hmax⟩ := normaliseWhitespace_spec rest (i + 1) k e x h
        refine ⟨cut + 1, by omega, Nat.succ_pos _, Nat.succ_le_succ hle, ?_, ?_⟩
        · rw [hone cut, htake, hwhole, List.take_succ_cons]
        · intro n hn hshort
          cases n with
          | zero => exact Nat.zero_le _
          | succ n =>
            rw [hone n, List.length_cons] at hshort
            exact Nat.succ_le_succ (hmax n (Nat.le_of_succ_le_succ hn) (Nat.le_of_succ_le_succ hshort))

/-! ## the merge -/

theorem length_strip_mono {text whole : Text} (h : text <+: whole) : (strip text).length ≤ (strip whole).length := by
  obtain ⟨more, rfl⟩ := h
  unfold strip
  rw [List.dropWhile_append]
  split
  · rename_i hnil
    rw [List.isEmpty_iff.1 hnil]
    exact Nat.zero_le _
  · rw [List.reverse_append, List.dropWhile_append, List.length_reverse, List.length_reverse]
    split
    · exact Nat.le_refl _
    · have hle := (List.dropWhile_suffix isSpace (l := (text.dropWhile isSpace).reverse)).length_le
      rw [List.length_append]
      omega

def Repeats (suffix text : Text) : Prop :=
  text <:+ suffix ∨ (collapse text <:+ collapse suffix ∧ 2 ≤ (strip (collapse text)).length)

theorem overlapCut_spec (suffix head : Text) : collapse (head.take (overlapCut suffix head)) <:+ collapse suffix ∧
    ∀ n ≤ head.length, Repeats suffix (head.take n) → n ≤ overlapCut suffix head := by
  have hexact := suffixPrefixLength_best suffix head
  have hover := suffixPrefixLength_best (collapse suffix) (collapse head)
  have hcut : overlapCut suffix head =
      (if suffixPrefixLength (collapse suffix) (collapse head) ≠ 0 ∧
          2 ≤ (strip ((collapse head).take (suffixPrefixLength (collapse suffix) (collapse head)))).length then
        max (suffixPrefixLength suffix head)
          (((normaliseWhitespace 0 head).map (·.2)).getD (suffixPrefixLength (collapse suffix) (collapse head) - 1) 0)
      else suffixPrefixLength suffix head) := rfl
  generalize suffixPrefixLength suffix head = exact at hexact hcut
  generalize suffixPrefixLength (collapse suffix) (collapse head) = overlap at hover hcut
  have hrepeat : collapse (head.take exact) <:+ collapse suffix := collapse_suffix hexact.overlaps.2
  have hlongest : ∀ n ≤ head.length, head.take n <:+ suffix → n ≤ exact := fun n hn hsuffix =>
    hexact.longest n (Nat.lt_succ_of_le hn) ⟨hn, hsuffix⟩
  -- a repeat of the collapsed texts is a beginning of the longest overlap
  have hbegins : ∀ n, collapse (head.take n) <:+ collapse suffix →
      (collapse (head.take n)).length ≤ overlap ∧ collapse (head.take n) <+: (collapse head).take overlap := by
    intro n hsuffix
    have hpre := collapse_prefix (head.take n) (head.drop n)
    rw [List.take_append_drop] at hpre
    have hlen : (collapse (head.take n)).length ≤ overlap := by
      refine hover.longest _ (Nat.lt_succ_of_le hpre.length_le) ⟨hpre.length_le, ?_⟩
      rwa [← List.prefix_iff_eq_take.1 hpre]
    refine ⟨hlen, List.prefix_of_prefix_length_le hpre (List.take_prefix _ _) ?_⟩
    rw [List.length_take]
    exact Nat.le_min.2 ⟨hlen, hpre.length_le⟩
  split at hcut
  · rename_i hstrong
    obtain ⟨last, rfl⟩ := Nat.exists_eq_succ_of_ne_zero hstrong.1
    have hlast : last < (normaliseWhitespace 0 head).length := by
      have hle := hover.overlaps.1
      rw [collapse, List.length_map] at hle
      exact hle
    obtain ⟨cut, hend, hpos, hle, htake, hmax⟩ :=
      normaliseWhitespace_spec head 0 last _ _ (List.getElem?_eq_getElem hlast)
    have hget : ((normaliseWhitespace 0 head).map (·.2)).getD (last.succ - 1) 0 = cut := by
      rw [List.getD_eq_getElem?_getD, Nat.succ_sub_one, List.getElem?_map, List.getElem?_eq_getElem hlast]
      simpa using hend
    rw [hget] at hcut
    have hcutover : collapse (head.take cut) <:+ collapse suffix := by
      rw [htake]
      exact hover.overlaps.2
    rw [hcut]
    refine ⟨?_, fun n hn h => ?_⟩
    · rcases Nat.le_total exact cut with hmaxeq | hmaxeq
      · rwa [Nat.max_eq_right hmaxeq]
      · rwa [Nat.max_eq_left hmaxeq]
    · rcases h with h | ⟨h, -⟩
      · exact Nat.le_trans (hlongest n hn h) (Nat.le_max_left _ _)
      · exact Nat.le_trans (hmax n hn (hbegins n h).1) (Nat.le_max_right _ _)
  · rename_i hweak
    rw [hcut]
    refine ⟨hrepeat, fun n hn h => ?_⟩
    rcases h with h | ⟨h, htwo⟩
    · exact hlongest n hn h
    · obtain ⟨-, hpre⟩ := hbegins n h
      have hmore := Nat.le_trans htwo (length_strip_mono hpre)
      refine absurd ⟨?_, hmore⟩ hweak
      rintro rfl
      rw [List.take_zero] at hmore
      exact absurd hmore (by decide)

/-- **The merge loses nothing new**: what it leaves is an end of the continuation; what it cuts off repeats, up to the
length of its blanks, the end of the existing text; and no longer beginning within the window repeats its last window. -/
theorem novelText_spec (window : Nat) (existing continuation : Text) :
    ∃ cut ≤ continuation.length, novelText window existing continuation = continuation.drop cut ∧
      collapse (continuation.take cut) <:+ collapse existing ∧
      ∀ n ≤ min continuation.length (max 1 window),
        Repeats (existing.drop (existing.length - max 1 window)) (continuation.take n) → n ≤ cut := by
  by_cases hrepeat : continuation <:+ existing
  · refine ⟨continuation.length, Nat.le_refl _, ?_, ?_, fun n hn _ => Nat.le_trans hn (Nat.min_le_left _ _)⟩
    · rw [novelText_repeat hrepeat, List.drop_length]
    · rw [List.take_length]
      exact collapse_suffix hrepeat
  have hc : continuation ≠ [] := by
    rintro rfl
    exact hrepeat List.nil_suffix
  by_cases he : existing = []
  · subst he
    refine ⟨0, Nat.zero_le _, ?_, List.nil_suffix, fun n hn h => ?_⟩
    · unfold novelText
      rw [if_neg hc, if_pos rfl, List.drop_zero]
    · rw [List.drop_nil] at h
      have hnil : continuation.take n = [] := by
        rcases h with h | ⟨h, -⟩
        · exact List.suffix_nil.1 h
        · by_contra hne
          exact collapse_ne_nil hne (List.suffix_nil.1 h)
      have hlen := congrArg List.length hnil
      rw [List.length_take, List.length_nil] at hlen
      omega
  · have hle := overlapCut_le (existing.drop (existing.length - max 1 window)) (continuation.take (max 1 window))
    obtain ⟨hrepeated, hlongest⟩ :=
      overlapCut_spec (existing.drop (existing.length - max 1 window)) (continuation.take (max 1 window))
    rw [List.length_take] at hle hlongest
    refine ⟨_, Nat.le_trans hle (Nat.min_le_right _ _), novelText_eq hc he hrepeat, ?_, fun n hn h => ?_⟩
    · rw [List.take_take, Nat.min_eq_left (Nat.le_trans hle (Nat.min_le_left _ _))] at hrepeated
      exact hrepeated.trans (collapse_suffix (List.drop_suffix _ _))
    · rw [Nat.min_comm] at hn
      refine hlongest n hn ?_
      rwa [List.take_take, Nat.min_eq_left (Nat.le_trans hn (Nat.min_le_left _ _))]

/-- The blank that begins the continuation repeats the line break before it, and is left. -/
theorem blank_repeat_left : ¬ ∃ cut ≤ [' ', 'b'].length, novelText 4096 ['a', '\n'] [' ', 'b'] = [' ', 'b'].drop cut ∧
    collapse ([' ', 'b'].take cut) <:+ collapse ['a', '\n'] ∧
    ∀ n ≤ min [' ', 'b'].length (max 1 4096),
      collapse ([' ', 'b'].take n) <:+ collapse (['a', '\n'].drop (['a', '\n'].length - max 1 4096)) → n ≤ cut := by
  rintro ⟨cut, hle, hnovel, -, hlongest⟩
  have hone := hlongest 1 (by decide) (by decide)
  have hlen := congrArg List.length hnovel
  have hall : (novelText 4096 ['a', '\n'] [' ', 'b']).length = 2 := by decide
  rw [hall, List.length_drop] at hlen
  simp only [List.length_cons, List.length_nil] at hlen hle
  omega

end Chat
end MyGpt
