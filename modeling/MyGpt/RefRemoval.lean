import MyGpt.RefEditing
/-!
# RefRemoval — a reference is removed, and the others stay

What is left when a reference is removed is the text outside its tokens, without the blank behind each and with every run of
blanks made one (`removeRef_outside`).  Runs of blanks are in labels only, so what the collapsed text has is what the parts
say with labels collapsed (`values_collapse`); the parts together have no other tokens than each by itself unless one is made
where they meet.  Then the other references are all there, and no new one (`removeRef_refs`).
-/
namespace MyGpt
namespace Mentions

open Sse (JsString)
open Marks (values values_eq values_cons marks marks_append marks_of_read)

/-! ## runs of blanks -/

theorem head?_collapse : ∀ text : JsString, (collapseBlanks text).head? = text.head?
  | [] => rfl
  | c :: rest => by
    rw [collapseBlanks]
    split
    · rename_i h
      rw [head?_collapse rest, h.2, h.1]
      rfl
    · rfl

theorem collapse_cons {c : UInt16} (hc : c ≠ blank) (rest : JsString) : collapseBlanks (c :: rest) = c :: collapseBlanks rest := by
  rw [collapseBlanks, if_neg (fun h => hc h.1)]

theorem collapse_pair (rest : JsString) : collapseBlanks (blank :: blank :: rest) = collapseBlanks (blank :: rest) := by
  rw [collapseBlanks, if_pos ⟨rfl, rfl⟩]

theorem collapse_sublist : ∀ text : JsString, (collapseBlanks text).Sublist text
  | [] => List.Sublist.refl _
  | c :: rest => by
    rw [collapseBlanks]
    split
    · exact (collapse_sublist rest).cons c
    · exact (collapse_sublist rest).cons_cons c

theorem collapse_inked : ∀ text : JsString, (collapseBlanks text).filter (· ≠ blank) = text.filter (· ≠ blank)
  | [] => rfl
  | c :: rest => by
    rw [collapseBlanks]
    split
    · rename_i h
      rw [collapse_inked rest, List.filter_cons_of_neg (by simp [h.1])]
    · rw [List.filter_cons, List.filter_cons, collapse_inked rest]

theorem collapse_takeWhile {p : UInt16 → Bool} (hp : p blank = true) : ∀ text : JsString,
    (collapseBlanks text).takeWhile p = collapseBlanks (text.takeWhile p)
  | [] => rfl
  | c :: rest => by
    have ih := collapse_takeWhile hp rest
    rw [collapseBlanks]
    split
    · rename_i h
      obtain ⟨rfl, hnext⟩ := h
      obtain ⟨more, rfl⟩ := List.head?_eq_some_iff.1 hnext
      rw [ih, List.takeWhile_cons_of_pos hp, List.takeWhile_cons_of_pos hp, List.takeWhile_cons_of_pos hp, collapse_pair]
    · rename_i h
      by_cases hc : p c = true
      · rw [List.takeWhile_cons_of_pos hc, List.takeWhile_cons_of_pos hc, ih, collapseBlanks, if_neg]
        rintro ⟨rfl, hnext⟩
        refine h ⟨rfl, ?_⟩
        cases rest with
        | nil => cases hnext
        | cons d rest =>
          rw [List.takeWhile_cons] at hnext
          split at hnext
          · exact hnext
          · cases hnext
      · rw [List.takeWhile_cons_of_neg hc, List.takeWhile_cons_of_neg hc, collapseBlanks]

theorem collapse_dropWhile {p : UInt16 → Bool} (hp : p blank = true) : ∀ text : JsString,
    (collapseBlanks text).dropWhile p = collapseBlanks (text.dropWhile p)
  | [] => rfl
  | c :: rest => by
    have ih := collapse_dropWhile hp rest
    by_cases hc : p c = true
    · rw [List.dropWhile_cons_of_pos hc, ← ih, collapseBlanks]
      split
      · rfl
      · rw [List.dropWhile_cons_of_pos hc]
    · have hne : c ≠ blank := fun h => hc (h ▸ hp)
      rw [List.dropWhile_cons_of_neg hc, collapse_cons hne, List.dropWhile_cons_of_neg hc]

theorem collapse_begins : ∀ {w : JsString}, blank ∉ w → ∀ {text : JsString}, w <+: collapseBlanks text ↔ w <+: text
  | [], _, _ => by simp
  | c :: w, hw, [] => Iff.rfl
  | c :: w, hw, d :: text => by
    rw [List.mem_cons, not_or] at hw
    have hhead := head?_collapse (d :: text)
    by_cases hd : d = blank
    · constructor
      · rintro ⟨r, hr⟩
        rw [← hr] at hhead
        exact absurd (hd.symm.trans (Option.some.inj hhead).symm) hw.1
      · rintro ⟨r, hr⟩
        exact absurd (hd.symm.trans (List.cons.inj hr).1.symm) hw.1
    · rw [collapse_cons hd, List.cons_prefix_cons, List.cons_prefix_cons, collapse_begins hw.2]

theorem blank_not_mem_target {kind : InlineRefKind} {id : JsString} (hid : isUuid id = true) : blank ∉ targetText kind id := by
  intro hmem
  rw [targetText, List.mem_append, List.mem_append] at hmem
  rcases hmem with (hmem | hmem) | hmem
  · revert hmem
    cases kind <;> decide
  · rcases isHexDigit_or_hyphen hid _ hmem with h | h <;> exact absurd h (by decide)
  · exact absurd hmem (by decide)

theorem readTarget_collapse (text : JsString) : readTarget (collapseBlanks text) = readTarget text := by
  have hiff : ∀ kind id, readTarget (collapseBlanks text) = some (kind, id) ↔ readTarget text = some (kind, id) := by
    intro kind id
    rw [readTarget_iff, readTarget_iff]
    exact and_congr_right (fun hid => collapse_begins (blank_not_mem_target hid))
  refine Option.ext (fun found => ?_)
  exact hiff found.1 found.2

/-! ## tokens with runs of blanks in their labels -/

def looseFits (label : JsString) : Bool := labelFits (collapseBlanks label)

def collapsed (ref : InlineRef) : InlineRef := { ref with label := collapseBlanks ref.label }

theorem tokenRe_collapse (text : JsString) :
    (tokenRe labelFits (collapseBlanks text)).map (·.1) = (tokenRe looseFits text).map (fun found => collapsed found.1) := by
  match text with
  | [] => rfl
  | [c] =>
    rw [collapseBlanks, if_neg (fun h => absurd h.2 (by decide))]
    rfl
  | c :: d :: rest =>
    by_cases hopens : isTrigger c = true ∧ d = leftBracket
    · obtain ⟨htrigger, rfl⟩ := hopens
      have hc : c ≠ blank := by
        rintro rfl
        exact absurd htrigger (by decide)
      have hlabel : inLabel blank = true := by decide
      rw [collapse_cons hc, collapse_cons (show leftBracket ≠ blank by decide), tokenRe, tokenRe]
      simp only [collapse_takeWhile hlabel, collapse_dropWhile hlabel, readTarget_collapse, htrigger, looseFits, decide_true,
        Bool.and_self, Bool.true_and]
      split
      · rw [Option.map_map, Option.map_map]
        rfl
      · rfl
    · have hnone : ∀ (fits : JsString → Bool) (more : JsString), tokenRe fits (c :: d :: more) = none := by
        intro fits more
        rw [tokenRe]
        refine if_neg (fun h => hopens ?_)
        rw [Bool.and_eq_true, Bool.and_eq_true, decide_eq_true_eq] at h
        exact h.1
      rw [hnone, Option.map_none, collapseBlanks]
      split
      · rename_i h
        obtain ⟨rfl, hd⟩ := h
        cases hd
        obtain ⟨more, hmore⟩ := List.head?_eq_some_iff.1 (head?_collapse (blank :: rest))
        rw [hmore, tokenRe_blank]
        rfl
      · obtain ⟨more, hmore⟩ := List.head?_eq_some_iff.1 (head?_collapse (d :: rest))
        rw [hmore, hnone]
        rfl

/-- **What a collapsed text says**: the labels are collapsed, and a label that was too long may fit. -/
theorem values_collapse : ∀ text : JsString,
    refsOf (collapseBlanks text) = (values (tokenReader looseFits) text).map collapsed
  | [] => rfl
  | c :: rest => by
    have ih := values_collapse rest
    have hread := tokenRe_collapse (c :: rest)
    by_cases h : c = blank ∧ rest.head? = some blank
    · rw [collapseBlanks, if_pos h, ih, h.1, values_blank]
    · rw [collapseBlanks, if_neg h] at hread
      rw [collapseBlanks, if_neg h, refsOf, values_cons, values_cons, List.map_append, ← ih]
      rw [show (tokenReader labelFits).read = tokenRe labelFits from rfl, hread]
      show _ = (((tokenRe looseFits (c :: rest)).map _).toList).map collapsed ++ _
      cases tokenRe looseFits (c :: rest) <;> rfl

/-! ## the slices -/

def behindBlank (text : JsString) (stop : Nat) : Nat := if text[stop]? = some blank then stop + 1 else stop

theorem drop_blank {text : JsString} {stop : Nat} (h : text[stop]? = some blank) :
    text.drop stop = blank :: text.drop (stop + 1) := by
  obtain ⟨hlt, heq⟩ := List.getElem?_eq_some_iff.1 h
  rw [List.drop_eq_getElem_cons hlt, heq]

theorem marks_behindBlank (text : JsString) (stop : Nat) :
    marks (tokenReader labelFits) (behindBlank text stop) (text.drop (behindBlank text stop)) =
      marks (tokenReader labelFits) stop (text.drop stop) := by
  unfold behindBlank
  split
  · rename_i hblank
    have hnone : (tokenReader labelFits).read (blank :: text.drop (stop + 1)) = none := tokenRe_blank _ _
    rw [drop_blank hblank, marks, hnone]
  · rfl

theorem refs_behindBlank (text : JsString) (stop : Nat) :
    refsOf (text.drop (behindBlank text stop)) = refsOf (text.drop stop) := by
  rw [refsOf, refsOf, values_eq _ (behindBlank text stop), marks_behindBlank, ← values_eq]

theorem slices_refs (text : JsString) (p : InlineRef → Bool) : ∀ (ranges : List RefRange) (cursor : Nat),
    (marks (tokenReader labelFits) cursor (text.drop cursor)).filter (fun f => p f.mark) = ranges →
      (slices text cursor ranges).flatMap refsOf = (refsOf (text.drop cursor)).filter (fun r => !p r)
  | [], cursor, h => by
    rw [slices, List.flatMap_cons, List.flatMap_nil, List.append_nil]
    refine (List.filter_eq_self.2 (fun r hr => ?_)).symm
    rw [refsOf, values_eq _ cursor] at hr
    obtain ⟨f, hf, rfl⟩ := List.mem_map.1 hr
    simpa using List.filter_eq_nil_iff.1 h f hf
  | range :: ranges, cursor, h => by
    obtain ⟨k, n, hstart, hstop, hp, hbefore, hrest, hrefs⟩ := Marks.marks_first _ h
    rw [List.drop_drop, ← Nat.add_assoc, ← hstop] at hrest hrefs
    rw [← marks_behindBlank] at hrest
    have ih := slices_refs text p ranges (behindBlank text range.stop) hrest
    have hslice : range.start - cursor = k := by omega
    have hkeep : (refsOf ((text.drop cursor).take k)).filter (fun r => !p r) = refsOf ((text.drop cursor).take k) :=
      List.filter_eq_self.2 (fun r hr => by rw [hbefore r hr]; rfl)
    have hsplit : refsOf (text.drop cursor) =
        refsOf ((text.drop cursor).take k) ++ range.mark :: refsOf (text.drop range.stop) := hrefs
    rw [slices, List.flatMap_cons, hslice, hsplit, List.filter_append, hkeep, List.filter_cons_of_neg (by simp [hp])]
    exact congrArg _ (ih.trans (by rw [refs_behindBlank]))

def places (ranges : List RefRange) : List (Nat × Nat) := ranges.map (fun range => (range.start, range.stop))

theorem slices_outside (text : JsString) {hi : Nat} : ∀ (ranges : List RefRange) (cursor : Nat),
    Spans.Ordered cursor hi (places ranges) → (∀ range ∈ ranges, text[range.start]? ≠ some blank) →
      (slices text cursor ranges).flatten.Sublist (Spans.outside (places ranges) cursor (text.drop cursor)) ∧
        (slices text cursor ranges).flatten.filter (· ≠ blank) =
          (Spans.outside (places ranges) cursor (text.drop cursor)).filter (· ≠ blank)
  | [], cursor, _, _ => by
    simp [slices, places]
  | range :: ranges, cursor, h, hblank => by
    have hfirst : cursor ≤ range.start ∧ range.start < range.stop ∧ range.stop ≤ hi := h.inside _ List.mem_cons_self
    have hplace : (text.drop cursor).drop (range.stop - cursor) = text.drop range.stop := by
      rw [List.drop_drop]
      congr 1
      omega
    have houtside : Spans.outside (places (range :: ranges)) cursor (text.drop cursor) =
        (text.drop cursor).take (range.start - cursor) ++ Spans.outside (places ranges) range.stop (text.drop range.stop) := by
      rw [← hplace]
      exact Spans.outside_cons h (text.drop cursor)
    have htail : Spans.Ordered range.stop hi (places ranges) := h.tail
    have hrest := fun r hr => hblank r (List.mem_cons_of_mem range hr)
    rw [houtside, slices, List.flatten_cons, List.filter_append, List.filter_append]
    by_cases hnext : text[range.stop]? = some blank
    · -- no token begins with the blank
      have hcovers : Spans.covers (places ranges) range.stop = false := by
        rw [Spans.covers, List.any_eq_false]
        intro q hq
        obtain ⟨r, hr, rfl⟩ := List.mem_map.1 hq
        have hlow := (htail.inside _ hq).1
        have hne : r.start ≠ range.stop := fun heq => hrest r hr (heq ▸ hnext)
        simp only [Bool.and_eq_true, decide_eq_true_eq] at hlow ⊢
        omega
      have hlater : Spans.Ordered (range.stop + 1) hi (places ranges) := by
        refine ⟨htail.apart, fun q hq => ?_⟩
        obtain ⟨hlow, hlt, hhigh⟩ := htail.inside q hq
        obtain ⟨r, hr, rfl⟩ := List.mem_map.1 hq
        have hne : r.start ≠ range.stop := fun heq => hrest r hr (heq ▸ hnext)
        simp only at hlow hlt hhigh ⊢
        omega
      obtain ⟨hsub, hinked⟩ := slices_outside text ranges (range.stop + 1) hlater hrest
      rw [if_pos hnext, drop_blank hnext, Spans.outside, hcovers, if_neg Bool.false_ne_true]
      refine ⟨(hsub.cons blank).append_left _, congrArg _ ?_⟩
      rw [hinked, List.filter_cons_of_neg (by simp)]
    · obtain ⟨hsub, hinked⟩ := slices_outside text ranges range.stop htail hrest
      rw [if_neg hnext]
      exact ⟨hsub.append_left _, congrArg _ hinked⟩

/-! ## removing one -/

theorem rangesOf_eq (text : JsString) (ref : InlineRef) :
    rangesOf text ref = (marks (tokenReader labelFits) 0 text).filter (fun f => decide (refKey f.mark = refKey ref)) := by
  rw [rangesOf, findRefs_eq]

theorem rangesOf_ordered (text : JsString) (ref : InlineRef) : Spans.Ordered 0 text.length (places (rangesOf text ref)) := by
  have hall := Marks.marks_ordered (tokenReader labelFits) text.length 0 text (Nat.le_refl _)
  rw [Nat.zero_add] at hall
  rw [rangesOf_eq]
  exact hall.sublist (List.filter_sublist.map _)

theorem rangesOf_start {text : JsString} {ref : InlineRef} {range : RefRange} (h : range ∈ rangesOf text ref) :
    text[range.start]? ≠ some blank := by
  rw [rangesOf_eq] at h
  obtain ⟨j, n, hread, hstart, -, -⟩ := (Marks.mem_marks _).1 (List.mem_filter.1 h).1
  obtain ⟨trigger, rest, hproper, htext, -⟩ := tokenRe_iff.1 hread
  rw [Nat.zero_add] at hstart
  have hhead := congrArg (fun t => t[0]?) htext
  simp only [List.getElem?_drop, Nat.add_zero] at hhead
  rw [hstart, hhead]
  intro heq
  obtain rfl := Option.some.inj (show some trigger = some blank from heq)
  exact absurd hproper.trigger (by decide)

theorem removeRef_outside (text : JsString) (ref : InlineRef) :
    (removeRef text ref).Sublist (Spans.outside (places (rangesOf text ref)) 0 text) ∧
      (removeRef text ref).filter (· ≠ blank) = (Spans.outside (places (rangesOf text ref)) 0 text).filter (· ≠ blank) := by
  unfold removeRef
  dsimp only
  split
  · rename_i hnone
    rw [hnone]
    simp [places]
  · obtain ⟨hsub, hinked⟩ := slices_outside text (rangesOf text ref) 0 (rangesOf_ordered text ref) (fun _ => rangesOf_start)
    exact ⟨(collapse_sublist _).trans hsub, (collapse_inked _).trans hinked⟩

def Settled (parts : List JsString) : Prop :=
  values (tokenReader looseFits) parts.flatten = parts.flatMap (values (tokenReader looseFits)) ∧
    ∀ ref ∈ parts.flatMap (values (tokenReader looseFits)), collapseBlanks ref.label = ref.label

theorem looseFits_of_fits {label : JsString} (h : labelFits label = true) : looseFits label = true := by
  rw [looseFits, labelFits, Bool.and_eq_true, decide_eq_true_eq, decide_eq_true_eq]
  rw [labelFits, Bool.and_eq_true, decide_eq_true_eq, decide_eq_true_eq] at h
  refine ⟨?_, Nat.le_trans (collapse_sublist label).length_le h.2⟩
  cases label with
  | nil => exact h.1
  | cons c label =>
    obtain ⟨more, hmore⟩ := List.head?_eq_some_iff.1 (head?_collapse (c :: label))
    rw [hmore]
    exact Nat.succ_pos _

theorem values_loose : ∀ {text : JsString},
    (∀ ref ∈ values (tokenReader looseFits) text, collapseBlanks ref.label = ref.label) →
      values (tokenReader looseFits) text = refsOf text
  | [], _ => rfl
  | c :: text, h => by
    rw [values_cons] at h
    have ih := values_loose (fun ref hr => h ref (List.mem_append_right _ hr))
    rw [refsOf, values_cons, values_cons, ih]
    refine congrArg (· ++ _) ?_
    have hread : (tokenReader looseFits).read (c :: text) = (tokenReader labelFits).read (c :: text) := by
      refine Option.ext (fun found => ?_)
      constructor
      · intro hloose
        obtain ⟨trigger, rest, hproper, htext, hn⟩ := tokenRe_iff.1 (show _ = some (found.1, found.2) from hloose)
        have hstable := h found.1 (List.mem_append_left _ (by rw [hloose]; exact List.mem_singleton_self _))
        have hfits := hproper.fits
        rw [looseFits, hstable] at hfits
        exact tokenRe_iff.2 ⟨trigger, rest, { hproper with fits := hfits }, htext, hn⟩
      · intro hstrict
        obtain ⟨trigger, rest, hproper, htext, hn⟩ := tokenRe_iff.1 (show _ = some (found.1, found.2) from hstrict)
        exact tokenRe_iff.2
          ⟨trigger, rest, { hproper with fits := looseFits_of_fits hproper.fits }, htext, hn⟩
    rw [hread]

/-- **Removing a reference leaves the others**, and makes no new one, when the parts are settled. -/
theorem removeRef_refs {text : JsString} {ref : InlineRef}
    (h : rangesOf text ref = [] ∨ Settled (slices text 0 (rangesOf text ref))) :
    parseRefs (removeRef text ref) = (parseRefs text).filter (fun r => !decide (refKey r = refKey ref)) := by
  have hslices := slices_refs text (fun r => decide (refKey r = refKey ref)) (rangesOf text ref) 0 (rangesOf_eq text ref).symm
  rw [List.drop_zero] at hslices
  have hleft : refsOf (removeRef text ref) = (refsOf text).filter (fun r => !decide (refKey r = refKey ref)) := by
    unfold removeRef
    by_cases hnone : rangesOf text ref = []
    · rw [if_pos hnone, ← hslices, hnone]
      simp [slices]
    · obtain ⟨hjoin, hlabels⟩ := h.resolve_left hnone
      have hparts : (slices text 0 (rangesOf text ref)).flatMap (values (tokenReader looseFits)) =
          (slices text 0 (rangesOf text ref)).flatMap refsOf := by
        refine List.flatMap_congr (fun part hpart => values_loose (fun r hr => hlabels r ?_))
        exact List.mem_flatMap.2 ⟨part, hpart, hr⟩
      rw [if_neg hnone, values_collapse, hjoin, ← hslices, ← hparts]
      refine List.map_congr_left (fun r hr => ?_) |>.trans (List.map_id _)
      rw [collapsed, hlabels r hr]
      rfl
  rw [parseRefs_eq, parseRefs_eq, hleft]
  exact (Keyed.filter_collect refKey (fun key => !decide (key = refKey ref)) (refsOf text)).symm

/-! ## editing -/

def handbook : InlineRef :=
  { kind := .doc, id := literal "aaaaaaaa-bbbb-cccc-dddd-eeeeeeeeeeee", label := literal "ab" }

def minutes : MentionTarget :=
  { kind := some .file, id := literal "00000000-1111-2222-3333-444444444444", label := literal "c" }

end Mentions
end MyGpt
