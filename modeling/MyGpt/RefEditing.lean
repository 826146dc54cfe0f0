import MyGpt.InlineRefs
/-!
# RefEditing — references survive the editing of the text around them

A token says what it was spelled with, the label made clean (`decode_encode`).  A text with a token put in has the references
of both sides and the new one (`refs_splice`), so the others are all there unless what the token replaces has a part of one
(`insertMention_refs`).  What is left when a reference is removed is the text outside its tokens, blanks aside, and it has
the other references, unless a token is made where the parts meet or in a label with a run of blanks (`removeRef_refs`).
-/
namespace MyGpt
namespace Mentions

open Sse (JsString lf cr)
open Js (trim isBlank trim_within)
open Marks (values scan_eq values_eq values_between values_append)

/-! ## a token, there and back -/

theorem mem_singleBlanks {c : UInt16} : ∀ {inRun : Bool} {text : JsString}, c ∈ singleBlanks inRun text → c = blank ∨ c ∈ text
  | _, [], h => absurd h List.not_mem_nil
  | inRun, d :: text, h => by
    rw [singleBlanks] at h
    split at h
    · split at h
      · exact (mem_singleBlanks h).imp_right (List.mem_cons_of_mem d)
      · rcases List.mem_cons.1 h with rfl | h
        · exact .inl rfl
        · exact (mem_singleBlanks h).imp_right (List.mem_cons_of_mem d)
    · rcases List.mem_cons.1 h with rfl | h
      · exact .inr List.mem_cons_self
      · exact (mem_singleBlanks h).imp_right (List.mem_cons_of_mem d)

theorem sanitizeLabel_fits (label : JsString) :
    labelFits (sanitizeLabel label) = true ∧ ∀ c ∈ sanitizeLabel label, inLabel c = true := by
  unfold sanitizeLabel
  dsimp only
  split
  · exact ⟨by decide, List.all_eq_true.1 (by decide)⟩
  · rename_i hsome
    have hmem := fun c (hc : c ∈ trim ((trim (singleBlanks false (label.map (fun c =>
      if [leftBracket, rightBracket, lf, cr].contains c then blank else c)))).take maxRefLabel)) =>
        (trim_within _).subset (List.mem_of_mem_take ((trim_within _).subset hc))
    refine ⟨?_, fun c hc => ?_⟩
    · rw [labelFits, Bool.and_eq_true, decide_eq_true_eq, decide_eq_true_eq]
      refine ⟨List.length_pos_iff.2 hsome, Nat.le_trans (trim_within _).length_le ?_⟩
      exact List.length_take_le _ _
    · rcases mem_singleBlanks (hmem c hc) with rfl | hc
      · decide
      · obtain ⟨d, -, rfl⟩ := List.mem_map.1 hc
        split
        · decide
        · rename_i hplain
          simp only [List.contains_cons, List.contains_nil, Bool.or_false, Bool.or_eq_true, beq_iff_eq, not_or] at hplain
          simp [inLabel, hplain]

def cleaned (ref : InlineRef) : InlineRef := { ref with label := sanitizeLabel ref.label }

theorem proper_cleaned {ref : InlineRef} (h : isUuid ref.id = true) : Proper labelFits atSign (cleaned ref) :=
  ⟨by decide, (sanitizeLabel_fits ref.label).2, (sanitizeLabel_fits ref.label).1, h⟩

theorem tokenRe_encode {ref : InlineRef} (h : isUuid ref.id = true) :
    tokenRe labelFits (encodeRef ref) = some (cleaned ref, (encodeRef ref).length) :=
  tokenRe_iff.2 ⟨atSign, [], proper_cleaned h, (List.append_nil _).symm, rfl⟩

theorem read_encode {ref : InlineRef} (h : isUuid ref.id = true) :
    (tokenReader labelFits).read (encodeRef ref) = some (cleaned ref, (encodeRef ref).length) := by
  have hread : (tokenReader labelFits).read = tokenRe labelFits := rfl
  rw [hread, tokenRe_encode h]

theorem spell_inj {trigger trigger' : UInt16} {ref ref' : InlineRef} (h : spell trigger ref = spell trigger' ref')
    (hlabel : ∀ c ∈ ref.label, inLabel c = true) (hlabel' : ∀ c ∈ ref'.label, inLabel c = true) : ref.id = ref'.id := by
  have hstop : ¬ inLabel rightBracket = true := by decide
  have htarget : ∀ r : InlineRef, (∀ c ∈ r.label, inLabel c = true) →
      (r.label ++ targetText r.kind r.id).dropWhile inLabel = targetText r.kind r.id := by
    intro r hr
    rw [List.dropWhile_append_of_pos hr]
    show (rightBracket :: _).dropWhile inLabel = _
    rw [List.dropWhile_cons_of_neg hstop]
    rfl
  have hbehind := congrArg (fun t => (t.drop 2).dropWhile inLabel) h
  simp only [spell, List.drop_succ_cons, List.drop_zero, htarget ref hlabel, htarget ref' hlabel'] at hbehind
  have hthird := congrArg (fun t => (t ++ ([] : JsString))[2]?) hbehind
  simp only [getElem?_targetText] at hthird
  rw [name_inj hthird, targetText, targetText, List.append_assoc, List.append_assoc] at hbehind
  exact List.append_cancel_right (List.append_cancel_left hbehind)

theorem decodeToken_whole {token : JsString} {ref : InlineRef} (h : tokenRe labelFits token = some (ref, token.length)) :
    decodeToken token = some ref := by
  simp [decodeToken, h]

/-- **There and back**: a token says what it was made of, the label made clean; with another id there is no token. -/
theorem decode_encode (ref : InlineRef) :
    decodeToken (encodeRef ref) = if isUuid ref.id then some (cleaned ref) else none := by
  by_cases hid : isUuid ref.id = true
  · rw [decodeToken_whole (tokenRe_encode hid), if_pos hid]
  · rw [if_neg hid, decodeToken]
    cases hread : tokenRe labelFits (encodeRef ref) with
    | none => rfl
    | some found =>
      obtain ⟨trigger, rest, hproper, htext, hn⟩ := tokenRe_iff.1 (show _ = some (found.1, found.2) from hread)
      refine if_neg (fun hwhole => ?_)
      have hrest : rest = [] := by
        have hlength := congrArg List.length htext
        rw [List.length_append, ← hn, hwhole] at hlength
        exact List.length_eq_zero_iff.1 (by omega)
      rw [hrest, List.append_nil] at htext
      have hspell : spell atSign (cleaned ref) = spell trigger found.1 := htext
      have hclean : ∀ c ∈ (cleaned ref).label, inLabel c = true := (sanitizeLabel_fits ref.label).2
      have hsame : (cleaned ref).id = found.1.id := spell_inj hspell hclean hproper.label
      have huuid := hproper.id
      rw [← hsame] at huuid
      exact hid huuid

/-! ## the references of a text -/

def refsOf (text : JsString) : List InlineRef := values (tokenReader labelFits) text

theorem findRefs_eq (text : JsString) : findRefs text = Marks.marks (tokenReader labelFits) 0 text :=
  scan_eq _ 0 0 text (fun j hj => absurd hj (Nat.not_lt_zero j))

theorem parseRefs_eq (text : JsString) : parseRefs text = Keyed.collect refKey (refsOf text) := by
  rw [parseRefs, findRefs_eq, refsOf, values_eq _ 0]

theorem hasRef_iff {text : JsString} {ref : InlineRef} : hasRef text ref = true ↔ refKey ref ∈ (refsOf text).map refKey := by
  rw [hasRef, parseRefs_eq, ← Keyed.mem_collect, List.any_eq_true, List.mem_map]
  simp only [decide_eq_true_eq]

theorem tokenRe_blank (fits : JsString → Bool) (text : JsString) : tokenRe fits (blank :: text) = none := by
  cases text with
  | nil => rfl
  | cons c text =>
    have hblank : isTrigger blank = false := by decide
    simp [tokenRe, hblank]

theorem values_blank (fits : JsString → Bool) (text : JsString) :
    values (tokenReader fits) (blank :: text) = values (tokenReader fits) text := by
  rw [values, show (tokenReader fits).read (blank :: text) = none from tokenRe_blank fits text]

theorem parse_encode {ref : InlineRef} (h : isUuid ref.id = true) : parseRefs (encodeRef ref) = [cleaned ref] := by
  have hbetween := values_between (tokenReader labelFits) (p := []) (s := []) (read_encode h)
  rw [List.append_nil] at hbetween
  rw [parseRefs_eq, refsOf, show encodeRef ref = [] ++ encodeRef ref from rfl, hbetween]
  rfl

/-! ## putting one in -/

/-- **A text with a token put in** has the references of both sides, and the new one between them. -/
theorem refs_splice {ref : InlineRef} (h : isUuid ref.id = true) (text : JsString) (range : Nat × Nat) :
    refsOf (splice text range (encodeRef ref)) = refsOf (text.take range.1) ++ cleaned ref :: refsOf (text.drop range.2) := by
  unfold splice withBlank refsOf
  rw [List.append_assoc]
  split
  · exact values_between _ (read_encode h)
  · rw [List.append_assoc, values_between _ (read_encode h), List.singleton_append, values_blank]

theorem replaced_le (text : JsString) (place : Nat) (active : Option MentionQuery) :
    (replaced text place active).1 ≤ (replaced text place active).2 := by
  cases active with
  | none => exact Nat.le_refl _
  | some query => exact Nat.le_max_left _ _

theorem refusal_none {text : JsString} {target : MentionTarget} {ref : InlineRef} {limits : MentionLimits}
    (h : refusal text target ref limits = none) : isUuid ref.id = true ∧ refKey ref ∉ (refsOf text).map refKey := by
  unfold refusal at h
  dsimp only at h
  split at h
  · cases h
  · rename_i htoken
    split at h
    · cases h
    · split at h
      · cases h
      · rename_i hnew
        refine ⟨?_, fun hmem => hnew (hasRef_iff.2 hmem)⟩
        rw [decode_encode] at htoken
        by_contra hid
        exact htoken (if_neg hid)

theorem insertMention_inv {text : JsString} {caret : Int} {target : MentionTarget} {limits : MentionLimits}
    {anchor : Option (Option MentionQuery)} (h : (insertMention text caret target limits anchor).ok = true) :
    ∃ ref range, targetToRef target = some ref ∧ isUuid ref.id = true ∧ refKey ref ∉ (refsOf text).map refKey ∧
      range = replaced text (clampCaret text caret) (anchor.getD (findMentionAt text (clampCaret text caret))) ∧
      (insertMention text caret target limits anchor).text = splice text range (encodeRef ref) := by
  unfold insertMention at h ⊢
  dsimp only at h ⊢
  cases href : targetToRef target with
  | none =>
    rw [href] at h
    cases h
  | some ref =>
    rw [href] at h
    dsimp only at h ⊢
    cases hrefusal : refusal text target ref limits with
    | some reason =>
      rw [hrefusal] at h
      cases h
    | none =>
      rw [hrefusal] at h
      dsimp only at h ⊢
      obtain ⟨hid, hnew⟩ := refusal_none hrefusal
      refine ⟨ref, _, rfl, hid, hnew, rfl, ?_⟩
      split at h
      · cases h
      · rename_i hfits
        rw [if_neg hfits]

def CutsToken (text : JsString) (range : Nat × Nat) : Prop := ∃ f ∈ findRefs text, f.start < range.2 ∧ range.1 < f.stop

theorem cutsToken_iff {text : JsString} {range : Nat × Nat} :
    CutsToken text range ↔ Marks.Cuts (tokenReader labelFits) text range.1 range.2 := by
  rw [CutsToken, findRefs_eq, Marks.Cuts]

/-- **Putting one in** leaves the others exactly when what is replaced has no part of one. -/
theorem splice_refs {text : JsString} {ref : InlineRef} {range : Nat × Nat} (hid : isUuid ref.id = true)
    (hle : range.1 ≤ range.2) :
    (refsOf (splice text range (encodeRef ref))).Perm (cleaned ref :: refsOf text) ↔ ¬ CutsToken text range := by
  rw [refs_splice hid, cutsToken_iff]
  constructor
  · intro hperm hcuts
    have hlost := Marks.length_around_lt _ hle hcuts
    have hlength := hperm.length_eq
    rw [List.length_append, List.length_cons, List.length_cons] at hlength
    unfold refsOf at hlength
    omega
  · intro hkeeps
    have haround : refsOf text = refsOf (text.take range.1) ++ refsOf (text.drop range.2) := Marks.values_around _ hle hkeeps
    rw [haround]
    exact List.perm_middle

theorem splice_parse {text : JsString} {ref : InlineRef} {range : Nat × Nat} (hid : isUuid ref.id = true)
    (hnew : refKey ref ∉ (refsOf text).map refKey) (hle : range.1 ≤ range.2) (hkeeps : ¬ CutsToken text range) :
    (parseRefs (splice text range (encodeRef ref))).Perm (cleaned ref :: parseRefs text) := by
  rw [cutsToken_iff] at hkeeps
  have haround : refsOf text = refsOf (text.take range.1) ++ refsOf (text.drop range.2) := Marks.values_around _ hle hkeeps
  rw [haround, List.map_append, List.mem_append, not_or] at hnew
  rw [parseRefs_eq, parseRefs_eq, refs_splice hid, haround]
  exact Keyed.collect_insert refKey hnew.1 hnew.2

end Mentions
end MyGpt
