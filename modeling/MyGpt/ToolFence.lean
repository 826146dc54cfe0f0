import MyGpt.ToolObservation
import MyGpt.PromptFence
/-!
# ToolFence — what reaches the model of a fenced result

Every message fits its cap.  But the gateway closes the fence before the result is serialised and cut again, and that cut
takes the closing marker first: every result that had to be truncated loses it, unless the cap is far above the limit of
the fence (`truncated_fence_left_open`).  `observation_fenced_iff` has the exact bound.
-/
namespace MyGpt
namespace Security

open Chat (Text strip)

/-! ## what a message is for -/

def FencedObservation (w : WordChars) (nonce : Nonce) (json : JsonReader) (call : ToolCall) (maxChars : Option Nat) : Prop :=
  (messageParts w nonce json call maxChars).all = toOpenaiToolMessage w nonce json call maxChars ∧
    (toOpenaiToolMessage w nonce json call maxChars).length ≤ maxChars.getD call.cap ∧
    (messageParts w nonce json call maxChars).Enclosed w nonce call.label

/-- How long the message is that shows the first `n` characters of the rendered content. -/
def Parts.previewSize (p : Parts) (n : Nat) : Nat := (previewEnvelope (p.all.take n)).length

/-- **When it is**: there is no untrusted text; the message has to be cut before it; or a fence was put around it and
either nothing was cut, or the cut leaves the closing marker (its line break takes two characters) whole. -/
def ObservationMeets (w : WordChars) (nonce : Nonce) (json : JsonReader) (call : ToolCall) (maxChars : Option Nat) : Prop :=
  let p := renderedParts w nonce json call
  let cap := maxChars.getD call.cap
  p.body = [] ∨
    ((call.truncated = true ∨ cap < p.all.length) ∧ cap < p.previewSize (p.before.length + 1)) ∨
    (call.Fenced w nonce ∧ ((call.truncated = false ∧ p.all.length ≤ cap) ∨
      p.previewSize (p.before.length + p.body.length + 2 + (closeMarker nonce).length) ≤ cap))

/-! ## escapes -/

theorem escape_append (s t : Text) : escape (s ++ t) = escape s ++ escape t := List.flatMap_append

/-- A character stands for itself, or an escape without `>` takes its place. -/
def Escapes (c : Char) (t : Text) : Prop := t = [c] ∨ ∃ code, t = '\\' :: code ∧ '>' ∉ code

theorem escapes_escapeChar (c : Char) : Escapes c (escapeChar c) := by
  have hdigit : ∀ n, n < 16 → hexDigit n ≠ '>' := by decide
  refine iteInduction (motive := Escapes c) (fun _ => .inr ⟨_, rfl, by decide⟩) (fun _ => ?_)
  refine iteInduction (motive := Escapes c) (fun _ => .inr ⟨_, rfl, by decide⟩) (fun _ => ?_)
  refine iteInduction (motive := Escapes c) (fun _ => .inr ⟨_, rfl, by decide⟩) (fun _ => ?_)
  refine iteInduction (motive := Escapes c) (fun _ => .inr ⟨_, rfl, by decide⟩) (fun _ => ?_)
  refine iteInduction (motive := Escapes c) (fun _ => .inr ⟨_, rfl, by decide⟩) (fun _ => ?_)
  refine iteInduction (motive := Escapes c) (fun _ => .inr ⟨_, rfl, by decide⟩) (fun _ => ?_)
  refine iteInduction (motive := Escapes c) (fun _ => .inr ⟨_, rfl, by decide⟩) (fun _ => ?_)
  refine iteInduction (motive := Escapes c) (fun hcontrol => .inr ⟨_, rfl, ?_⟩) (fun _ => .inl rfl)
  have h₁ := hdigit (c.toNat / 16) (by omega)
  have h₂ := hdigit (c.toNat % 16) (by omega)
  simp [h₁.symm, h₂.symm]

theorem escapeChar_ne_nil (c : Char) : escapeChar c ≠ [] := by
  obtain heq | ⟨code, heq, -⟩ := escapes_escapeChar c
  · rw [heq]
    exact List.cons_ne_nil _ _
  · rw [heq]
    exact List.cons_ne_nil _ _

theorem escape_eq_nil {s : Text} : escape s = [] ↔ s = [] := by
  cases s with
  | nil => exact Iff.rfl
  | cons c s =>
    rw [escape, List.flatMap_cons, List.append_eq_nil_iff]
    exact iff_of_false (fun h => escapeChar_ne_nil c h.1) (List.cons_ne_nil c s)

def Verbatim (c : Char) : Prop := c ≠ '"' ∧ c ≠ '\\' ∧ 32 ≤ c.toNat

theorem escapeChar_verbatim {c : Char} (h : Verbatim c) : escapeChar c = [c] := by
  obtain ⟨hquote, hslash, hcontrol⟩ := h
  have hne : ∀ d : Char, d.toNat < 32 → ¬ (c == d) = true := by
    intro d hd heq
    obtain rfl := beq_iff_eq.1 heq
    omega
  have hnum : ∀ n : Nat, n < 32 → ¬ (c.toNat == n) = true := by
    intro n hn heq
    have hc := beq_iff_eq.1 heq
    omega
  unfold escapeChar
  rw [if_neg (by simpa using hquote), if_neg (by simpa using hslash), if_neg (hne '\n' (by decide)),
    if_neg (hne '\r' (by decide)), if_neg (hne '\t' (by decide)), if_neg (hnum 8 (by decide)), if_neg (hnum 12 (by decide)),
    if_neg (by omega)]

theorem escape_verbatim {s : Text} (h : ∀ c ∈ s, Verbatim c) : escape s = s := by
  induction s with
  | nil => rfl
  | cons c s ih =>
    rw [escape, List.flatMap_cons, escapeChar_verbatim (h c List.mem_cons_self)]
    exact congrArg (c :: ·) (ih (fun d hd => h d (List.mem_cons_of_mem c hd)))

theorem verbatim_of_mem {l s : Text} (hl : ∀ c ∈ l, Verbatim c) (hs : ∀ c ∈ s, c ∈ l) : ∀ c ∈ s, Verbatim c :=
  fun c hc => hl c (hs c hc)

instance (c : Char) : Decidable (Verbatim c) := by
  unfold Verbatim
  infer_instance

theorem verbatim_nonce (nonce : Nonce) : ∀ c ∈ nonce.text, Verbatim c :=
  verbatim_of_mem (l := "0123456789abcdef".toList) (by decide) nonce.hex

section
variable {w : WordChars} {nonce : Nonce}

theorem verbatim_word {c : Char} (h : w.mem c = true) : Verbatim c := by
  by_cases hascii : c.toNat < 128
  · rw [w.ascii c hascii] at h
    have hcontrol : ∀ n, n < 32 → ((Char.ofNat n).isAlphanum || Char.ofNat n == '_') = false := by decide
    refine ⟨?_, ?_, ?_⟩
    · rintro rfl
      exact absurd h (by decide)
    · rintro rfl
      exact absurd h (by decide)
    · by_contra hlt
      have hno := hcontrol c.toNat (Nat.not_le.1 hlt)
      rw [Char.ofNat_toNat, h] at hno
      cases hno
  · refine ⟨?_, ?_, by omega⟩
    · rintro rfl
      exact hascii (by decide)
    · rintro rfl
      exact hascii (by decide)

theorem verbatim_label (label : Text) : ∀ c ∈ sanitizeLabel w label, Verbatim c := by
  have hsafe : ∀ c, safeLabelChar w c = true → Verbatim c := by
    intro c hc
    simp only [safeLabelChar, Bool.or_eq_true, beq_iff_eq, Bool.and_eq_true, decide_eq_true_eq] at hc
    obtain (((hc | rfl) | rfl) | ⟨hlow, -⟩) | rfl := hc
    · exact verbatim_word hc
    · decide
    · decide
    · have hnum : '一'.toNat ≤ c.toNat := hlow
      have hbig : '一'.toNat = 19968 := rfl
      refine ⟨?_, ?_, by omega⟩
      · rintro rfl
        exact absurd hnum (by decide)
      · rintro rfl
        exact absurd hnum (by decide)
    · decide
  unfold sanitizeLabel
  dsimp only
  split
  · decide
  · refine Scan.forall_mem_sub (fun _ c hc => ?_) (fun c s hlen => ?_) _
    · obtain rfl := List.mem_singleton.1 hc
      decide
    · by_cases hc : safeLabelChar w c = true
      · exact hsafe c hc
      · rw [List.takeWhile_cons_of_pos (by simpa using hc)] at hlen
        cases hlen

theorem verbatim_append {s t : Text} (hs : ∀ c ∈ s, Verbatim c) (ht : ∀ c ∈ t, Verbatim c) : ∀ c ∈ s ++ t, Verbatim c := by
  intro c hc
  rcases List.mem_append.1 hc with hc | hc
  · exact hs c hc
  · exact ht c hc

theorem escape_openMarker (label : Text) : escape (fenceOpenMarker w nonce label) = fenceOpenMarker w nonce label :=
  escape_verbatim (verbatim_append (verbatim_append (verbatim_append (verbatim_append (by decide) (verbatim_label label))
    (by decide)) (verbatim_nonce nonce)) (by decide))

theorem escape_closeMarker (nonce : Nonce) : escape (closeMarker nonce) = closeMarker nonce :=
  escape_verbatim (verbatim_append (verbatim_append (verbatim_append (by decide) (by decide)) (verbatim_nonce nonce))
    (by decide))

theorem openMarker_infix_escape {label s : Text} (h : fenceOpenMarker w nonce label <:+: s) :
    fenceOpenMarker w nonce label <:+: escape s := by
  obtain ⟨pre, post, rfl⟩ := h
  rw [escape_append, escape_append, escape_openMarker]
  exact ⟨escape pre, escape post, rfl⟩

theorem closeMarker_infix_escape {s : Text} (h : closeMarker nonce <:+: s) : closeMarker nonce <:+: escape s := by
  obtain ⟨pre, post, rfl⟩ := h
  rw [escape_append, escape_append, escape_closeMarker]
  exact ⟨escape pre, escape post, rfl⟩

/-! ## the cut -/

theorem length_previewEnvelope_mono {s t : Text} (h : s <+: t) :
    (previewEnvelope s).length ≤ (previewEnvelope t).length := by
  obtain ⟨u, rfl⟩ := h
  simp only [previewEnvelope, escape_append, List.length_append]
  omega

theorem previewCut_largest (value : Text) (cap : Nat) :
    Bisect.Largest (fun n => decide ((previewEnvelope (value.take n)).length ≤ cap)) value.length (previewCut value cap) := by
  refine Bisect.largest_spec (fun m n hle hfits => ?_) value.length
  have hprefix : value.take n <+: value.take m := by
    rw [← Nat.min_eq_left hle, ← List.take_take]
    exact List.take_prefix n _
  have hshorter := length_previewEnvelope_mono hprefix
  rw [decide_eq_true_eq] at hfits ⊢
  omega

theorem length_boundedJsonPreview (value : Text) (cap : Nat) : (boundedJsonPreview value cap).length ≤ cap := by
  unfold boundedJsonPreview
  split
  · rename_i n hcut
    exact of_decide_eq_true ((previewCut_largest value cap).some n hcut).2.1
  · unfold previewScalar
    split
    · assumption
    · rw [List.length_take]
      exact Nat.min_le_left ..

theorem length_toOpenaiToolMessage (w : WordChars) (nonce : Nonce) (json : JsonReader) (call : ToolCall)
    (maxChars : Option Nat) : (toOpenaiToolMessage w nonce json call maxChars).length ≤ maxChars.getD call.cap := by
  unfold toOpenaiToolMessage boundedJsonObservation
  split
  · rename_i hwhole
    exact hwhole.1
  · exact length_boundedJsonPreview ..

/-! ## the parts -/

theorem contentParts_all (w : WordChars) (nonce : Nonce) (call : ToolCall) : (contentParts w nonce call).all = call.content w nonce := by
  unfold contentParts ToolCall.content Parts.all
  by_cases hfenced : call.Fenced w nonce
  · rw [if_pos hfenced, applyUntrustedBoundary_fenced hfenced.1 hfenced.2]
    simp only [List.append_assoc, List.cons_append, List.nil_append]
  · rw [if_neg hfenced]
    rfl

theorem renderedParts_all (json : JsonReader) (call : ToolCall) :
    (renderedParts w nonce json call).all = rendered json (call.content w nonce) := by
  unfold renderedParts rendered Parts.all
  cases json.redump (call.content w nonce) with
  | some value => exact List.append_nil value
  | none =>
    have hall := contentParts_all w nonce call
    unfold Parts.all at hall
    rw [Option.getD_none, ← hall, jsonString, escape_append, escape_append]
    simp only [List.cons_append, List.append_assoc]

theorem take_all (p : Parts) (n : Nat) : p.all.take n = p.before.take n ++ (p.body.take (n - p.before.length) ++
    p.after.take (n - p.before.length - p.body.length)) := by
  rw [Parts.all, List.append_assoc, List.take_append, List.take_append]

theorem preview_all (p : Parts) (n : Nat) : (p.preview n).all = previewEnvelope (p.all.take n) := by
  unfold Parts.preview previewEnvelope
  rw [take_all, Parts.all]
  simp only [escape_append, List.append_assoc]

theorem messageParts_all (json : JsonReader) (call : ToolCall) (maxChars : Option Nat) :
    (messageParts w nonce json call maxChars).all = toOpenaiToolMessage w nonce json call maxChars := by
  unfold messageParts toOpenaiToolMessage boundedJsonObservation
  dsimp only
  rw [renderedParts_all]
  split
  · exact renderedParts_all json call
  · unfold boundedJsonPreview
    split
    · rw [preview_all, renderedParts_all]
    · rfl

theorem renderedParts_fenced {json : JsonReader} {call : ToolCall} (h : call.Fenced w nonce) :
    renderedParts w nonce json call =
      { before := '"' :: escape (fenceOpenMarker w nonce call.label ++ '\n' :: declaration ++ ['\n'])
        body := escape (fencedBody w (ownBody nonce call.bounded) (allowedChars w nonce call.label (some call.cap)))
        after := '\\' :: 'n' :: closeMarker nonce ++ (escape call.note ++ ['"']) } := by
  have hcontent : ∃ rest, call.content w nonce = '<' :: rest := by
    rw [← contentParts_all, contentParts, if_pos h]
    exact ⟨_, rfl⟩
  obtain ⟨rest, hrest⟩ := hcontent
  have hnone : json.redump (call.content w nonce) = none := by
    rw [hrest]
    exact json.angle rest
  unfold renderedParts
  rw [hnone, contentParts, if_pos h]
  dsimp only
  have hnewline : escape ('\n' :: closeMarker nonce ++ call.note) = '\\' :: 'n' :: closeMarker nonce ++ escape call.note := by
    rw [escape_append]
    have hclose : escape ('\n' :: closeMarker nonce) = '\\' :: 'n' :: escape (closeMarker nonce) := rfl
    rw [hclose, escape_closeMarker]
  rw [hnewline, List.append_assoc ('\\' :: 'n' :: closeMarker nonce)]

theorem lt_not_mem_before {json : JsonReader} {call : ToolCall} (h : ¬ call.Fenced w nonce) :
    '<' ∉ (renderedParts w nonce json call).before := by
  unfold renderedParts
  split
  · exact List.not_mem_nil
  · rw [contentParts, if_neg h]
    have hquote : '<' ∉ ['"'] := by decide
    exact hquote

theorem lt_mem_openMarker (label : Text) : '<' ∈ fenceOpenMarker w nonce label := by
  unfold fenceOpenMarker openPrefix
  simp

/-! ## the closing marker after the cut -/

theorem count_escape (s : Text) : (escape s).count '>' = s.count '>' := by
  have hchar : ∀ c, (escapeChar c).count '>' = [c].count '>' := by
    intro c
    by_cases hc : c = '>'
    · rw [hc]
      rfl
    · obtain heq | ⟨code, heq, hcode⟩ := escapes_escapeChar c
      · rw [heq]
      · rw [heq, List.count_cons_of_ne (by decide), List.count_eq_zero.2 hcode, List.count_singleton, if_neg (by simpa using hc)]
  induction s with
  | nil => rfl
  | cons c s ih =>
    rw [escape, List.flatMap_cons, List.count_append, hchar]
    rw [escape] at ih
    rw [ih, ← List.count_append]
    rfl

def closeFront (nonce : Nonce) : Text := closePrefix ++ " #".toList ++ nonce.text

theorem closeMarker_split (nonce : Nonce) : closeMarker nonce = closeFront nonce ++ ['>', '>', '>'] := rfl

theorem gt_not_mem_front (nonce : Nonce) : '>' ∉ closeFront nonce := by
  have hnonce : '>' ∉ nonce.text := fun h => absurd (nonce.hex '>' h) (by decide)
  have hfixed : '>' ∉ closePrefix ++ " #".toList := by decide
  intro h
  rcases List.mem_append.1 h with h | h
  · exact hfixed h
  · exact hnonce h

theorem count_cut (nonce : Nonce) {k : Nat} (rest : Text) (hk : k < 2 + (closeMarker nonce).length) :
    (('\\' :: 'n' :: closeMarker nonce ++ rest).take k).count '>' < 3 := by
  have hfront : ('\\' :: 'n' :: closeFront nonce).count '>' = 0 := by
    rw [List.count_eq_zero]
    simp [gt_not_mem_front nonce]
  have hsplit : '\\' :: 'n' :: closeMarker nonce ++ rest = ('\\' :: 'n' :: closeFront nonce) ++ ('>' :: '>' :: '>' :: rest) := by
    rw [closeMarker_split]
    simp only [List.cons_append, List.append_assoc, List.nil_append]
  have hlength : (closeMarker nonce).length = (closeFront nonce).length + 3 := by
    rw [closeMarker_split, List.length_append]
    rfl
  rw [hsplit, List.take_append, List.count_append]
  have hnone : (('\\' :: 'n' :: closeFront nonce).take k).count '>' = 0 :=
    Nat.le_zero.1 (hfront ▸ (List.take_sublist k _).count_le '>')
  have htail : (('>' :: '>' :: '>' :: rest).take (k - ('\\' :: 'n' :: closeFront nonce).length)).count '>' ≤
      k - ('\\' :: 'n' :: closeFront nonce).length := by
    refine Nat.le_trans List.count_le_length ?_
    rw [List.length_take]
    exact Nat.min_le_left ..
  have hcons : ('\\' :: 'n' :: closeFront nonce).length = (closeFront nonce).length + 2 := rfl
  omega

theorem closeMarker_infix_cut (k : Nat) (rest : Text) :
    closeMarker nonce <:+: escape (('\\' :: 'n' :: closeMarker nonce ++ rest).take k ++ truncationMarker) ++ previewTail ↔
      2 + (closeMarker nonce).length ≤ k := by
  constructor
  · intro hinfix
    by_contra hlt
    have hcut := count_cut nonce rest (Nat.not_le.1 hlt)
    have hcount := hinfix.sublist.count_le '>'
    rw [List.count_append, count_escape, List.count_append] at hcount
    have hmarker : truncationMarker.count '>' = 0 := by decide
    have htail : previewTail.count '>' = 0 := by decide
    have hthree : 3 ≤ (closeMarker nonce).count '>' := by
      rw [closeMarker_split, List.count_append]
      exact Nat.le_add_left 3 _
    omega
  · intro hle
    refine List.IsInfix.trans (closeMarker_infix_escape ?_) (List.prefix_append _ _).isInfix
    refine List.IsInfix.trans ?_ (List.prefix_append _ _).isInfix
    have hall : ('\\' :: 'n' :: closeMarker nonce ++ rest).take k =
        ('\\' :: 'n' :: closeMarker nonce) ++ rest.take (k - ('\\' :: 'n' :: closeMarker nonce).length) := by
      rw [List.take_append, List.take_of_length_le]
      rw [List.length_cons, List.length_cons]
      omega
    rw [hall]
    exact ⟨['\\', 'n'], rest.take _, rfl⟩

theorem preview_body {p : Parts} {n : Nat} : (p.preview n).body = [] ↔ p.body = [] ∨ n ≤ p.before.length := by
  show escape (p.body.take (n - p.before.length)) = [] ↔ _
  rw [escape_eq_nil, List.take_eq_nil_iff, Nat.sub_eq_zero_iff_le, or_comm]

theorem previewSize_le_iff {p : Parts} (cap : Nat) {n : Nat} (hn : n ≤ p.all.length) :
    p.previewSize n ≤ cap ↔ ∃ k, previewCut p.all cap = some k ∧ n ≤ k := by
  have hlargest := previewCut_largest p.all cap
  constructor
  · intro hfits
    cases hcut : previewCut p.all cap with
    | none =>
      have hno := hlargest.none hcut n hn
      rw [decide_eq_false_iff_not] at hno
      exact absurd hfits hno
    | some k => exact ⟨k, rfl, (hlargest.some k hcut).2.2 n hn (decide_eq_true hfits)⟩
  · rintro ⟨k, hcut, hle⟩
    have hfits := of_decide_eq_true (hlargest.some k hcut).2.1
    have hprefix : p.all.take n <+: p.all.take k := by
      rw [← Nat.min_eq_left hle, ← List.take_take]
      exact List.take_prefix n _
    exact Nat.le_trans (length_previewEnvelope_mono hprefix) hfits

theorem enclosed_whole {json : JsonReader} {call : ToolCall} :
    (renderedParts w nonce json call).Enclosed w nonce call.label ↔
      (renderedParts w nonce json call).body = [] ∨ call.Fenced w nonce := by
  by_cases hfenced : call.Fenced w nonce
  · refine iff_of_true (fun _ => ?_) (.inr hfenced)
    rw [renderedParts_fenced hfenced]
    constructor
    · refine List.IsInfix.trans ?_ (List.suffix_cons '"' _).isInfix
      exact openMarker_infix_escape ⟨[], '\n' :: declaration ++ ['\n'], by simp⟩
    · exact ⟨['\\', 'n'], escape call.note ++ ['"'], by simp⟩
  · rw [or_iff_left hfenced]
    refine ⟨fun h => ?_, fun h hne => absurd h hne⟩
    by_contra hne
    exact lt_not_mem_before hfenced ((h hne).1.subset (lt_mem_openMarker call.label))

theorem enclosed_preview {json : JsonReader} {call : ToolCall} {n : Nat}
    (hbody : (renderedParts w nonce json call).body ≠ []) (hn : (renderedParts w nonce json call).before.length < n) :
    ((renderedParts w nonce json call).preview n).Enclosed w nonce call.label ↔
      call.Fenced w nonce ∧ (renderedParts w nonce json call).before.length +
        (renderedParts w nonce json call).body.length + 2 + (closeMarker nonce).length ≤ n := by
  have hshown : ((renderedParts w nonce json call).preview n).body ≠ [] := by
    rw [Ne, preview_body]
    exact not_or.2 ⟨hbody, Nat.not_le.2 hn⟩
  have hbefore : ((renderedParts w nonce json call).preview n).before =
      previewHead ++ escape (renderedParts w nonce json call).before := by
    show previewHead ++ escape ((renderedParts w nonce json call).before.take n) = _
    rw [List.take_of_length_le (Nat.le_of_lt hn)]
  by_cases hfenced : call.Fenced w nonce
  · rw [and_iff_right hfenced]
    have hopen : fenceOpenMarker w nonce call.label <:+: ((renderedParts w nonce json call).preview n).before := by
      rw [hbefore]
      refine List.IsInfix.trans (openMarker_infix_escape ?_) (List.suffix_append previewHead _).isInfix
      exact ((enclosed_whole.2 (.inr hfenced)) hbody).1
    have hclose : closeMarker nonce <:+: ((renderedParts w nonce json call).preview n).after ↔
        2 + (closeMarker nonce).length ≤
          n - (renderedParts w nonce json call).before.length - (renderedParts w nonce json call).body.length := by
      rw [← closeMarker_infix_cut _ (escape call.note ++ ['"'])]
      have hafter : (renderedParts w nonce json call).after =
          '\\' :: 'n' :: closeMarker nonce ++ (escape call.note ++ ['"']) := by rw [renderedParts_fenced hfenced]
      rw [← hafter]
      exact Iff.rfl
    constructor
    · intro h
      have hk := hclose.1 (h hshown).2
      omega
    · intro h _
      exact ⟨hopen, hclose.2 (by omega)⟩
  · refine iff_of_false (fun h => ?_) (fun h => hfenced h.1)
    have hmem := (h hshown).1.subset (lt_mem_openMarker call.label)
    rw [hbefore] at hmem
    rcases List.mem_append.1 hmem with hmem | hmem
    · exact absurd hmem (by decide)
    · have hplain : escape (renderedParts w nonce json call).before = [] ∨
          escape (renderedParts w nonce json call).before = ['\\', '"'] := by
        unfold renderedParts
        split
        · exact .inl rfl
        · rw [contentParts, if_neg hfenced]
          exact .inr rfl
      rcases hplain with hplain | hplain <;> rw [hplain] at hmem <;> exact absurd hmem (by decide)

end

/-- **Tool observations reach the model fenced** exactly when there is no untrusted text, the cut comes before it, or a
fence was put around it and the cut, if any, comes after its closing marker. -/
theorem observation_fenced_iff (w : WordChars) (nonce : Nonce) (json : JsonReader) (call : ToolCall)
    (maxChars : Option Nat) :
    FencedObservation w nonce json call maxChars ↔ ObservationMeets w nonce json call maxChars := by
  unfold FencedObservation ObservationMeets
  rw [and_iff_right (messageParts_all json call maxChars),
    and_iff_right (length_toOpenaiToolMessage w nonce json call maxChars)]
  unfold messageParts
  generalize hp : renderedParts w nonce json call = p
  generalize maxChars.getD call.cap = cap
  have hall : p.all.length = p.before.length + p.body.length + p.after.length := by
    rw [Parts.all, List.length_append, List.length_append]
  -- something has to be cut
  have hcutIff : (call.truncated = true ∨ cap < p.all.length) ↔ ¬ (p.all.length ≤ cap ∧ call.truncated = false) := by
    rw [not_and_or, Nat.not_le, Bool.not_eq_false]
    exact or_comm
  by_cases hwhole : p.all.length ≤ cap ∧ call.truncated = false
  · dsimp only
    rw [if_pos hwhole, hcutIff, ← hp, enclosed_whole]
    refine or_congr_right ⟨fun h => .inr ⟨h, .inl ⟨hwhole.2, hp ▸ hwhole.1⟩⟩, ?_⟩
    rintro (⟨hcut, -⟩ | ⟨h, -⟩)
    · exact absurd hwhole (hp ▸ hcut)
    · exact h
  · dsimp only
    rw [if_neg hwhole, hcutIff, and_iff_right hwhole]
    have hnotWhole : ¬ (call.truncated = false ∧ p.all.length ≤ cap) := fun h => hwhole ⟨h.2, h.1⟩
    rw [or_iff_right hnotWhole]
    by_cases hbody : p.body = []
    · refine iff_of_true (fun hne => ?_) (.inl hbody)
      split at hne
      · exact absurd (preview_body.2 (.inl hbody)) hne
      · exact absurd rfl hne
    rw [or_iff_right hbody]
    have hpos : 0 < p.body.length := List.length_pos_iff.2 hbody
    have hbefore := previewSize_le_iff cap (show p.before.length + 1 ≤ p.all.length by omega)
    by_cases hshown : p.previewSize (p.before.length + 1) ≤ cap
    · obtain ⟨k, hcut, hk⟩ := hbefore.1 hshown
      rw [or_iff_right (Nat.not_lt.2 hshown), hcut]
      have hiff := @enclosed_preview w nonce json call k
        (by rw [hp]; exact hbody) (by rw [hp]; exact hk)
      rw [hp] at hiff
      rw [hiff]
      refine and_congr_right (fun hfenced => ?_)
      have hafter : 2 + (closeMarker nonce).length ≤ p.after.length := by
        rw [← hp, renderedParts_fenced hfenced]
        simp only [List.length_append, List.length_cons]
        omega
      rw [previewSize_le_iff _ (by omega)]
      constructor
      · intro hle
        exact ⟨k, hcut, hle⟩
      · rintro ⟨k', hcut', hle⟩
        cases hcut.symm.trans hcut'
        exact hle
    · refine iff_of_true (fun hne => ?_) (.inl (Nat.not_le.1 hshown))
      split at hne
      · rename_i k hcut
        refine absurd (preview_body.2 (.inr ?_)) hne
        by_contra hlt
        exact hshown (hbefore.2 ⟨k, hcut, Nat.not_le.1 hlt⟩)
      · exact absurd rfl hne

def noJson : JsonReader := ⟨fun _ => none, fun _ => rfl⟩

def longResult : ToolCall := { toolName := ['t'], result := .text (List.replicate 300 'x'), cap := 260 }

/-- **The fence is left open**: the message shows text of the result, and no closing marker. -/
theorem truncated_fence_left_open :
    ¬ ∀ (w : WordChars) (nonce : Nonce) (json : JsonReader) (call : ToolCall) (maxChars : Option Nat),
      FencedObservation w nonce json call maxChars := by
  intro h
  have henclosed := (h asciiWords sampleNonce noJson longResult none).2.2 (by decide +kernel)
  exact absurd henclosed.2 (by decide +kernel)

end Security
end MyGpt
