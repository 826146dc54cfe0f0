import MyGpt.DocumentParsers
/-!
# LayoutRanges — whether a unit's range is where its own text stands

Offsets that walk along a join are the offsets of its parts.  They go wrong where the parts are cut a second time, as a slide
is at its line feeds (`slide_points_iff`).
-/
namespace MyGpt
namespace Rag

open Chat (Text isSpace strip)
open Lines (splitlines unlines Free)
open Joins (slice offset)

/-! ## units -/

structure Own where
  text : Text
  place : Nat
  deriving DecidableEq

structure Unit where
  charStart : Nat
  charEnd : Nat
  own : Option Own
  deriving DecidableEq

/-- **The range lies inside the text and holds exactly the unit's own text, where that stands.** -/
def Unit.Points (text : Text) (u : Unit) : Prop :=
  ∃ own, u.own = some own ∧ u.charEnd ≤ text.length ∧ slice text u.charStart u.charEnd = own.text ∧ u.charStart = own.place

/-! ## walking along a join -/

theorem joinBases_get {blocks : List Text} {i : Nat} {block : Text} (h : blocks[i]? = some block) (cursor : Nat) (first : Bool) :
    (joinBases cursor first blocks)[i]? = some ((if first then cursor else cursor + 2) + offset 2 blocks i) := by
  induction blocks generalizing i cursor first with
  | nil => simp at h
  | cons b blocks ih =>
    cases i with
    | zero => simp [joinBases]
    | succ i =>
      have hrest := ih (by simpa using h) ((if first then cursor else cursor + 2) + b.length) false
      simp [joinBases, hrest]
      omega

theorem lineOffsets_get {lines : List Text} {i : Nat} {line : Text} (h : lines[i]? = some line) (cursor : Nat) :
    (lineOffsets cursor lines)[i]? = some (cursor + offset 1 lines i) := by
  induction lines generalizing i cursor with
  | nil => simp at h
  | cons l lines ih =>
    cases i with
    | zero => simp [lineOffsets]
    | succ i =>
      have hrest := ih (by simpa using h) (cursor + l.length + 1)
      simp [lineOffsets, hrest]
      omega

theorem slice_nested {text part : Text} {base a b : Nat} (h : slice text base (base + part.length) = part)
    (hle : base + part.length ≤ text.length) (hb : b ≤ part.length) :
    slice text (base + a) (base + b) = slice part a b ∧ base + b ≤ text.length := by
  refine ⟨?_, by omega⟩
  have hslice := Joins.slice_slice (l := text) (a := base) (b := base + part.length) (c := a) (d := b) (by omega)
  rw [h] at hslice
  exact hslice.symm

/-! ## slides -/

/-- The paragraph that the shape `i` of a slide stands for. -/
def Slide.own (prs : Presentation) (number i : Nat) : Option Own :=
  (prs.slides[number - 1]?).bind (fun slide => (slide.pending[i]?).map (fun entry =>
    ⟨entry.2.2, offset 2 (slideTexts prs.slides) (number - 1) + offset 1 (slide.blocks number) entry.1⟩))

def Presentation.units (prs : Presentation) : List Unit :=
  match (parsePptx prs).layout with
  | none => []
  | some layout => layout.slides.flatMap (fun slide => slide.shapes.mapIdx (fun i shape =>
      ⟨shape.charStart, shape.charEnd, Slide.own prs slide.slideNo i⟩))

def Piece.OneLine : Piece → Prop
  | .paragraph _ text => '\n' ∉ text
  | .table rows => rows.length ≤ 1

/-- **No paragraph comes behind a table of several rows, or behind a paragraph with a line feed, or has one itself.** -/
def Presentation.Aligned (prs : Presentation) : Prop :=
  ∀ slide ∈ prs.slides, ∀ pre shape text post, slide.pieces = pre ++ .paragraph shape text :: post →
    '\n' ∉ text ∧ ∀ piece ∈ pre, piece.OneLine

theorem newline_title (number : Nat) : '\n' ∉ "# 幻灯片 ".toList ++ Nat.toDigits 10 number := by
  rw [List.mem_append, not_or]
  refine ⟨by decide, fun hdigit => ?_⟩
  have := Nat.isDigit_of_mem_toDigits (by decide) (by decide) hdigit
  revert this
  decide

theorem mem_strip {c : Char} {text : Text} (h : c ∈ strip text) : c ∈ text := by
  unfold strip at h
  rw [List.mem_reverse] at h
  have hdrop := (List.dropWhile_sublist _).subset h
  rw [List.mem_reverse] at hdrop
  exact (List.dropWhile_sublist _).subset hdrop

theorem newline_tableCell (cell : Option Text) : '\n' ∉ tableCell cell := by
  cases cell with
  | none => simp [tableCell]
  | some cell =>
    intro h
    obtain ⟨c, -, hc⟩ := List.mem_map.1 (mem_strip h)
    revert hc
    split
    · decide
    · split
      · decide
      next hne _ => exact fun heq => hne heq

theorem mem_intercalate {c : Char} {sep : Text} {parts : List Text} (h : c ∈ sep.intercalate parts) :
    c ∈ sep ∨ ∃ part ∈ parts, c ∈ part := by
  induction parts with
  | nil => cases h
  | cons part parts ih =>
    by_cases hparts : parts = []
    · subst hparts
      simp at h
      exact .inr ⟨part, List.mem_cons_self, h⟩
    · rw [List.intercalate_cons_of_ne_nil hparts, List.mem_append, List.mem_append] at h
      rcases h with (h | h) | h
      · exact .inr ⟨part, List.mem_cons_self, h⟩
      · exact .inl h
      · rcases ih h with h | ⟨p, hp, h⟩
        · exact .inl h
        · exact .inr ⟨p, List.mem_cons_of_mem _ hp, h⟩

theorem mem_intercalate_of_part {c : Char} {sep part : Text} {parts : List Text} (hpart : part ∈ parts) (h : c ∈ part) :
    c ∈ sep.intercalate parts := by
  induction parts with
  | nil => cases hpart
  | cons p parts ih =>
    by_cases hparts : parts = []
    · subst hparts
      rw [List.mem_singleton.1 hpart] at h
      simpa using h
    · rw [List.intercalate_cons_of_ne_nil hparts, List.mem_append, List.mem_append]
      rcases List.mem_cons.1 hpart with rfl | hin
      · exact .inl (.inl h)
      · exact .inr (ih hin)

theorem mem_intercalate_of_sep {c : Char} {sep p q : Text} {parts : List Text} (h : c ∈ sep) :
    c ∈ sep.intercalate (p :: q :: parts) := by
  rw [List.intercalate_cons_cons]
  simp [h]

theorem newline_renderTable (rows : List (List Text)) : '\n' ∉ renderTable rows ↔ rows.length ≤ 1 := by
  unfold renderTable tableToText
  match rows with
  | [] => simp [unlines]
  | [row] =>
    simp only [List.map_cons, List.map_nil, unlines, List.intercalate_singleton, List.length_cons, List.length_nil, zero_add,
      Nat.le_refl, iff_true]
    intro h
    rcases mem_intercalate h with h | ⟨part, hpart, h⟩
    · revert h
      decide
    · obtain ⟨cell, -, rfl⟩ := List.mem_map.1 hpart
      exact newline_tableCell cell h
  | row :: row' :: rows =>
    have hin : '\n' ∈ unlines (cellSeparator.intercalate (row.map (some ·) |>.map tableCell) ::
        cellSeparator.intercalate (row'.map (some ·) |>.map tableCell) ::
        (rows.map (fun row => row.map some)).map (fun row => cellSeparator.intercalate (row.map tableCell))) :=
      mem_intercalate_of_sep List.mem_cons_self
    constructor
    · exact fun hnot => absurd hin hnot
    · intro hshort
      simp at hshort

theorem newline_piece (piece : Piece) : '\n' ∉ piece.text ↔ piece.OneLine := by
  cases piece with
  | paragraph shape text => rfl
  | table rows => exact newline_renderTable rows

def Slide.cut (number : Nat) (slide : Slide) : List Text := (slide.blocks number).flatMap (fun block => block.splitOn '\n')

theorem Slide.splitOn_text (number : Nat) (slide : Slide) : (unlines (slide.blocks number)).splitOn '\n' = slide.cut number := by
  apply Joins.splitOn_join
  simp [Slide.blocks]

theorem Slide.blocks_zero (number : Nat) (slide : Slide) :
    (slide.blocks number)[0]? = some ("# 幻灯片 ".toList ++ Nat.toDigits 10 number) := by
  simp [Slide.blocks]

theorem Slide.blocks_piece {slide : Slide} {m : Nat} {piece : Piece} (number : Nat) (h : slide.pieces[m]? = some piece) :
    (slide.blocks number)[m + 1]? = some piece.text := by
  have hm := (List.getElem?_eq_some_iff.1 h).1
  unfold Slide.blocks
  rw [List.cons_append, List.getElem?_cons_succ, List.getElem?_append_left (by simpa using hm), List.getElem?_map, h]
  rfl

theorem Slide.mem_pending {slide : Slide} {entry : Nat × Shape × Text} :
    entry ∈ slide.pending ↔ ∃ m, slide.pieces[m]? = some (.paragraph entry.2.1 entry.2.2) ∧ entry.1 = m + 1 := by
  unfold Slide.pending
  rw [List.mem_filterMap]
  constructor
  · rintro ⟨⟨piece, k⟩, hpiece, hentry⟩
    rw [List.mem_zipIdx_iff_le_and_getElem?_sub] at hpiece
    cases piece with
    | table rows => cases hentry
    | paragraph shape text =>
      cases hentry
      exact ⟨k - 1, hpiece.2, by simp; omega⟩
  · rintro ⟨m, hpiece, hk⟩
    refine ⟨(.paragraph entry.2.1 entry.2.2, m + 1), ?_, ?_⟩
    · rw [List.mem_zipIdx_iff_le_and_getElem?_sub]
      simpa using hpiece
    · rw [← hk]

theorem Slide.cut_get {slide : Slide} {entry : Nat × Shape × Text} (number : Nat) (h : entry ∈ slide.pending) :
    ∃ line, (slide.cut number)[entry.1]? = some line := by
  obtain ⟨m, hpiece, hk⟩ := Slide.mem_pending.1 h
  have hblock := Slide.blocks_piece number hpiece
  have hlt := (List.getElem?_eq_some_iff.1 hblock).1
  have hle := Joins.le_pieces '\n' (slide.blocks number) (Nat.le_refl _)
  have hbound : Joins.pieces '\n' (slide.blocks number) (slide.blocks number).length ≤ (slide.cut number).length :=
    Joins.pieces_le '\n' (slide.blocks number) (slide.blocks number).length
  exact ⟨_, List.getElem?_eq_getElem (by omega)⟩

theorem Slide.cut_places {slide : Slide} {number k : Nat} {block : Text} (h : (slide.blocks number)[k]? = some block) :
    (offset 1 (slide.cut number) k = offset 1 (slide.blocks number) k ∧
      ∃ q, (slide.cut number)[k]? = some q ∧ q.length = block.length) ↔
      ∀ j q, j ≤ k → (slide.blocks number)[j]? = some q → '\n' ∉ q :=
  Joins.splitOn_places '\n' h

def Slide.unit (prs : Presentation) (i : Nat) (slide : Slide) (entry : Nat × Shape × Text) : Unit :=
  let base := offset 2 (slideTexts prs.slides) i
  let position := base + offset 1 (slide.cut (i + 1)) entry.1
  ⟨position, position + ((slide.cut (i + 1))[entry.1]?.getD []).length,
    some ⟨entry.2.2, base + offset 1 (slide.blocks (i + 1)) entry.1⟩⟩

theorem slideTexts_get {slides : List Slide} {i : Nat} {slide : Slide} (h : slides[i]? = some slide) :
    (slideTexts slides)[i]? = some (unlines (slide.blocks (i + 1))) := by
  simp [slideTexts, h]

theorem Slide.boxes (number : Nat) (slide : Slide) (base : Nat) :
    ∃ boxes : List ShapeBox,
      slide.pending.filterMap (fun entry => shapeBox (unlines (slide.blocks number)) base entry.1 entry.2.1) = boxes ∧
      boxes.length = slide.pending.length ∧ ∀ (j : Nat) entry, slide.pending[j]? = some entry → ∃ box, boxes[j]? = some box ∧
        box.charStart = base + offset 1 (slide.cut number) entry.1 ∧
        box.charEnd = box.charStart + ((slide.cut number)[entry.1]?.getD []).length := by
  have hbox : ∀ entry ∈ slide.pending, ∃ box, shapeBox (unlines (slide.blocks number)) base entry.1 entry.2.1 = some box ∧
      box.charStart = base + offset 1 (slide.cut number) entry.1 ∧
      box.charEnd = box.charStart + ((slide.cut number)[entry.1]?.getD []).length := by
    intro entry hentry
    obtain ⟨line, hline⟩ := Slide.cut_get number hentry
    refine ⟨⟨emu entry.2.1.left, emu entry.2.1.top, emu entry.2.1.width, emu entry.2.1.height, line,
      base + offset 1 (slide.cut number) entry.1, base + offset 1 (slide.cut number) entry.1 + line.length⟩, ?_, rfl, ?_⟩
    · unfold shapeBox
      simp only [Slide.splitOn_text, hline, lineOffsets_get hline]
    · simp [hline]
  generalize slide.pending = pending at hbox ⊢
  induction pending with
  | nil => exact ⟨[], rfl, rfl, by simp⟩
  | cons entry pending ih =>
    obtain ⟨boxes, hboxes, hlength, hget⟩ := ih (fun e he => hbox e (List.mem_cons_of_mem _ he))
    obtain ⟨box, hsome, hrange⟩ := hbox entry List.mem_cons_self
    refine ⟨box :: boxes, by simp [hsome, hboxes], by simp [hlength], ?_⟩
    intro j e hj
    cases j with
    | zero =>
      obtain rfl : entry = e := by simpa using hj
      exact ⟨box, rfl, hrange⟩
    | succ j => exact hget j e (by simpa using hj)

theorem Presentation.units_eq (prs : Presentation) :
    prs.units = ((prs.slides.mapIdx (renderSlide prs)).filterMap id).flatMap (fun slide => slide.shapes.mapIdx (fun i shape =>
      ⟨shape.charStart, shape.charEnd, Slide.own prs slide.slideNo i⟩)) := by
  unfold Presentation.units parsePptx
  dsimp only
  by_cases hempty : (prs.slides.mapIdx (renderSlide prs)).filterMap id = []
  · rw [if_pos hempty, hempty]
    rfl
  · rw [if_neg hempty]

theorem Presentation.mem_units (prs : Presentation) (u : Unit) :
    u ∈ prs.units ↔ ∃ (i : Nat) (slide : Slide) (entry : Nat × Shape × Text), prs.slides[i]? = some slide ∧ entry ∈ slide.pending ∧ u = slide.unit prs i entry := by
  rw [Presentation.units_eq]
  have hrender : ∀ {i : Nat} {slide : Slide}, prs.slides[i]? = some slide → renderSlide prs i slide =
      let shapes := slide.pending.filterMap (fun entry =>
        shapeBox (unlines (slide.blocks (i + 1))) (offset 2 (slideTexts prs.slides) i) entry.1 entry.2.1)
      if shapes = [] then none else some ⟨i + 1, emu prs.slideWidth, emu prs.slideHeight, shapes⟩ := by
    intro i slide hslide
    unfold renderSlide
    simp [slideTexts_get hslide, joinBases_get (slideTexts_get hslide)]
  constructor
  · intro hu
    obtain ⟨layout, hlayout, hu⟩ := List.mem_flatMap.1 hu
    obtain ⟨rendered, hin, hrendered⟩ := List.mem_filterMap.1 hlayout
    obtain ⟨i, hi, hat⟩ := List.mem_mapIdx.1 hin
    have hslide := List.getElem?_eq_getElem hi
    obtain ⟨boxes, hboxes, hlength, hget⟩ := Slide.boxes (i + 1) prs.slides[i] (offset 2 (slideTexts prs.slides) i)
    rw [hrender hslide, hboxes] at hat
    by_cases hnone : boxes = []
    · simp [hnone] at hat
      subst hat
      cases hrendered
    · simp only [hnone, if_false] at hat
      subst hat
      cases hrendered
      obtain ⟨j, hj, rfl⟩ := List.mem_mapIdx.1 hu
      change j < boxes.length at hj
      have hpending : j < prs.slides[i].pending.length := by omega
      obtain ⟨box, hbox, hstart, hend⟩ := hget j _ (List.getElem?_eq_getElem hpending)
      obtain ⟨hjlt, heq⟩ := List.getElem?_eq_some_iff.1 hbox
      refine ⟨i, prs.slides[i], prs.slides[i].pending[j], hslide, List.getElem_mem hpending, ?_⟩
      rw [heq, hend, hstart]
      simp only [Slide.unit, Slide.own, Nat.add_sub_cancel, hslide, Option.bind_some, List.getElem?_eq_getElem hpending,
        Option.map_some]
  · rintro ⟨i, slide, entry, hslide, hentry, rfl⟩
    obtain ⟨boxes, hboxes, hlength, hget⟩ := Slide.boxes (i + 1) slide (offset 2 (slideTexts prs.slides) i)
    obtain ⟨j, hj⟩ := List.mem_iff_getElem?.1 hentry
    obtain ⟨box, hbox, hstart, hend⟩ := hget j entry hj
    have hnonempty : boxes ≠ [] := by
      rintro rfl
      simp at hbox
    refine List.mem_flatMap.2 ⟨⟨i + 1, emu prs.slideWidth, emu prs.slideHeight, boxes⟩, ?_, ?_⟩
    · refine List.mem_filterMap.2 ⟨some ⟨i + 1, emu prs.slideWidth, emu prs.slideHeight, boxes⟩, ?_, rfl⟩
      obtain ⟨hi, heq⟩ := List.getElem?_eq_some_iff.1 hslide
      refine List.mem_mapIdx.2 ⟨i, hi, ?_⟩
      rw [heq, hrender hslide, hboxes]
      simp [hnonempty]
    · obtain ⟨hjlt, heq⟩ := List.getElem?_eq_some_iff.1 hbox
      refine List.mem_mapIdx.2 ⟨j, hjlt, ?_⟩
      simp only [heq, hend, hstart, Slide.unit, Slide.own, Nat.add_sub_cancel, hslide, Option.bind_some, hj, Option.map_some]

/-- **A paragraph's box is in its place** exactly when no block up to it has a line feed. -/
theorem Slide.unit_points {prs : Presentation} {i : Nat} {slide : Slide} {entry : Nat × Shape × Text}
    (hslide : prs.slides[i]? = some slide) (hentry : entry ∈ slide.pending) :
    (slide.unit prs i entry).Points (parsePptx prs).text ↔
      ∀ j q, j ≤ entry.1 → (slide.blocks (i + 1))[j]? = some q → '\n' ∉ q := by
  obtain ⟨m, hpiece, hk⟩ := Slide.mem_pending.1 hentry
  have hblock := Slide.blocks_piece (i + 1) hpiece
  rw [← hk] at hblock
  obtain ⟨hplaced, hin⟩ := Joins.slice_join blankLine (slideTexts_get hslide)
  obtain ⟨hown, hownin⟩ := Joins.slice_join ['\n'] hblock
  obtain ⟨hnested, hnestedin⟩ := slice_nested (a := offset 1 (slide.blocks (i + 1)) entry.1) hplaced hin hownin
  rw [← Slide.cut_places hblock]
  obtain ⟨line, hline⟩ := Slide.cut_get (i + 1) hentry
  constructor
  · rintro ⟨own, hown', hinside, htext, hat⟩
    cases hown'
    simp only [Slide.unit] at hinside htext hat
    refine ⟨by omega, line, hline, ?_⟩
    have hlength := congrArg List.length htext
    rw [Joins.length_slice hinside, hline] at hlength
    simp only [Option.getD_some] at hlength
    simp only [Piece.text]
    omega
  · rintro ⟨hoffset, q, hq, hlength⟩
    obtain rfl : line = q := Option.some.inj (hline.symm.trans hq)
    refine ⟨_, rfl, ?_, ?_, ?_⟩
    · simp only [Slide.unit, hline, Option.getD_some]
      rw [hoffset, hlength]
      simpa [Nat.add_assoc, blankLine, parsePptx] using hnestedin
    · simp only [Slide.unit, hline, Option.getD_some]
      rw [hoffset, hlength, Nat.add_assoc]
      exact hnested.trans hown
    · simp only [Slide.unit]
      rw [hoffset]

/-- **Slides**: every box points at its paragraph exactly when the presentation is aligned. -/
theorem slide_points_iff (prs : Presentation) : (∀ u ∈ prs.units, u.Points (parsePptx prs).text) ↔ prs.Aligned := by
  constructor
  · intro hpoints slide hslide pre shape text post hpieces
    obtain ⟨i, hi⟩ := List.mem_iff_getElem?.1 hslide
    have hpiece : slide.pieces[pre.length]? = some (.paragraph shape text) := by simp [hpieces]
    have hentry : (pre.length + 1, shape, text) ∈ slide.pending := Slide.mem_pending.2 ⟨pre.length, hpiece, rfl⟩
    have hfree := (Slide.unit_points hi hentry).1 (hpoints _ ((prs.mem_units _).2 ⟨i, slide, _, hi, hentry, rfl⟩))
    refine ⟨hfree (pre.length + 1) text (Nat.le_refl _) (Slide.blocks_piece (i + 1) hpiece), ?_⟩
    intro piece hin
    obtain ⟨m, hm⟩ := List.mem_iff_getElem?.1 hin
    have hlt := (List.getElem?_eq_some_iff.1 hm).1
    have hget : slide.pieces[m]? = some piece := by rw [hpieces, List.getElem?_append_left hlt, hm]
    exact (newline_piece piece).1 (hfree (m + 1) piece.text (by simp; omega) (Slide.blocks_piece (i + 1) hget))
  · intro haligned u hu
    obtain ⟨i, slide, entry, hslide, hentry, rfl⟩ := (prs.mem_units u).1 hu
    refine (Slide.unit_points hslide hentry).2 ?_
    obtain ⟨m, hpiece, hk⟩ := Slide.mem_pending.1 hentry
    obtain ⟨hm, hat⟩ := List.getElem?_eq_some_iff.1 hpiece
    have hpieces : slide.pieces = slide.pieces.take m ++ .paragraph entry.2.1 entry.2.2 :: slide.pieces.drop (m + 1) := by
      rw [← hat, ← List.drop_eq_getElem_cons hm, List.take_append_drop]
    obtain ⟨hown, hbefore⟩ := haligned slide (List.mem_of_getElem? hslide) _ _ _ _ hpieces
    intro j q hj hq
    cases j with
    | zero =>
      obtain rfl := Option.some.inj ((slide.blocks_zero (i + 1)).symm.trans hq)
      exact newline_title (i + 1)
    | succ j =>
      have hjlt : j < slide.pieces.length := by omega
      have hblock := Slide.blocks_piece (i + 1) (List.getElem?_eq_getElem hjlt)
      cases hblock.symm.trans hq
      rcases Nat.lt_or_ge j m with hlt | hge
      · refine (newline_piece _).2 (hbefore _ ?_)
        exact List.mem_take_iff_getElem.2 ⟨j, by omega, rfl⟩
      · obtain rfl : j = m := by omega
        rw [hat]
        exact hown

end Rag
end MyGpt
