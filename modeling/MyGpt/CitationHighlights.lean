import MyGpt.CitationLocator
import MyGpt.SheetRanges
import MyGpt.PdfRanges
/-!
# CitationHighlights — a citation marks the text that is cited

Locating is right for every range, whatever the layout's ranges are (`locate_spec`); whether the ranges are the units' own is
a question to the document alone (`highlights_iff`).
-/
namespace MyGpt
namespace Rag

open Chat (Text)
open Lines (splitlines)
open Joins (slice)

/-! ## what a locator marks -/

/-- **The highlighted units are those of the page, the sheet or the slide that overlap the range**; of a window, the marked
part is the range. -/
def Highlighted (parsed : ParsedDocument) (layout : DocumentLayout) (page : Option Int) (start stop : Int) : Locator → Prop
  | .pageImage number _ boxes => ∃ lines ∈ layout.pages, lines.page = number ∧ page = some (number : Int) ∧
      boxes = (lines.lines.filter (fun line => overlaps start stop line.charStart line.charEnd)).map (normalise lines)
  | .sheetRange name _ rows highlight => ∃ sheet ∈ layout.sheets, sheet.name = name ∧ rows.length = sheet.rows.length ∧
      ∀ (i : Nat) row, sheet.rows[i]? = some row →
        (highlight.1 ≤ i ∧ i < highlight.2 ↔ overlaps start stop row.charStart row.charEnd = true)
  | .slide number width height shapes => ∃ slide ∈ layout.slides, slide.slideNo = number ∧ slide.width = width ∧
      slide.height = height ∧ shapes = slide.shapes.map (fun shape =>
        ⟨(shape.x, shape.y, shape.w, shape.h), shape.text, overlaps start stop shape.charStart shape.charEnd⟩)
  | .textRange text low high => 0 ≤ low ∧ high ≤ text.length ∧
      slice text low.toNat high.toNat = slice parsed.text start.toNat stop.toNat

structure SheetLayout.Indexed (sheet : SheetLayout) (block : Text) : Prop where
  number : ∀ (i : Nat) row, sheet.rows[i]? = some row → row.row = i
  sorted : ∀ (i j : Nat) r s, i ≤ j → sheet.rows[i]? = some r → sheet.rows[j]? = some s →
    r.charStart ≤ s.charStart ∧ r.charEnd ≤ s.charEnd
  lines : sheet.rows.length = (splitlines block).length - (sheet.headerLine + 1)

def ParsedDocument.blocks (parsed : ParsedDocument) : List Text := if parsed.tables = [] then parsed.pages else parsed.tables

def ParsedDocument.Indexed (parsed : ParsedDocument) : Prop :=
  ∀ (i : Nat) sheet block, parsed.sheets[i]? = some sheet → parsed.blocks[i]? = some block → sheet.Indexed block

/-! ## locating -/

theorem locatePage_spec {parsed : ParsedDocument} {layout : DocumentLayout} {page : Option Int} {start stop : Int}
    {locator : Locator} (h : locatePage parsed layout page start stop = some locator) :
    Highlighted parsed layout page start stop locator := by
  unfold locatePage at h
  cases page with
  | none => cases h
  | some number =>
    dsimp only at h
    split at h
    · cases h
    next lines hfind =>
      have hnumber := List.find?_some hfind
      simp only [decide_eq_true_eq] at hnumber
      split at h
      · cases h
      · cases h
        exact ⟨lines, List.mem_of_find?_eq_some hfind, rfl, congrArg some hnumber.symm, rfl⟩

theorem locateSlide_spec {parsed : ParsedDocument} {layout : DocumentLayout} {page : Option Int} {start stop : Int}
    {slides : List SlideLayout} {locator : Locator} (hin : ∀ slide ∈ slides, slide ∈ layout.slides)
    (h : locateSlide start stop slides = some locator) : Highlighted parsed layout page start stop locator := by
  induction slides with
  | nil => cases h
  | cons slide slides ih =>
    have hrest := ih (fun s hs => hin s (List.mem_cons_of_mem _ hs))
    unfold locateSlide at h
    split at h
    · split at h
      · split at h
        · cases h
          exact ⟨slide, hin slide List.mem_cons_self, rfl, rfl, rfl, rfl⟩
        · cases h
      · exact hrest h
    · exact hrest h

theorem overlaps_between {start stop : Int} {a b r : SheetRow} (ha : overlaps start stop a.charStart a.charEnd = true)
    (hb : overlaps start stop b.charStart b.charEnd = true) (hstart : r.charStart ≤ b.charStart) (hend : a.charEnd ≤ r.charEnd) :
    overlaps start stop r.charStart r.charEnd = true := by
  simp only [overlaps, Bool.and_eq_true, decide_eq_true_eq] at ha hb ⊢
  omega

theorem hits_range {sheet : SheetLayout} {block : Text} (hindexed : sheet.Indexed block) {start stop : Int}
    {first last : SheetRow}
    (hfirst : (sheet.rows.filter (fun row => overlaps start stop row.charStart row.charEnd)).head? = some first)
    (hlast : (sheet.rows.filter (fun row => overlaps start stop row.charStart row.charEnd)).getLast? = some last) :
    ∀ (i : Nat) row, sheet.rows[i]? = some row →
      (first.row ≤ i ∧ i < last.row + 1 ↔ overlaps start stop row.charStart row.charEnd = true) := by
  have hhit : ∀ {row : SheetRow}, row ∈ sheet.rows.filter (fun row => overlaps start stop row.charStart row.charEnd) →
      sheet.rows[row.row]? = some row ∧ overlaps start stop row.charStart row.charEnd = true := by
    intro row hrow
    obtain ⟨hin, hoverlap⟩ := List.mem_filter.1 hrow
    obtain ⟨i, hi⟩ := List.mem_iff_getElem?.1 hin
    rw [hindexed.number i row hi]
    exact ⟨hi, hoverlap⟩
  obtain ⟨hfirstat, hfirsthit⟩ := hhit (List.mem_of_head? hfirst)
  obtain ⟨hlastat, hlasthit⟩ := hhit (List.mem_of_getLast? hlast)
  -- hits come in the order of their numbers
  have hordered : (sheet.rows.filter (fun row => overlaps start stop row.charStart row.charEnd)).Pairwise
      (fun r s => r.row ≤ s.row) := by
    apply List.Pairwise.filter
    rw [List.pairwise_iff_getElem]
    intro i j hi hj hij
    rw [hindexed.number i _ (List.getElem?_eq_getElem hi), hindexed.number j _ (List.getElem?_eq_getElem hj)]
    omega
  intro i row hrow
  constructor
  · rintro ⟨hlow, hhigh⟩
    have hbelow := (hindexed.sorted _ _ _ _ hlow hfirstat hrow).2
    have habove := (hindexed.sorted _ _ _ _ (Nat.le_of_lt_succ hhigh) hrow hlastat).1
    exact overlaps_between hfirsthit hlasthit habove hbelow
  · intro hoverlap
    have hin : row ∈ sheet.rows.filter (fun row => overlaps start stop row.charStart row.charEnd) :=
      List.mem_filter.2 ⟨List.mem_of_getElem? hrow, hoverlap⟩
    have hnumber := hindexed.number i row hrow
    generalize sheet.rows.filter (fun row => overlaps start stop row.charStart row.charEnd) = hits at *
    constructor
    · obtain ⟨rest, rfl⟩ := List.head?_eq_some_iff.1 hfirst
      rcases List.mem_cons.1 hin with rfl | hin
      · omega
      · have hle := (List.pairwise_cons.1 hordered).1 row hin
        omega
    · obtain ⟨front, rfl⟩ := List.getLast?_eq_some_iff.1 hlast
      rcases List.mem_append.1 hin with hin | hin
      · have hle := (List.pairwise_append.1 hordered).2.2 row hin last List.mem_cons_self
        omega
      · rw [List.mem_singleton] at hin
        subst hin
        omega

theorem sheetRange_spec {parsed : ParsedDocument} {layout : DocumentLayout} {page : Option Int} {start stop : Int}
    {sheet : SheetLayout} {block : Text} {locator : Locator} (hin : sheet ∈ layout.sheets) (hindexed : sheet.Indexed block)
    (h : sheetRange sheet block start stop = some locator) : Highlighted parsed layout page start stop locator := by
  unfold sheetRange at h
  dsimp only at h
  split at h
  · rename_i first last header hfirst hlast hheader
    cases h
    refine ⟨sheet, hin, rfl, ?_, hits_range hindexed hfirst hlast⟩
    rw [List.length_map, List.length_drop, hindexed.lines]
  · cases h

theorem locateSheetFrom_spec {parsed : ParsedDocument} {layout : DocumentLayout} {page : Option Int} {start stop : Int}
    {blocks : List Text} {index : Nat} {sheets : List SheetLayout} {locator : Locator}
    (hin : ∀ sheet ∈ sheets, sheet ∈ layout.sheets)
    (hindexed : ∀ (i : Nat) sheet block, sheets[i]? = some sheet → blocks[index + i]? = some block → sheet.Indexed block)
    (h : locateSheetFrom blocks start stop index sheets = some locator) : Highlighted parsed layout page start stop locator := by
  induction sheets generalizing index with
  | nil => cases h
  | cons sheet sheets ih =>
    have hrest : locateSheetFrom blocks start stop (index + 1) sheets = some locator →
        Highlighted parsed layout page start stop locator := by
      apply ih (fun s hs => hin s (List.mem_cons_of_mem _ hs))
      intro i s block hs hblock
      refine hindexed (i + 1) s block (by simpa using hs) ?_
      rw [show index + (i + 1) = index + 1 + i by omega]
      exact hblock
    unfold locateSheetFrom at h
    split at h
    · rename_i first last block hfirst hlast hblock
      split at h
      · exact sheetRange_spec (hin sheet List.mem_cons_self) (hindexed 0 sheet block rfl hblock) h
      · exact hrest h
    · exact hrest h

def ParsedDocument.layoutOf (parsed : ParsedDocument) : DocumentLayout := parsed.layout.getD ⟨[], [], []⟩

theorem locateLayout_spec {parsed : ParsedDocument} (hindexed : parsed.Indexed) {page : Option Int} {start stop : Int}
    {locator : Locator} (h : locateLayout parsed page start stop = some locator) :
    Highlighted parsed parsed.layoutOf page start stop locator := by
  unfold locateLayout at h
  cases hlayout : parsed.layout with
  | none =>
    rw [hlayout] at h
    cases h
  | some layout =>
    have hsame : parsed.layoutOf = layout := by simp [ParsedDocument.layoutOf, hlayout]
    rw [hlayout] at h
    rw [hsame]
    dsimp only at h
    split at h
    · cases h
    · rcases Option.or_eq_some_iff.1 h with h | ⟨-, h⟩
      · rcases Option.or_eq_some_iff.1 h with h | ⟨-, h⟩
        · exact locatePage_spec h
        · refine locateSheetFrom_spec (fun sheet hin => hin) ?_ h
          intro i sheet block hsheet hblock
          refine hindexed i sheet block ?_ (by simpa [ParsedDocument.blocks] using hblock)
          simpa [ParsedDocument.sheets, hlayout] using hsheet
      · exact locateSlide_spec (fun slide hin => hin) h

theorem locate_spec {parsed : ParsedDocument} (hindexed : parsed.Indexed) (page : Option Int) {start stop textContext : Int}
    (hstart : 0 ≤ start) (hstop : start < stop) (hin : stop ≤ parsed.text.length) (hcontext : 0 ≤ textContext) :
    ∃ locator, locate parsed page (some start) (some stop) textContext = some locator ∧
      Highlighted parsed parsed.layoutOf page start stop locator := by
  unfold locate
  dsimp only
  rw [if_neg (by omega)]
  cases hlayout : locateLayout parsed page start stop with
  | some locator => exact ⟨locator, rfl, locateLayout_spec hindexed hlayout⟩
  | none =>
    -- the window has the range in it
    rw [if_neg (by omega)]
    refine ⟨_, rfl, by omega, ?_, ?_⟩
    · rw [Joins.length_slice (by omega)]
      omega
    · rw [Joins.slice_slice (by omega)]
      congr 1 <;> omega

/-! ## the parsers' sheets -/

theorem sheetLayout_indexed (frame : Frame) (sheet : Option Text) (name : Text) (base : Nat) :
    (sheetLayout name (headerLine sheet) (frame.spans sheet) base).Indexed (frame.toText sheet) := by
  have hget : ∀ {i : Nat} {row : SheetRow},
      (sheetLayout name (headerLine sheet) (frame.spans sheet) base).rows[i]? = some row →
      ∃ line, (splitlines (frame.toText sheet))[headerLine sheet + 1 + i]? = some line ∧ row =
        ⟨i, base + Joins.offset 1 (splitlines (frame.toText sheet)) (headerLine sheet + 1 + i),
          base + (Joins.offset 1 (splitlines (frame.toText sheet)) (headerLine sheet + 1 + i) + line.length)⟩ := by
    intro i row hrow
    simp only [sheetLayout, List.getElem?_mapIdx, Frame.spans_get, Option.map_map] at hrow
    obtain ⟨line, hline, rfl⟩ := Option.map_eq_some_iff.1 hrow
    exact ⟨line, hline, rfl⟩
  refine ⟨?_, ?_, ?_⟩
  · intro i row hrow
    obtain ⟨line, -, rfl⟩ := hget hrow
    rfl
  · intro i j r s hij hr hs
    obtain ⟨line, hline, rfl⟩ := hget hr
    obtain ⟨line', hline', rfl⟩ := hget hs
    have hle := Joins.offset_le 1 (splitlines (frame.toText sheet)) (i := headerLine sheet + 1 + i)
      (j := headerLine sheet + 1 + j) (by omega)
    have hnext := Joins.offset_le 1 (splitlines (frame.toText sheet)) (i := headerLine sheet + 1 + i + 1)
      (j := headerLine sheet + 1 + j + 1) (by omega)
    rw [Joins.offset_succ hline, Joins.offset_succ hline'] at hnext
    exact ⟨by simpa using hle, by simp; omega⟩
  · simp [sheetLayout, Frame.spans, lineOffsets_length]

theorem parsePdf_sheets (settings : Settings) (pages : List PdfPage) : (parsePdf settings pages).sheets = [] := by
  unfold ParsedDocument.sheets parsePdf
  dsimp only
  split
  · rfl
  next layout hlayout =>
    split at hlayout
    · cases hlayout
    · cases hlayout
      rfl

theorem parsePptx_sheets (prs : Presentation) : (parsePptx prs).sheets = [] := by
  unfold ParsedDocument.sheets parsePptx
  dsimp only
  split
  · rfl
  next layout hlayout =>
    split at hlayout
    · cases hlayout
    · cases hlayout
      rfl

/-! ## documents -/

inductive SourceDocument
  | pdf (settings : Settings) (pages : List PdfPage)
  | pptx (prs : Presentation)
  | csv (frame : Frame)
  | workbook (sheets : List (Text × Frame))

def SourceDocument.parse : SourceDocument → ParsedDocument
  | .pdf settings pages => parsePdf settings pages
  | .pptx prs => parsePptx prs
  | .csv frame => parseCsv frame
  | .workbook sheets => parseWorkbook sheets

def SourceDocument.units : SourceDocument → List Unit
  | .pdf settings pages => pdfUnits settings pages
  | .pptx prs => prs.units
  | .csv frame => csvUnits frame
  | .workbook sheets => workbookUnits sheets

def SourceDocument.Aligned : SourceDocument → Prop
  | .pdf settings pages => PdfAligned settings pages
  | .pptx prs => prs.Aligned
  | .csv frame => frame.Aligned none
  | .workbook sheets => ∀ sheet ∈ sheets, sheet.2.Aligned (some sheet.1)

theorem SourceDocument.indexed (input : SourceDocument) : input.parse.Indexed := by
  intro i sheet block hsheet hblock
  cases input with
  | pdf settings pages => simp [SourceDocument.parse, parsePdf_sheets] at hsheet
  | pptx prs => simp [SourceDocument.parse, parsePptx_sheets] at hsheet
  | csv frame =>
    cases i with
    | zero =>
      simp only [SourceDocument.parse, parseCsv, ParsedDocument.sheets, ParsedDocument.blocks, List.getElem?_cons_zero,
        Option.some.injEq, List.cons_ne_nil, if_false] at hsheet hblock
      rw [← hsheet, ← hblock]
      exact sheetLayout_indexed frame none _ 0
    | succ i => simp [SourceDocument.parse, parseCsv, ParsedDocument.sheets] at hsheet
  | workbook sheets =>
    have hblocks : (parseWorkbook sheets).blocks = sheetTexts sheets := by
      exact ite_self _
    simp only [SourceDocument.parse, hblocks] at hsheet hblock
    simp only [sheetTexts, List.getElem?_map] at hblock
    obtain ⟨⟨name, frame⟩, hget, rfl⟩ := Option.map_eq_some_iff.1 hblock
    have htext : (sheetTexts sheets)[i]? = some (frame.toText (some name)) := by simp [sheetTexts, hget]
    have hbase := joinBases_get htext 0 true
    simp only [parseWorkbook, ParsedDocument.sheets, List.getElem?_map, zip_get hget hbase, Option.map_some,
      Option.some.injEq] at hsheet
    subst hsheet
    exact sheetLayout_indexed frame (some name) name _

/-- **Citation highlights point at the cited text**: every unit's range holds the unit's own text, where that stands, and
every range inside the text is located with exactly the units that overlap it. -/
structure Highlights (input : SourceDocument) : Prop where
  points : ∀ u ∈ input.units, u.Points input.parse.text
  located : ∀ (page : Option Int) (start stop textContext : Int), 0 ≤ start → start < stop → stop ≤ input.parse.text.length →
    0 ≤ textContext → ∃ locator, locate input.parse page (some start) (some stop) textContext = some locator ∧
      Highlighted input.parse input.parse.layoutOf page start stop locator

/-- **The highlights are right exactly for the aligned documents.** -/
theorem highlights_iff (input : SourceDocument) : Highlights input ↔ input.Aligned := by
  have hpoints : (∀ u ∈ input.units, u.Points input.parse.text) ↔ input.Aligned := by
    cases input with
    | pdf settings pages => exact pdf_points_iff settings pages
    | pptx prs => exact slide_points_iff prs
    | csv frame => exact csv_points_iff frame
    | workbook sheets => exact workbook_points_iff sheets
  constructor
  · intro h
    exact hpoints.1 h.points
  · intro haligned
    refine ⟨hpoints.2 haligned, ?_⟩
    intro page start stop textContext hstart hstop hin hcontext
    exact locate_spec input.indexed page hstart hstop hin hcontext

def twoLines : SourceDocument := .csv ⟨["a".toList], [[some "x\ny".toList]]⟩

/-- Its row points at the first line of its cell. -/
theorem half_cell :
    ¬ ∀ input : SourceDocument, ∀ u ∈ input.units, ∃ own, u.own = some own ∧ u.charEnd ≤ input.parse.text.length ∧
      slice input.parse.text u.charStart u.charEnd = own.text := by
  intro hall
  obtain ⟨own, hown, -, htext⟩ := hall twoLines ⟨2, 3, some ⟨"x\ny".toList, 2⟩⟩ (by decide)
  cases hown
  revert htext
  decide

end Rag
end MyGpt
