import MyGpt.Characters
import MyGpt.Lib.Lines
import Mathlib.Data.Rat.Defs
/-!
# DocumentParsers — text and layout of PDFs, slides and tables

`_parse_pdf`, `_parse_pptx` and `_parse_table` over what the document libraries read from a file.  The text is joined first
and the character ranges of the layout are computed beside it.  Coordinates are exact rationals.
-/
namespace MyGpt
namespace Rag

open Chat (Text isSpace strip)
open Lines (splitlines unlines)

/-! ## the layout -/

structure Box where
  x0 : Rat
  y0 : Rat
  x1 : Rat
  y1 : Rat
  deriving DecidableEq

structure LineBox where
  text : Text
  box : Box
  charStart : Nat
  charEnd : Nat
  deriving DecidableEq

structure PageLines where
  page : Nat
  width : Rat
  height : Rat
  lines : List LineBox
  deriving DecidableEq

structure SheetRow where
  row : Nat
  charStart : Nat
  charEnd : Nat
  deriving DecidableEq

structure SheetLayout where
  name : Text
  headerLine : Nat
  rows : List SheetRow
  deriving DecidableEq

structure ShapeBox where
  x : Rat
  y : Rat
  w : Rat
  h : Rat
  text : Text
  charStart : Nat
  charEnd : Nat
  deriving DecidableEq

structure SlideLayout where
  slideNo : Nat
  width : Rat
  height : Rat
  shapes : List ShapeBox
  deriving DecidableEq

structure DocumentLayout where
  pages : List PageLines
  sheets : List SheetLayout
  slides : List SlideLayout
  deriving DecidableEq

def DocumentLayout.empty (layout : DocumentLayout) : Bool :=
  layout.pages.isEmpty && layout.sheets.isEmpty && layout.slides.isEmpty

/-- Missing `pages` and `tables` are empty; `totalPages` is `metadata["pages"]`. -/
structure ParsedDocument where
  text : Text
  pages : List Text
  tables : List Text
  totalPages : Option Nat
  layout : Option DocumentLayout

/-! ## joins and tables -/

/-- `"\n\n"` between pages, slides and sheets. -/
def blankLine : Text := ['\n', '\n']

/-- `" | "` between cells. -/
def cellSeparator : Text := [' ', '|', ' ']

def joinBases (cursor : Nat) (first : Bool) : List Text → List Nat
  | [] => []
  | block :: blocks =>
    let base := if first then cursor else cursor + 2
    base :: joinBases (base + block.length) false blocks

def lineOffsets (cursor : Nat) : List Text → List Nat
  | [] => []
  | line :: lines => cursor :: lineOffsets (cursor + line.length + 1) lines

/-- A cell of `_table_to_text`. -/
def tableCell : Option Text → Text
  | none => []
  | some cell => strip (cell.map (fun c => if c = '\n' then ' ' else if c = '|' then '/' else c))

def tableToText (rows : List (List (Option Text))) : Text :=
  unlines (rows.map (fun row => cellSeparator.intercalate (row.map tableCell)))

/-! ## PDF -/

/-- A text line of `get_text("dict")`; the box is missing when it has not four numbers. -/
structure PdfLine where
  text : Text
  box : Option Box

structure PdfPage where
  text : Text
  lines : List PdfLine
  width : Rat
  height : Rat
  tables : List (List (List (Option Text)))
  /-- `image_to_text`, empty when it fails. -/
  ocr : Text

structure Settings where
  ocrScannedPdf : Bool
  ocrScannedPdfMaxPages : Int

/-- `str.find` from a position on. -/
def find (text sub : Text) (start : Nat) : Option Nat :=
  (List.range (text.length + 1)).find? (fun i => start ≤ i && sub.isPrefixOf (text.drop i))

/-- `pdf_lines`: a line that is not in the page's text is dropped. -/
def pdfLines (pageText : Text) (base cursor : Nat) : List PdfLine → List LineBox
  | [] => []
  | line :: rest =>
    if strip line.text = [] then pdfLines pageText base cursor rest
    else
      match (find pageText line.text cursor).or (find pageText line.text 0), line.box with
      | some position, some box =>
        ⟨line.text, box, base + position, base + position + line.text.length⟩ :: pdfLines pageText base (position + 1) rest
      | _, _ => pdfLines pageText base cursor rest

/-- `page_bases`: the pages that have text, with their numbers. -/
def pageBases (number cursor : Nat) (first : Bool) : List Text → List (Nat × Nat)
  | [] => []
  | text :: pages =>
    if text = [] then pageBases (number + 1) cursor first pages
    else
      let base := if first then cursor else cursor + 2
      (number, base) :: pageBases (number + 1) (base + text.length) false pages

def pdfTables (pages : List PdfPage) : List Text :=
  (pages.flatMap (fun page => page.tables.map tableToText)).filter (fun rendered => strip rendered ≠ [])

def foldTables (joined : Text) (tables : List Text) : Text :=
  if tables = [] then joined else strip (joined ++ blankLine ++ blankLine.intercalate tables)

def lowText (pageText : Text) : Bool := (strip pageText).length < 20

def ocrTargets (settings : Settings) (texts : List Text) : List Nat :=
  let low := (List.range texts.length).filter (fun i => (texts[i]?).any lowText)
  (if low = [] then List.range texts.length else low).take (max 1 settings.ocrScannedPdfMaxPages).toNat

def triesOcr (settings : Settings) (texts : List Text) (full : Text) : Bool :=
  settings.ocrScannedPdf && ((strip full).length < 20 || texts.any lowText)

def ocrText (settings : Settings) (pages : List PdfPage) (i : Nat) : Option Text :=
  let texts := pages.map (fun page => strip page.text)
  let full := foldTables (blankLine.intercalate (texts.filter (· ≠ []))) (pdfTables pages)
  if triesOcr settings texts full && (ocrTargets settings texts).contains i && (texts[i]?).any lowText then
    (pages[i]?.map (·.ocr)).filter (fun text => strip text ≠ [])
  else none

def finalTexts (settings : Settings) (pages : List PdfPage) : List Text :=
  pages.mapIdx (fun i page => (ocrText settings pages i).getD (strip page.text))

def PageLines.moved (base : Nat) (lines : List LineBox) : List LineBox :=
  lines.map (fun line => { line with charStart := base + line.charStart, charEnd := base + line.charEnd })

def renderPage (settings : Settings) (pages : List PdfPage) (i : Nat) (page : PdfPage) : Option PageLines :=
  let lines := pdfLines (strip page.text) 0 0 page.lines
  if (ocrText settings pages i).isSome || lines.isEmpty then none
  else
    ((pageBases 1 0 true (finalTexts settings pages)).lookup (i + 1)).map (fun base =>
      ⟨i + 1, page.width, page.height, PageLines.moved base lines⟩)

/-- `_parse_pdf`.  Its two filters, by `p` and by `p.strip()`, agree: a page's text is stripped, or OCR text that is not
blank. -/
def parsePdf (settings : Settings) (pages : List PdfPage) : ParsedDocument :=
  let texts := finalTexts settings pages
  let rendered := (pages.mapIdx (renderPage settings pages)).filterMap id
  { text := foldTables (blankLine.intercalate (texts.filter (· ≠ []))) (pdfTables pages)
    pages := texts
    tables := pdfTables pages
    totalPages := some texts.length
    layout := if rendered = [] then none else some ⟨rendered, [], []⟩ }

/-! ## PowerPoint -/

structure Shape where
  left : Option Int
  top : Option Int
  width : Option Int
  height : Option Int
  paragraphs : List (List Text)
  table : Option (List (List Text))

structure Slide where
  shapes : List Shape
  notes : Option Text

structure Presentation where
  slides : List Slide
  slideWidth : Option Int
  slideHeight : Option Int

def emu (value : Option Int) : Rat := (value.getD 0 : Rat) / 12700

inductive Piece
  | paragraph (shape : Shape) (text : Text)
  | table (rows : List (List Text))

def renderTable (rows : List (List Text)) : Text := tableToText (rows.map (fun row => row.map some))

def Piece.text : Piece → Text
  | .paragraph _ text => text
  | .table rows => renderTable rows

def Shape.pieces (shape : Shape) : List Piece :=
  ((shape.paragraphs.map (fun runs => strip runs.flatten)).filter (· ≠ [])).map (.paragraph shape) ++
    (shape.table.toList.filter (fun rows => strip (renderTable rows) ≠ [])).map .table

def Slide.pieces (slide : Slide) : List Piece := slide.shapes.flatMap Shape.pieces

def Slide.blocks (number : Nat) (slide : Slide) : List Text :=
  ("# 幻灯片 ".toList ++ Nat.toDigits 10 number) :: slide.pieces.map Piece.text ++
    ((slide.notes.map strip).toList.filter (· ≠ [])).map ("[备注] ".toList ++ ·)

def Slide.pending (slide : Slide) : List (Nat × Shape × Text) :=
  (slide.pieces.zipIdx 1).filterMap (fun entry =>
    match entry.1 with
    | .paragraph shape text => some (entry.2, shape, text)
    | .table _ => none)

def shapeBox (block : Text) (base : Nat) (k : Nat) (shape : Shape) : Option ShapeBox :=
  let lines := block.splitOn '\n'
  match lines[k]?, (lineOffsets base lines)[k]? with
  | some line, some position =>
    some ⟨emu shape.left, emu shape.top, emu shape.width, emu shape.height, line, position, position + line.length⟩
  | _, _ => none

def slideTexts (slides : List Slide) : List Text := slides.mapIdx (fun i slide => unlines (slide.blocks (i + 1)))

def renderSlide (prs : Presentation) (i : Nat) (slide : Slide) : Option SlideLayout :=
  match (slideTexts prs.slides)[i]?, (joinBases 0 true (slideTexts prs.slides))[i]? with
  | some block, some base =>
    let shapes := slide.pending.filterMap (fun entry => shapeBox block base entry.1 entry.2.1)
    if shapes = [] then none else some ⟨i + 1, emu prs.slideWidth, emu prs.slideHeight, shapes⟩
  | _, _ => none

def parsePptx (prs : Presentation) : ParsedDocument :=
  let rendered := (prs.slides.mapIdx (renderSlide prs)).filterMap id
  { text := blankLine.intercalate (slideTexts prs.slides)
    pages := slideTexts prs.slides
    tables := prs.slides.flatMap (fun slide => slide.pieces.filterMap (fun piece =>
      match piece with
      | .paragraph _ _ => none
      | .table rows => some (renderTable rows)))
    totalPages := none
    layout := if rendered = [] then none else some ⟨[], [], rendered⟩ }

/-! ## tables -/

structure Frame where
  columns : List Text
  rows : List (List (Option Text))

def sheetHeading (sheet : Option Text) : List Text :=
  ((sheet.filter (· ≠ [])).map ("## Sheet: ".toList ++ ·)).toList

/-- The lines that `_df_to_text` joins. -/
def Frame.lines (frame : Frame) (sheet : Option Text) : List Text :=
  sheetHeading sheet ++
    cellSeparator.intercalate frame.columns :: frame.rows.map (fun row => cellSeparator.intercalate (row.map (·.getD [])))

/-- `_df_to_text`. -/
def Frame.toText (frame : Frame) (sheet : Option Text) : Text := unlines (frame.lines sheet)

def headerLine (sheet : Option Text) : Nat := (sheetHeading sheet).length

/-- The spans of `_df_to_text_with_rows`: the lines behind the header. -/
def Frame.spans (frame : Frame) (sheet : Option Text) : List (Nat × Nat) :=
  let lines := splitlines (frame.toText sheet)
  ((lines.zip (lineOffsets 0 lines)).drop (headerLine sheet + 1)).map (fun entry => (entry.2, entry.2 + entry.1.length))

def sheetLayout (name : Text) (headerLine : Nat) (spans : List (Nat × Nat)) (base : Nat) : SheetLayout :=
  ⟨name, headerLine, spans.mapIdx (fun i span => ⟨i, base + span.1, base + span.2⟩)⟩

/-- `_parse_table` of a CSV file. -/
def parseCsv (frame : Frame) : ParsedDocument :=
  { text := frame.toText none
    pages := []
    tables := [frame.toText none]
    totalPages := none
    layout := some ⟨[], [sheetLayout "csv".toList (headerLine none) (frame.spans none) 0], []⟩ }

def sheetTexts (sheets : List (Text × Frame)) : List Text := sheets.map (fun sheet => sheet.2.toText (some sheet.1))

/-- `_parse_table` of a workbook. -/
def parseWorkbook (sheets : List (Text × Frame)) : ParsedDocument :=
  { text := blankLine.intercalate (sheetTexts sheets)
    pages := sheetTexts sheets
    tables := sheetTexts sheets
    totalPages := none
    layout := some ⟨[], (sheets.zip (joinBases 0 true (sheetTexts sheets))).map (fun entry =>
      sheetLayout entry.1.1 (headerLine (some entry.1.1)) (entry.1.2.spans (some entry.1.1)) entry.2), []⟩ }

end Rag
end MyGpt
