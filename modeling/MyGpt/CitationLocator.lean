import MyGpt.DocumentParsers
/-!
# CitationLocator — from the anchors of a chunk to a place in the original

`locate`: lines of a page first, then rows of a sheet, then shapes of a slide, and a window of text when none of them has
the range.
-/
namespace MyGpt
namespace Rag

open Chat (Text strip)
open Lines (splitlines)
open Joins (slice)

structure SlideShape where
  rect : Rat × Rat × Rat × Rat
  text : Text
  hit : Bool
  deriving DecidableEq

inductive Locator
  | pageImage (page : Nat) (totalPages : Nat) (boxes : List Box)
  /-- The highlight is a range of `rows`. -/
  | sheetRange (sheet : Text) (header : List Text) (rows : List (List Text)) (highlight : Nat × Nat)
  | slide (slideNo : Nat) (width height : Rat) (shapes : List SlideShape)
  | textRange (text : Text) (start stop : Int)
  deriving DecidableEq

def overlaps (start stop : Int) (charStart charEnd : Nat) : Bool := charStart < stop && start < charEnd

def clamp01 (value : Rat) : Rat := if value < 0 then 0 else if 1 < value then 1 else value

def normalise (page : PageLines) (line : LineBox) : Box :=
  if page.width ≤ 0 ∨ page.height ≤ 0 then ⟨0, 0, 0, 0⟩
  else ⟨clamp01 (line.box.x0 / page.width), clamp01 (line.box.y0 / page.height), clamp01 (line.box.x1 / page.width),
    clamp01 (line.box.y1 / page.height)⟩

def locatePage (parsed : ParsedDocument) (layout : DocumentLayout) (page : Option Int) (start stop : Int) : Option Locator :=
  match page with
  | none => none
  | some number =>
    let total := (parsed.totalPages.filter (0 < ·)).getD layout.pages.length
    match layout.pages.find? (fun lines => (lines.page : Int) = number) with
    | none => none
    | some lines =>
      let hits := lines.lines.filter (fun line => overlaps start stop line.charStart line.charEnd)
      if hits = [] then none else some (.pageImage lines.page total (hits.map (normalise lines)))

def consPiece (c : Char) : List Text → List Text
  | [] => [[c]]
  | piece :: rest => (c :: piece) :: rest

/-- `str.split` at a separator; the first `skip` characters belong to one that was found. -/
def splitAt (separator : Text) (skip : Nat) : Text → List Text
  | [] => [[]]
  | c :: text =>
    if 0 < skip then splitAt separator (skip - 1) text
    else if separator.isPrefixOf (c :: text) then [] :: splitAt separator (separator.length - 1) text
    else consPiece c (splitAt separator 0 text)

def rowCells (line : Text) (columns : Nat) : List Text :=
  ((splitAt cellSeparator 0 line).map strip ++ List.replicate columns []).take columns

def sheetRange (sheet : SheetLayout) (block : Text) (start stop : Int) : Option Locator :=
  let hits := sheet.rows.filter (fun row => overlaps start stop row.charStart row.charEnd)
  match hits.head?, hits.getLast?, (splitlines block)[sheet.headerLine]? with
  | some first, some last, some header =>
    let columns := (splitAt cellSeparator 0 header).length
    some (.sheetRange sheet.name (rowCells header columns)
      (((splitlines block).drop (sheet.headerLine + 1)).map (rowCells · columns)) (first.row, last.row + 1))
  | _, _, _ => none

def locateSheetFrom (blocks : List Text) (start stop : Int) (index : Nat) : List SheetLayout → Option Locator
  | [] => none
  | sheet :: sheets =>
    match sheet.rows.head?, sheet.rows.getLast?, blocks[index]? with
    | some first, some last, some block =>
      if (first.charStart : Int) ≤ start ∧ start < last.charEnd then sheetRange sheet block start stop
      else locateSheetFrom blocks start stop (index + 1) sheets
    | _, _, _ => locateSheetFrom blocks start stop (index + 1) sheets

def locateSheet (parsed : ParsedDocument) (layout : DocumentLayout) (start stop : Int) : Option Locator :=
  locateSheetFrom (if parsed.tables = [] then parsed.pages else parsed.tables) start stop 0 layout.sheets

def locateSlide (start stop : Int) : List SlideLayout → Option Locator
  | [] => none
  | slide :: slides =>
    match slide.shapes.head?, slide.shapes.getLast? with
    | some first, some last =>
      if (first.charStart : Int) ≤ start ∧ start < last.charEnd then
        if slide.shapes.any (fun shape => overlaps start stop shape.charStart shape.charEnd) then
          some (.slide slide.slideNo slide.width slide.height (slide.shapes.map (fun shape =>
            ⟨(shape.x, shape.y, shape.w, shape.h), shape.text, overlaps start stop shape.charStart shape.charEnd⟩)))
        else none
      else locateSlide start stop slides
    | _, _ => locateSlide start stop slides

def locateLayout (parsed : ParsedDocument) (page : Option Int) (start stop : Int) : Option Locator :=
  match parsed.layout with
  | none => none
  | some layout =>
    if layout.empty then none
    else ((locatePage parsed layout page start stop).or (locateSheet parsed layout start stop)).or
      (locateSlide start stop layout.slides)

/-- `locate`; `textContext` is `DEFAULT_TEXT_CONTEXT` unless it is given. -/
def locate (parsed : ParsedDocument) (page charStart charEnd : Option Int) (textContext : Int) : Option Locator :=
  match charStart, charEnd with
  | some start, some stop =>
    if stop ≤ start ∨ (parsed.text.length : Int) < stop then none
    else
      match locateLayout parsed page start stop with
      | some locator => some locator
      | none =>
        let low := max 0 (start - textContext)
        let high := min (parsed.text.length : Int) (stop + textContext)
        if high ≤ low then none else some (.textRange (slice parsed.text low.toNat high.toNat) (start - low) (stop - low))
  | _, _ => none

end Rag
end MyGpt
