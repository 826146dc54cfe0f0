import MyGpt.LayoutRanges
/-!
# SheetRanges — the rows of a table and the lines of its text

Rows are counted in the lines that `splitlines` finds in a text that was joined by `\n`: a line boundary in a cell gives the
text more lines than the table has rows, and every row behind it points too early.
-/
namespace MyGpt
namespace Rag

open Chat (Text)
open Lines (splitlines unlines Free)
open Joins (slice offset)

def Frame.own (frame : Frame) (sheet : Option Text) (base row : Nat) : Option Own :=
  ((frame.lines sheet)[headerLine sheet + 1 + row]?).map (fun line =>
    ⟨line, base + offset 1 (frame.lines sheet) (headerLine sheet + 1 + row)⟩)

/-- The units of a sheet whose block begins at `base`. -/
def Frame.units (frame : Frame) (sheet : Option Text) (base : Nat) (layout : SheetLayout) : List Unit :=
  layout.rows.map (fun row => ⟨row.charStart, row.charEnd, frame.own sheet base row.row⟩)

def ParsedDocument.sheets (parsed : ParsedDocument) : List SheetLayout :=
  match parsed.layout with
  | none => []
  | some layout => layout.sheets

def csvUnits (frame : Frame) : List Unit := (parseCsv frame).sheets.flatMap (frame.units none 0)

def workbookUnits (sheets : List (Text × Frame)) : List Unit :=
  ((parseWorkbook sheets).sheets.mapIdx (fun i layout =>
    match sheets[i]? with
    | some (name, frame) => frame.units (some name) (offset 2 (sheetTexts sheets) i) layout
    | none => [])).flatten

structure Frame.Plain (frame : Frame) (sheet : Option Text) : Prop where
  name : ∀ name, sheet = some name → Free name
  columns : ∀ column ∈ frame.columns, Free column
  cells : ∀ row ∈ frame.rows, ∀ cell, some cell ∈ row → Free cell

/-- **There is no line behind the header's, or no line boundary anywhere.** -/
def Frame.Aligned (frame : Frame) (sheet : Option Text) : Prop :=
  (splitlines (frame.toText sheet)).length ≤ headerLine sheet + 1 ∨ frame.Plain sheet

/-! ## lines of cells -/

theorem free_append (l r : Text) : Free (l ++ r) ↔ Free l ∧ Free r := by
  unfold Free
  simp only [List.mem_append]
  constructor
  · intro h
    exact ⟨fun c hc => h c (.inl hc), fun c hc => h c (.inr hc)⟩
  · rintro ⟨hl, hr⟩ c (hc | hc)
    · exact hl c hc
    · exact hr c hc

theorem free_cells (parts : List Text) : Free (cellSeparator.intercalate parts) ↔ ∀ part ∈ parts, Free part := by
  constructor
  · intro h part hpart c hc
    exact h c (mem_intercalate_of_part hpart hc)
  · intro h c hc
    have hplain : ∀ d ∈ cellSeparator, Lines.isLineBoundary d = false := by decide
    rcases mem_intercalate hc with hsep | ⟨part, hpart, hin⟩
    · exact hplain c hsep
    · exact h part hpart c hin

theorem free_nil : Free [] := by
  intro c hc
  cases hc

theorem Frame.free_lines (frame : Frame) (sheet : Option Text) :
    (∀ line ∈ frame.lines sheet, Free line) ↔ frame.Plain sheet := by
  have hheading : (∀ line ∈ sheetHeading sheet, Free line) ↔ ∀ name, sheet = some name → Free name := by
    cases sheet with
    | none => simp [sheetHeading]
    | some name =>
      by_cases hname : name = []
      · subst hname
        simp [sheetHeading, free_nil]
      · have hprefix : Free "## Sheet: ".toList := by
          unfold Free
          decide
        have hheading : sheetHeading (some name) = ["## Sheet: ".toList ++ name] := by simp [sheetHeading, Option.filter, hname]
        rw [hheading]
        simp only [List.mem_singleton, forall_eq, free_append, hprefix, true_and, Option.some.injEq, forall_eq']
  constructor
  · intro h
    simp only [Frame.lines, List.mem_append, List.mem_cons, List.mem_map] at h
    refine ⟨hheading.1 (fun line hline => h line (.inl hline)), ?_, ?_⟩
    · exact (free_cells frame.columns).1 (h _ (.inr (.inl rfl)))
    · intro row hrow cell hcell
      have hline := (free_cells _).1 (h _ (.inr (.inr ⟨row, hrow, rfl⟩)))
      exact hline cell (List.mem_map.2 ⟨some cell, hcell, rfl⟩)
  · intro hplain line hline
    simp only [Frame.lines, List.mem_append, List.mem_cons, List.mem_map] at hline
    rcases hline with hline | rfl | ⟨row, hrow, rfl⟩
    · exact hheading.2 hplain.name line hline
    · exact (free_cells frame.columns).2 hplain.columns
    · refine (free_cells _).2 ?_
      intro part hpart
      obtain ⟨cell, hcell, rfl⟩ := List.mem_map.1 hpart
      cases cell with
      | none => exact free_nil
      | some cell => exact hplain.cells row hrow cell hcell

/-! ## rows -/

theorem lineOffsets_length (cursor : Nat) (lines : List Text) : (lineOffsets cursor lines).length = lines.length := by
  induction lines generalizing cursor with
  | nil => rfl
  | cons line lines ih => simp [lineOffsets, ih]

theorem zip_get {α β : Type _} {l : List α} {l' : List β} {i : Nat} {a : α} {b : β} (h : l[i]? = some a) (h' : l'[i]? = some b) :
    (l.zip l')[i]? = some (a, b) :=
  List.getElem?_zip_eq_some.2 ⟨h, h'⟩

theorem Frame.spans_get (frame : Frame) (sheet : Option Text) (i : Nat) :
    (frame.spans sheet)[i]? = ((splitlines (frame.toText sheet))[headerLine sheet + 1 + i]?).map (fun line =>
      (offset 1 (splitlines (frame.toText sheet)) (headerLine sheet + 1 + i),
        offset 1 (splitlines (frame.toText sheet)) (headerLine sheet + 1 + i) + line.length)) := by
  unfold Frame.spans
  rw [List.getElem?_map, List.getElem?_drop]
  cases hline : (splitlines (frame.toText sheet))[headerLine sheet + 1 + i]? with
  | none =>
    rw [List.getElem?_eq_none]
    · rfl
    · have hbound := List.getElem?_eq_none_iff.1 hline
      rw [List.length_zip, lineOffsets_length]
      omega
  | some line =>
    have hoffset := lineOffsets_get hline 0
    rw [zip_get hline hoffset]
    simp

theorem Frame.mem_units (frame : Frame) (sheet : Option Text) (name : Text) (base : Nat) (u : Unit) :
    u ∈ frame.units sheet base (sheetLayout name (headerLine sheet) (frame.spans sheet) base) ↔
      ∃ i line, (splitlines (frame.toText sheet))[headerLine sheet + 1 + i]? = some line ∧
        u = ⟨base + offset 1 (splitlines (frame.toText sheet)) (headerLine sheet + 1 + i),
          base + (offset 1 (splitlines (frame.toText sheet)) (headerLine sheet + 1 + i) + line.length),
          frame.own sheet base i⟩ := by
  unfold Frame.units sheetLayout
  rw [List.mem_map]
  constructor
  · rintro ⟨row, hrow, rfl⟩
    obtain ⟨i, hi⟩ := List.mem_iff_getElem?.1 hrow
    rw [List.getElem?_mapIdx, Frame.spans_get, Option.map_map] at hi
    obtain ⟨line, hline, rfl⟩ := Option.map_eq_some_iff.1 hi
    exact ⟨i, line, hline, rfl⟩
  · rintro ⟨i, line, hline, rfl⟩
    refine ⟨⟨i, base + offset 1 (splitlines (frame.toText sheet)) (headerLine sheet + 1 + i),
      base + (offset 1 (splitlines (frame.toText sheet)) (headerLine sheet + 1 + i) + line.length)⟩, ?_, rfl⟩
    apply List.mem_of_getElem? (i := i)
    rw [List.getElem?_mapIdx, Frame.spans_get, hline]
    rfl

theorem Frame.points_iff {text : Text} {frame : Frame} {sheet : Option Text} {base : Nat} (name : Text)
    (hplaced : slice text base (base + (frame.toText sheet).length) = frame.toText sheet)
    (hin : base + (frame.toText sheet).length ≤ text.length) :
    (∀ u ∈ frame.units sheet base (sheetLayout name (headerLine sheet) (frame.spans sheet) base), u.Points text) ↔
      frame.Aligned sheet := by
  unfold Frame.Aligned
  rw [← Frame.free_lines]
  refine Iff.trans ?_ (Lines.splitlines_places (frame.lines sheet) (headerLine sheet + 1))
  constructor
  · intro hpoints i line hi hline
    have hat : headerLine sheet + 1 + (i - (headerLine sheet + 1)) = i := by omega
    obtain ⟨own, hown, hinside, htext, hplace⟩ :=
      hpoints _ ((frame.mem_units sheet name base _).2 ⟨i - (headerLine sheet + 1), line, by rw [hat]; exact hline, rfl⟩)
    simp only [hat, Frame.own] at hown hinside htext hplace
    obtain ⟨line', hline', rfl⟩ := Option.map_eq_some_iff.1 hown
    refine ⟨line', hline', ?_, ?_⟩
    · simpa [Frame.toText] using hplace
    · have hlength := congrArg List.length htext
      rw [Joins.length_slice hinside] at hlength
      dsimp only at hlength
      omega
  · intro hkept u hu
    obtain ⟨i, line, hline, rfl⟩ := (frame.mem_units sheet name base u).1 hu
    obtain ⟨line', hline', hoffset, hlength⟩ := hkept _ line (by omega) hline
    obtain ⟨hown, hownin⟩ := Joins.slice_join ['\n'] hline'
    simp only [List.length_cons, List.length_nil, zero_add] at hown hownin
    obtain ⟨hnested, hnestedin⟩ :=
      slice_nested (a := offset 1 (frame.lines sheet) (headerLine sheet + 1 + i)) hplaced hin hownin
    refine ⟨⟨line', base + offset 1 (frame.lines sheet) (headerLine sheet + 1 + i)⟩, ?_, ?_, ?_, ?_⟩
    · simp [Frame.own, hline']
    · rw [← hlength, ← hoffset] at hnestedin
      exact hnestedin
    · rw [← hlength, ← hoffset] at hnested
      rw [← hlength, ← hoffset] at hown
      exact hnested.trans hown
    · simpa [Frame.toText] using hoffset

theorem csv_points_iff (frame : Frame) : (∀ u ∈ csvUnits frame, u.Points (parseCsv frame).text) ↔ frame.Aligned none := by
  have hunits : csvUnits frame = frame.units none 0 (sheetLayout "csv".toList (headerLine none) (frame.spans none) 0) := by
    simp [csvUnits, parseCsv, ParsedDocument.sheets]
  rw [hunits]
  apply Frame.points_iff
  · simp [parseCsv]
  · simp [parseCsv]

theorem mem_workbookUnits (sheets : List (Text × Frame)) (u : Unit) :
    u ∈ workbookUnits sheets ↔ ∃ (i : Nat) (name : Text) (frame : Frame), sheets[i]? = some (name, frame) ∧
      u ∈ frame.units (some name) (offset 2 (sheetTexts sheets) i)
        (sheetLayout name (headerLine (some name)) (frame.spans (some name)) (offset 2 (sheetTexts sheets) i)) := by
  have hlayout : ∀ i : Nat, (parseWorkbook sheets).sheets[i]? = (sheets[i]?).map (fun sheet =>
      sheetLayout sheet.1 (headerLine (some sheet.1)) (sheet.2.spans (some sheet.1)) (offset 2 (sheetTexts sheets) i)) := by
    intro i
    simp only [parseWorkbook, ParsedDocument.sheets, List.getElem?_map]
    cases hsheet : sheets[i]? with
    | none =>
      rw [List.getElem?_eq_none]
      · rfl
      · have hbound := List.getElem?_eq_none_iff.1 hsheet
        rw [List.length_zip]
        omega
    | some sheet =>
      have htext : (sheetTexts sheets)[i]? = some (sheet.2.toText (some sheet.1)) := by simp [sheetTexts, hsheet]
      have hbase := joinBases_get htext 0 true
      rw [zip_get hsheet hbase]
      simp
  unfold workbookUnits
  rw [List.mem_flatten]
  constructor
  · rintro ⟨units, hunits, hu⟩
    obtain ⟨i, hi⟩ := List.mem_iff_getElem?.1 hunits
    rw [List.getElem?_mapIdx, hlayout] at hi
    cases hsheet : sheets[i]? with
    | none => simp [hsheet] at hi
    | some sheet =>
      simp only [hsheet, Option.map_some, Option.some.injEq] at hi
      subst hi
      exact ⟨i, sheet.1, sheet.2, hsheet, hu⟩
  · rintro ⟨i, name, frame, hsheet, hu⟩
    refine ⟨_, List.mem_of_getElem? (i := i) ?_, hu⟩
    simp [hlayout, hsheet]

theorem workbook_points_iff (sheets : List (Text × Frame)) :
    (∀ u ∈ workbookUnits sheets, u.Points (parseWorkbook sheets).text) ↔ ∀ sheet ∈ sheets, sheet.2.Aligned (some sheet.1) := by
  have hsheet : ∀ {i : Nat} {name : Text} {frame : Frame}, sheets[i]? = some (name, frame) →
      ((∀ u ∈ frame.units (some name) (offset 2 (sheetTexts sheets) i)
        (sheetLayout name (headerLine (some name)) (frame.spans (some name)) (offset 2 (sheetTexts sheets) i)),
          u.Points (parseWorkbook sheets).text) ↔ frame.Aligned (some name)) := by
    intro i name frame hget
    have htext : (sheetTexts sheets)[i]? = some (frame.toText (some name)) := by simp [sheetTexts, hget]
    obtain ⟨hplaced, hin⟩ := Joins.slice_join blankLine htext
    exact Frame.points_iff name hplaced hin
  constructor
  · intro hpoints sheet hin
    obtain ⟨i, hi⟩ := List.mem_iff_getElem?.1 hin
    refine (hsheet hi).1 ?_
    intro u hu
    exact hpoints u ((mem_workbookUnits sheets u).2 ⟨i, sheet.1, sheet.2, hi, hu⟩)
  · intro haligned u hu
    obtain ⟨i, name, frame, hget, hin⟩ := (mem_workbookUnits sheets u).1 hu
    have hsheetAligned : frame.Aligned (some name) := haligned (name, frame) (List.mem_of_getElem? hget)
    exact (hsheet hget).2 hsheetAligned u hin

end Rag
end MyGpt
