import MyGpt.SseDecoder
import MyGpt.Lib.Rfc4180
/-!
# CsvExport — tables that are opened in a spreadsheet

`lib/csv.ts`.  A text that a spreadsheet would take for a formula gets an apostrophe in front, then every cell is quoted
where it has to be, and the lines are joined behind a byte order mark.  A reader gets the cells back, and the texts among
them begin no formula, but for what begins with `-=` (`buildCsv_spec`).
-/
namespace MyGpt
namespace Csv

open Sse (JsString ascii lf cr)
open Rfc4180 (Signs read filled read_file_iff)

def quote : UInt16 := 34
def plus : UInt16 := 43
def comma : UInt16 := 44
def minus : UInt16 := 45
def equals : UInt16 := 61
def atSign : UInt16 := 64
def tab : UInt16 := 9
def apostrophe : UInt16 := 39

/-- `CSV_BOM`. -/
def bom : UInt16 := 0xfeff

def signs : Signs UInt16 := { quote, comma, lf, cr, distinct := by decide }

inductive CsvValue
  | text (value : JsString)
  /-- A number, as `String` shows it. -/
  | number (shown : JsString)
  | boolean (value : Bool)
  | null
  | undefined
  deriving DecidableEq

/-- `/^(?:[=+@\t\r]|-(?![=]))/` -/
def formulaLead : JsString → Bool
  | [] => false
  | c :: rest => [equals, plus, atSign, tab, cr].contains c || (c == minus && rest.head? != some equals)

def csvSafeValue : CsvValue → JsString
  | .null => []
  | .undefined => []
  | .number shown => shown
  | .boolean value => ascii (if value then "true" else "false")
  | .text value => if formulaLead value then apostrophe :: value else value

def csvCell (value : CsvValue) : JsString := signs.write (csvSafeValue value)

def table (headers : List JsString) (rows : List (List CsvValue)) : List (List CsvValue) := headers.map .text :: rows

def buildCsv (headers : List JsString) (rows : List (List CsvValue)) : JsString :=
  bom :: [lf].intercalate ((table headers rows).map (fun row => [comma].intercalate (row.map csvCell)))

/-! ## what a reader gets -/

def readCsv (text : JsString) : Option (List (List JsString)) :=
  read signs (if text.head? = some bom then text.drop 1 else text)

def sanitised (headers : List JsString) (rows : List (List CsvValue)) : List (List JsString) :=
  (table headers rows).map (fun row => row.map csvSafeValue)

def formulaStart (c : UInt16) : Bool := [equals, plus, minus, atSign, tab, cr].contains c

theorem buildCsv_eq (headers : List JsString) (rows : List (List CsvValue)) :
    buildCsv headers rows = bom :: signs.file (sanitised headers rows) := by
  unfold buildCsv Signs.file sanitised
  rw [List.map_map]
  congr 3
  funext row
  simp only [Function.comp_apply, Signs.line, List.map_map]
  rfl

theorem readCsv_buildCsv (headers : List JsString) (rows : List (List CsvValue)) :
    readCsv (buildCsv headers rows) = read signs (signs.file (sanitised headers rows)) := by
  rw [buildCsv_eq]
  rfl

theorem sanitised_rows (headers : List JsString) (rows : List (List CsvValue)) :
    (∀ row ∈ sanitised headers rows, row ≠ []) ↔ ∀ row ∈ table headers rows, row ≠ [] := by
  unfold sanitised
  simp

theorem csvSafeValue_start (value : JsString) :
    (csvSafeValue (.text value)).head?.any formulaStart = true ↔ [minus, equals] <+: value := by
  unfold csvSafeValue
  dsimp only
  cases value with
  | nil => decide
  | cons c rest =>
    by_cases hlead : formulaLead (c :: rest) = true
    · rw [if_pos hlead]
      have hsafe : formulaStart apostrophe = false := by decide
      refine ⟨fun h => absurd (hsafe.symm.trans h) Bool.false_ne_true, ?_⟩
      rintro ⟨more, hmore⟩
      rw [← hmore] at hlead
      exact absurd hlead (by simp [formulaLead, minus, equals, plus, atSign, tab, cr])
    · rw [if_neg hlead]
      obtain ⟨hother, hminus⟩ := not_or.1 (fun h => hlead (Bool.or_eq_true_iff.2 h))
      have hstart : formulaStart c = true ↔ c = minus := by
        simp only [List.contains_cons, formulaStart, Bool.or_eq_true, beq_iff_eq, List.contains_nil] at hother ⊢
        tauto
      rw [List.head?_cons, Option.any_some, hstart]
      constructor
      · rintro rfl
        obtain ⟨more, rfl⟩ : ∃ more, rest = equals :: more := by
          cases rest with
          | nil => exact absurd rfl hminus
          | cons d more => exact ⟨more, by simpa using hminus⟩
        exact ⟨more, rfl⟩
      · rintro ⟨more, hmore⟩
        exact (List.cons.inj hmore).1.symm

/-- **Round trip and injection safety.**  The sanitised cells are read back exactly when every row has a cell and the last
is not a single empty one, and a text begins a formula after that exactly when it begins with `-=`. -/
theorem buildCsv_spec (headers : List JsString) (rows : List (List CsvValue)) :
    (readCsv (buildCsv headers rows) = some (sanitised headers rows) ↔
        (∀ row ∈ table headers rows, row ≠ []) ∧ (sanitised headers rows).getLast? ≠ some [[]]) ∧
      ∀ row ∈ table headers rows, ∀ value, .text value ∈ row →
        ((csvSafeValue (.text value)).head?.any formulaStart = true ↔ [minus, equals] <+: value) := by
  have hne : sanitised headers rows ≠ [] := List.cons_ne_nil _ _
  refine ⟨?_, fun _ _ value _ => csvSafeValue_start value⟩
  rw [readCsv_buildCsv, read_file_iff signs hne, sanitised_rows]

/-- A last row of one empty cell is lost, a row of none becomes one of an empty cell, and `-=1` is exported as it is. -/
theorem csv_exceptions :
    (¬ ∀ headers rows, (∀ row ∈ table headers rows, row ≠ []) →
        readCsv (buildCsv headers rows) = some (sanitised headers rows)) ∧
      (¬ ∀ headers rows, (sanitised headers rows).getLast? ≠ some [[]] →
        readCsv (buildCsv headers rows) = some (sanitised headers rows)) ∧
      ¬ ∀ value, (csvSafeValue (.text value)).head?.any formulaStart = false := by
  refine ⟨fun h => ?_, fun h => ?_, fun h => ?_⟩
  · exact absurd (h [[97]] [[.null]] (by decide)) (by decide)
  · exact absurd (h [] [[.text [97]]] (by decide)) (by decide)
  · exact absurd (h [minus, equals, 49]) (by decide)

end Csv
end MyGpt
