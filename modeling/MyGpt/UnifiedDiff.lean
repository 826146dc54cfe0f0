import MyGpt.DiffLines
import MyGpt.JsStrings
/-!
# UnifiedDiff — a patch that a model wrote, read line by line

`parseUnifiedDiff` of `lib/diff.ts`, and what a patch is: file sections of hunks, whose headers carry the counts of their
lines, with other lines around them.  A hunk is open until it has the lines that its header counts.  Line numbers are exact,
as they are in a number of the frontend below 2^53.  A hunk header gives back where its sides begin and how many lines they
have (`hunkHeader_header`), a file header the path of the file (`headerPath_line`); what begins otherwise is none of them.
-/
namespace MyGpt
namespace Diff

open Sse (JsString)
open Js (trim isBlank)

def tab : UInt16 := 9
def blank : UInt16 := 32
def plus : UInt16 := 43
def comma : UInt16 := 44
def minus : UInt16 := 45
def slash : UInt16 := 47
def atSign : UInt16 := 64
def backslash : UInt16 := 92

/-! ## headers -/

/-- `"--- "` -/
def oldMark : JsString := [minus, minus, minus, blank]

/-- `"+++ "` -/
def newMark : JsString := [plus, plus, plus, blank]

/-- `"/dev/null"` -/
def devNull : JsString := [47, 100, 101, 118, 47, 110, 117, 108, 108]

/-- `value.replace(/^[ab]\//, "")` -/
def withoutLetter : JsString → JsString
  | c :: d :: rest => if (c = 97 ∨ c = 98) ∧ d = slash then rest else c :: d :: rest
  | value => value

def headerPath (line : JsString) : Option JsString :=
  let value := trim ((line.drop 4).takeWhile (· ≠ tab))
  if value = [] ∨ value = devNull then none else some (withoutLetter value)

def isDigit (c : UInt16) : Bool := 48 ≤ c && c ≤ 57

/-- `Number` of decimal digits. -/
def numberOf (digits : JsString) : Nat := digits.foldl (fun n c => n * 10 + (c.toNat - 48)) 0

def expect (start line : JsString) : Option JsString := if start.isPrefixOf line then some (line.drop start.length) else none

/-- `(\d+)` -/
def takeNumber (line : JsString) : Option (Nat × JsString) :=
  let digits := line.takeWhile isDigit
  if digits = [] then none else some (numberOf digits, line.dropWhile isDigit)

/-- `(?:,(\d+))?` -/
def takeCount (line : JsString) : Option Nat × JsString :=
  match (expect [comma] line).bind takeNumber with
  | some (n, rest) => (some n, rest)
  | none => (none, line)

/-- `/^@@+ -(\d+)(?:,(\d+))? \+(\d+)(?:,(\d+))? @@/` -/
def hunkHeader (line : JsString) : Option (Nat × Option Nat × Nat × Option Nat) := do
  let rest ← expect [atSign, atSign] line
  let rest ← expect [blank, minus] (rest.dropWhile (· = atSign))
  let (oldStart, rest) ← takeNumber rest
  let (oldCount, rest) := takeCount rest
  let rest ← expect [blank, plus] rest
  let (newStart, rest) ← takeNumber rest
  let (newCount, rest) := takeCount rest
  let _ ← expect [blank, atSign, atSign] rest
  return (oldStart, oldCount, newStart, newCount)

/-- What `FILE_META` begins with. -/
def fileMetas : List JsString :=
  ["diff --git ", "index ", "new file mode", "deleted file mode", "old mode", "new mode", "similarity index", "rename from",
    "rename to", "copy from", "copy to", "===", "RCS file:"].map Sse.ascii

def isFileMeta (line : JsString) : Bool := fileMetas.any (·.isPrefixOf line)

/-! ## `parseUnifiedDiff` -/

structure UnifiedDiff where
  fileCount : Nat
  oldPath : Option JsString
  newPath : Option JsString
  rows : List DiffRow
  deriving DecidableEq

structure PatchState where
  rows : List DiffRow := []
  oldPath : Option JsString := none
  newPath : Option JsString := none
  fileCount : Nat := 0
  oldNumber : Nat := 1
  newNumber : Nat := 1
  sawHunk : Bool := false
  sawFileHeader : Bool := false
  inHunk : Bool := false
  oldLeft : Int := 0
  newLeft : Int := 0
  changes : Nat := 0
  deriving DecidableEq

def isMarker (line : JsString) : Bool := line.head? == some backslash

namespace PatchState

def oldFile (st : PatchState) (line : JsString) : PatchState :=
  { st with oldPath := headerPath line, fileCount := st.fileCount + 1, sawFileHeader := true }

def newFile (st : PatchState) (line : JsString) : PatchState :=
  { st with newPath := headerPath line, fileCount := if st.fileCount = 0 then 1 else st.fileCount, sawFileHeader := true }

def openHunk (st : PatchState) (oldStart : Nat) (oldCount : Option Nat) (newStart : Nat) (newCount : Option Nat) :
    PatchState :=
  { st with
    oldNumber := oldStart
    newNumber := newStart
    oldLeft := (oldCount.getD 1 : Nat)
    newLeft := (newCount.getD 1 : Nat)
    sawHunk := true
    inHunk := true
    fileCount := if st.fileCount = 0 then 1 else st.fileCount }

def pushDel (st : PatchState) (text : JsString) : PatchState :=
  { st with
    rows := st.rows ++ [⟨.del, some st.oldNumber, none, text⟩]
    oldNumber := st.oldNumber + 1
    oldLeft := st.oldLeft - 1
    changes := st.changes + 1 }

def pushAdd (st : PatchState) (text : JsString) : PatchState :=
  { st with
    rows := st.rows ++ [⟨.add, none, some st.newNumber, text⟩]
    newNumber := st.newNumber + 1
    newLeft := st.newLeft - 1
    changes := st.changes + 1 }

def pushEqual (st : PatchState) (line : JsString) : PatchState :=
  { st with
    rows := st.rows ++ [⟨.equal, some st.oldNumber, some st.newNumber, if line.head? = some blank then line.drop 1 else line⟩]
    oldNumber := st.oldNumber + 1
    newNumber := st.newNumber + 1
    oldLeft := st.oldLeft - 1
    newLeft := st.newLeft - 1 }

def pushLine (st : PatchState) (line : JsString) : PatchState :=
  if line.head? = some minus then st.pushDel (line.drop 1)
  else if line.head? = some plus then st.pushAdd (line.drop 1)
  else if st.inHunk = true ∨ st.sawHunk = false ∧ st.sawFileHeader = false ∧ isFileMeta line = false then st.pushEqual line
  else st

/-- `if (inHunk && oldLeft <= 0 && newLeft <= 0) inHunk = false` -/
def closeHunk (st : PatchState) : PatchState :=
  if st.inHunk = true ∧ st.oldLeft ≤ 0 ∧ st.newLeft ≤ 0 then { st with inHunk := false } else st

def step (st : PatchState) (line : JsString) : PatchState :=
  if st.inHunk = false ∧ oldMark.isPrefixOf line = true then st.oldFile line
  else if st.inHunk = false ∧ newMark.isPrefixOf line = true then st.newFile line
  else
    match hunkHeader line with
    | some (oldStart, oldCount, newStart, newCount) => st.openHunk oldStart oldCount newStart newCount
    | none => if isMarker line then st else (st.pushLine line).closeHunk

end PatchState

def parseUnifiedDiff (text : JsString) : Option UnifiedDiff :=
  let st := (splitLines text).foldl PatchState.step {}
  if st.changes = 0 then none
  else some { fileCount := max st.fileCount 1, oldPath := st.oldPath, newPath := st.newPath, rows := st.rows }

/-! ## what a patch is -/

inductive BodyLine
  | context (text : JsString)
  | del (text : JsString)
  | add (text : JsString)
  | marker (text : JsString)
  deriving DecidableEq

def BodyLine.line : BodyLine → JsString
  | .context text => blank :: text
  | .del text => minus :: text
  | .add text => plus :: text
  | .marker text => backslash :: text

def oldLines : List BodyLine → Nat
  | [] => 0
  | .context _ :: body => oldLines body + 1
  | .del _ :: body => oldLines body + 1
  | _ :: body => oldLines body

def newLines : List BodyLine → Nat
  | [] => 0
  | .context _ :: body => newLines body + 1
  | .add _ :: body => newLines body + 1
  | _ :: body => newLines body

def bodyRows : Nat → Nat → List BodyLine → List DiffRow
  | _, _, [] => []
  | i, j, .context text :: body => ⟨.equal, some i, some j, text⟩ :: bodyRows (i + 1) (j + 1) body
  | i, j, .del text :: body => ⟨.del, some i, none, text⟩ :: bodyRows (i + 1) j body
  | i, j, .add text :: body => ⟨.add, none, some j, text⟩ :: bodyRows i (j + 1) body
  | i, j, .marker _ :: body => bodyRows i j body

def digits (n : Nat) : JsString := (Nat.toDigits 10 n).map (fun c => UInt16.ofNat c.toNat)

def sideRange (start count : Nat) (short : Bool) : JsString :=
  if short && count == 1 then digits start else digits start ++ comma :: digits count

structure Hunk where
  oldStart : Nat
  newStart : Nat
  shortOld : Bool := false
  shortNew : Bool := false
  title : JsString := []
  body : List BodyLine

def Hunk.header (h : Hunk) : JsString :=
  [atSign, atSign, blank, minus] ++ sideRange h.oldStart (oldLines h.body) h.shortOld ++ [blank, plus] ++
    sideRange h.newStart (newLines h.body) h.shortNew ++ [blank, atSign, atSign] ++ h.title

def Hunk.rows (h : Hunk) : List DiffRow := bodyRows h.oldStart h.newStart h.body

structure OtherLine where
  line : JsString
  not_old : oldMark.isPrefixOf line = false
  not_new : newMark.isPrefixOf line = false
  not_hunk : hunkHeader line = none

inductive Part
  | hunk (h : Hunk)
  | other (l : OtherLine)

def Part.lines : Part → List JsString
  | .hunk h => h.header :: h.body.map BodyLine.line
  | .other l => [l.line]

def Part.rows : Part → List DiffRow
  | .hunk h => h.rows
  | .other _ => []

/-- The name of a file that there is: a path, perhaps with `a/` or `b/` in front and a time behind a tab. -/
structure FileName where
  letter : Option UInt16 := none
  path : JsString
  stamp : Option JsString := none
  letter_ab : ∀ c ∈ letter, c = 97 ∨ c = 98
  no_tab : tab ∉ path
  begins : ∃ u ∈ path.head?, isBlank u = false
  ends : ∃ u ∈ path.getLast?, isBlank u = false
  bare : letter = none → path ≠ devNull ∧ withoutLetter path = path

def nameText : Option FileName → JsString
  | none => devNull
  | some f => (match f.letter with
      | none => f.path
      | some c => c :: slash :: f.path) ++ (match f.stamp with
      | none => []
      | some stamp => tab :: stamp)

structure FileSection where
  old : Option FileName
  new : Option FileName
  parts : List Part

def FileSection.lines (s : FileSection) : List JsString :=
  (oldMark ++ nameText s.old) :: (newMark ++ nameText s.new) :: s.parts.flatMap Part.lines

def FileSection.rows (s : FileSection) : List DiffRow := s.parts.flatMap Part.rows

/-- **A patch**: file sections that change something; before the first there are extended headers only. -/
structure Patch where
  preamble : List JsString
  sections : List FileSection
  extended : ∀ line ∈ preamble, isFileMeta line = true
  changed : ∃ row ∈ sections.flatMap FileSection.rows, row.kind ≠ .equal

def Patch.lines (p : Patch) : List JsString := p.preamble ++ p.sections.flatMap FileSection.lines

def Patch.contents (p : Patch) : UnifiedDiff :=
  { fileCount := p.sections.length
    oldPath := (p.sections.getLast?.bind (·.old)).map (·.path)
    newPath := (p.sections.getLast?.bind (·.new)).map (·.path)
    rows := p.sections.flatMap FileSection.rows }

/-! ## numbers -/

theorem digit_unit {n : Nat} {c : Char} (h : c ∈ Nat.toDigits 10 n) :
    isDigit (UInt16.ofNat c.toNat) = true ∧ (UInt16.ofNat c.toNat).toNat = c.toNat := by
  have hdigit := Nat.isDigit_of_mem_toDigits (by decide) (by decide) h
  have hrange : 48 ≤ c.toNat ∧ c.toNat ≤ 57 := by
    simpa [Char.isDigit, UInt32.le_iff_toNat_le] using hdigit
  have hunit : (UInt16.ofNat c.toNat).toNat = c.toNat := by
    rw [UInt16.toNat_ofNat']
    omega
  refine ⟨?_, hunit⟩
  simp only [isDigit, Bool.and_eq_true, decide_eq_true_eq, UInt16.le_iff_toNat_le, hunit]
  exact hrange

theorem isDigit_digits (n : Nat) : ∀ c ∈ digits n, isDigit c = true := by
  intro c hc
  obtain ⟨d, hd, rfl⟩ := List.mem_map.1 hc
  exact (digit_unit hd).1

theorem digits_ne_nil (n : Nat) : digits n ≠ [] := by
  intro h
  exact Nat.toDigits_ne_nil (List.map_eq_nil_iff.1 h)

theorem numberOf_map : ∀ (l : List Char) (start : Nat), (∀ c ∈ l, (UInt16.ofNat c.toNat).toNat = c.toNat) →
    (l.map (fun c => UInt16.ofNat c.toNat)).foldl (fun n c => n * 10 + (c.toNat - 48)) start =
      Nat.ofDigitChars 10 l start
  | [], _, _ => rfl
  | c :: l, start, h => by
    have ih := numberOf_map l (start * 10 + (c.toNat - 48)) (fun d hd => h d (List.mem_cons_of_mem c hd))
    have hc := h c List.mem_cons_self
    rw [List.map_cons, List.foldl_cons, hc, ih, Nat.ofDigitChars_eq_foldl, Nat.ofDigitChars_eq_foldl, List.foldl_cons,
      Nat.mul_comm start 10]
    rfl

theorem numberOf_digits (n : Nat) : numberOf (digits n) = n :=
  (numberOf_map _ 0 (fun _ hc => (digit_unit hc).2)).trans Nat.ofDigitChars_ten_toDigits

theorem takeNumber_digits (n : Nat) {rest : JsString} (hrest : ∀ c ∈ rest.head?, isDigit c = false) :
    takeNumber (digits n ++ rest) = some (n, rest) := by
  have hstop : rest.takeWhile isDigit = [] ∧ rest.dropWhile isDigit = rest := by
    cases rest with
    | nil => exact ⟨rfl, rfl⟩
    | cons c rest =>
      have hc : ¬ isDigit c = true := by rw [hrest c rfl]; decide
      exact ⟨List.takeWhile_cons_of_neg hc, List.dropWhile_cons_of_neg hc⟩
  unfold takeNumber
  rw [List.takeWhile_append_of_pos (isDigit_digits n), List.dropWhile_append_of_pos (isDigit_digits n), hstop.1, hstop.2,
    List.append_nil, if_neg (digits_ne_nil n), numberOf_digits]

theorem expect_append (start rest : JsString) : expect start (start ++ rest) = some rest := by
  unfold expect
  rw [if_pos (List.isPrefixOf_iff_prefix.2 (List.prefix_append start rest)), List.drop_left]

theorem takeNumber_side (start count : Nat) (short : Bool) (rest : JsString) :
    ∃ more shown, takeNumber (sideRange start count short ++ blank :: rest) = some (start, more) ∧
      takeCount more = (shown, blank :: rest) ∧ shown.getD 1 = count := by
  have hblank : ∀ c ∈ (blank :: rest).head?, isDigit c = false := by
    rintro c ⟨⟩
    decide
  unfold sideRange
  split
  · rename_i hshort
    have hone : count = 1 := by
      simp only [Bool.and_eq_true, beq_iff_eq] at hshort
      exact hshort.2
    exact ⟨blank :: rest, none, takeNumber_digits start hblank, rfl, hone.symm⟩
  · have hcomma : ∀ c ∈ (comma :: (digits count ++ blank :: rest)).head?, isDigit c = false := by
      rintro c ⟨⟩
      decide
    refine ⟨comma :: (digits count ++ blank :: rest), some count, ?_, ?_, rfl⟩
    · rw [List.append_assoc, List.cons_append]
      exact takeNumber_digits start hcomma
    · have hexpect := expect_append [comma] (digits count ++ blank :: rest)
      unfold takeCount
      rw [List.singleton_append] at hexpect
      rw [hexpect, Option.bind_some, takeNumber_digits count hblank]

theorem hunkHeader_header (h : Hunk) : ∃ oldCount newCount, hunkHeader h.header = some (h.oldStart, oldCount, h.newStart, newCount) ∧
    oldCount.getD 1 = oldLines h.body ∧ newCount.getD 1 = newLines h.body := by
  obtain ⟨oldMore, oldCount, hold, holdCount, holdTrue⟩ := takeNumber_side h.oldStart (oldLines h.body) h.shortOld
    (plus :: (sideRange h.newStart (newLines h.body) h.shortNew ++ blank :: ([atSign, atSign] ++ h.title)))
  obtain ⟨newMore, newCount, hnew, hnewCount, hnewTrue⟩ := takeNumber_side h.newStart (newLines h.body) h.shortNew
    ([atSign, atSign] ++ h.title)
  refine ⟨oldCount, newCount, ?_, holdTrue, hnewTrue⟩
  have hheader : h.header = [atSign, atSign] ++ ([blank, minus] ++ (sideRange h.oldStart (oldLines h.body) h.shortOld ++
      blank :: plus :: (sideRange h.newStart (newLines h.body) h.shortNew ++ blank :: ([atSign, atSign] ++ h.title)))) := by
    simp [Hunk.header]
  have hats : ∀ rest : JsString, ([blank, minus] ++ rest).dropWhile (fun c => decide (c = atSign)) = [blank, minus] ++ rest :=
    fun rest => List.dropWhile_cons_of_neg (by decide)
  have hmiddle : expect [blank, plus] (blank :: plus :: (sideRange h.newStart (newLines h.body) h.shortNew ++
      blank :: ([atSign, atSign] ++ h.title))) = some (sideRange h.newStart (newLines h.body) h.shortNew ++
        blank :: ([atSign, atSign] ++ h.title)) := expect_append [blank, plus] _
  have hend : expect [blank, atSign, atSign] (blank :: ([atSign, atSign] ++ h.title)) = some h.title :=
    expect_append [blank, atSign, atSign] _
  unfold hunkHeader
  rw [hheader, expect_append, Option.bind_eq_bind, Option.bind_some, hats, expect_append]
  simp only [Option.bind_eq_bind, Option.bind_some, hold, holdCount, hmiddle, hnew, hnewCount, hend]
  rfl

theorem isPrefixOf_head {line start : JsString} {c : UInt16} (h : line.head? ≠ some c) :
    (c :: start).isPrefixOf line = false := by
  cases line with
  | nil => rfl
  | cons d rest =>
    have hne : (c == d) = false := beq_eq_false_iff_ne.2 (fun heq => h (congrArg some heq.symm))
    rw [List.isPrefixOf, hne, Bool.false_and]

theorem hunkHeader_none {line : JsString} (h : line.head? ≠ some atSign) : hunkHeader line = none := by
  have hexpect : expect [atSign, atSign] line = none := by
    unfold expect
    rw [isPrefixOf_head h]
    rfl
  unfold hunkHeader
  rw [hexpect]
  rfl

/-! ## file headers -/

theorem trim_of_ends {text : JsString} (hbegins : ∃ u ∈ text.head?, isBlank u = false)
    (hends : ∃ u ∈ text.getLast?, isBlank u = false) : trim text = text := by
  have hkeep : ∀ l : JsString, (∃ u ∈ l.head?, isBlank u = false) → l.dropWhile isBlank = l := by
    rintro l ⟨u, hu, hink⟩
    cases l with
    | nil => cases hu
    | cons v rest =>
      cases hu
      exact List.dropWhile_cons_of_neg (by rw [hink]; decide)
  unfold trim
  rw [hkeep text hbegins, hkeep text.reverse (by rwa [List.head?_reverse]), List.reverse_reverse]

def FileName.value (f : FileName) : JsString :=
  match f.letter with
  | none => f.path
  | some c => c :: slash :: f.path

theorem path_ne_nil (f : FileName) : f.path ≠ [] := by
  intro h
  obtain ⟨u, hu, -⟩ := f.begins
  rw [h] at hu
  cases hu

theorem FileName.value_spec (f : FileName) : tab ∉ f.value ∧ trim f.value = f.value ∧ f.value ≠ [] ∧ f.value ≠ devNull ∧
    withoutLetter f.value = f.path := by
  unfold FileName.value
  cases hletter : f.letter with
  | none =>
    obtain ⟨hnull, hpath⟩ := f.bare hletter
    exact ⟨f.no_tab, trim_of_ends f.begins f.ends, path_ne_nil f, hnull, hpath⟩
  | some c =>
    have hc := f.letter_ab c hletter
    have hends : ∃ u ∈ (c :: slash :: f.path).getLast?, isBlank u = false := by
      obtain ⟨u, hu, hink⟩ := f.ends
      refine ⟨u, ?_, hink⟩
      rw [List.getLast?_cons_cons, List.getLast?_cons, Option.mem_def.1 hu]
      rfl
    refine ⟨?_, trim_of_ends ⟨c, rfl, ?_⟩ hends, List.cons_ne_nil _ _, ?_, ?_⟩
    · have hplain : tab ≠ c ∧ tab ≠ slash := by rcases hc with rfl | rfl <;> decide
      simp [hplain.1, hplain.2, f.no_tab]
    · rcases hc with rfl | rfl <;> decide
    · intro hnull
      have hfirst : c = 47 := (List.cons.inj hnull).1
      rcases hc with rfl | rfl <;> exact absurd hfirst (by decide)
    · exact if_pos ⟨hc, rfl⟩

theorem headerPath_line (mark : JsString) (hmark : mark.length = 4) (name : Option FileName) :
    headerPath (mark ++ nameText name) = name.map (·.path) := by
  unfold headerPath
  rw [← hmark, List.drop_left]
  cases name with
  | none => decide
  | some f =>
    obtain ⟨htab, htrim, hne, hnull, hpath⟩ := f.value_spec
    have hvalue : (nameText (some f)).takeWhile (fun c => decide (c ≠ tab)) = f.value := by
      have hall : ∀ c ∈ f.value, decide (c ≠ tab) = true := fun c hc => decide_eq_true (fun h => htab (h ▸ hc))
      have htext : nameText (some f) = f.value ++ (match f.stamp with
          | none => []
          | some stamp => tab :: stamp) := rfl
      rw [htext, List.takeWhile_append_of_pos hall]
      cases f.stamp with
      | none => exact List.append_nil _
      | some stamp => exact (congrArg (f.value ++ ·) (List.takeWhile_cons_of_neg (by decide))).trans (List.append_nil _)
    rw [hvalue, htrim, if_neg (not_or.2 ⟨hne, hnull⟩), hpath]
    rfl

theorem fileMeta_plain {line : JsString} (h : isFileMeta line = true) :
    oldMark.isPrefixOf line = false ∧ newMark.isPrefixOf line = false ∧ hunkHeader line = none ∧ isMarker line = false ∧
      line.head? ≠ some minus ∧ line.head? ≠ some plus := by
  obtain ⟨start, hstart, hbegins⟩ := List.any_eq_true.1 h
  have hheads : fileMetas.all (fun s => s.head?.any (fun c => not ([minus, plus, atSign, backslash].contains c))) = true := by
    decide
  have hhead := List.all_eq_true.1 hheads start hstart
  obtain ⟨rest, rfl⟩ := List.isPrefixOf_iff_prefix.1 hbegins
  cases start with
  | nil => cases hhead
  | cons c more =>
    have hplain : ((c ≠ minus ∧ c ≠ plus) ∧ c ≠ atSign) ∧ c ≠ backslash := by
      simpa [and_assoc] using hhead
    obtain ⟨⟨⟨hminus, hplus⟩, hat⟩, hslash⟩ := hplain
    have hne : ∀ d : UInt16, c ≠ d → (c :: more ++ rest).head? ≠ some d := fun d hd h => hd (Option.some.inj h)
    exact ⟨isPrefixOf_head (hne minus hminus), isPrefixOf_head (hne plus hplus), hunkHeader_none (hne atSign hat),
      by simp [isMarker, hslash], hne minus hminus, hne plus hplus⟩

end Diff
end MyGpt
