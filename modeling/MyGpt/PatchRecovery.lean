import MyGpt.UnifiedDiff
/-!
# PatchRecovery — what `parseUnifiedDiff` gives back of a patch

A hunk is closed by its last counted line, and a line outside of every hunk leaves the rows as they are, unless it begins
with `-` or `+`: then it is taken for a change (`parse_contents_iff`).  A hunk of no line is not closed, so it takes the next
line, whatever that is.
-/
namespace MyGpt
namespace Diff

open Sse (JsString)

/-! ## lines that are taken for rows -/

def isSigned (line : JsString) : Bool := line.head? == some minus || line.head? == some plus

def Hunk.isEmpty (h : Hunk) : Bool := oldLines h.body == 0 && newLines h.body == 0

def opensAfter : Bool → List Part → Bool
  | opened, [] => opened
  | _, .hunk h :: parts => opensAfter h.isEmpty parts
  | opened, .other l :: parts => opensAfter (opened && isMarker l.line) parts

def strays : Bool → List Part → Nat
  | _, [] => 0
  | _, .hunk h :: parts => strays h.isEmpty parts
  | opened, .other l :: parts =>
    (if isMarker l.line = false ∧ (opened || isSigned l.line) = true then 1 else 0) +
      strays (opened && isMarker l.line) parts

def straysIn : Bool → List FileSection → Nat
  | _, [] => 0
  | opened, s :: sections => opened.toNat + strays false s.parts + straysIn (opensAfter false s.parts) sections

/-- **No line is taken for a row** behind the lines that the headers count: none begins with `-` or `+`, and behind a hunk
of no line there are markers only. -/
def CleanParts : Bool → List Part → Prop
  | _, [] => True
  | _, .hunk h :: parts => CleanParts h.isEmpty parts
  | opened, .other l :: parts =>
    (isMarker l.line = true ∨ opened = false ∧ isSigned l.line = false) ∧ CleanParts (opened && isMarker l.line) parts

def CleanSections : Bool → List FileSection → Prop
  | _, [] => True
  | opened, s :: sections =>
    opened = false ∧ CleanParts false s.parts ∧ CleanSections (opensAfter false s.parts) sections

def Patch.Clean (p : Patch) : Prop := CleanSections false p.sections

theorem strays_eq_zero : ∀ (opened : Bool) (parts : List Part), strays opened parts = 0 ↔ CleanParts opened parts
  | _, [] => ⟨fun _ => trivial, fun _ => rfl⟩
  | _, .hunk h :: parts => strays_eq_zero h.isEmpty parts
  | opened, .other l :: parts => by
    have ih := strays_eq_zero (opened && isMarker l.line) parts
    rw [strays, CleanParts, Nat.add_eq_zero_iff, ih]
    refine and_congr_left' ?_
    cases isMarker l.line <;> cases opened <;> cases isSigned l.line <;> simp

theorem straysIn_eq_zero : ∀ (opened : Bool) (sections : List FileSection),
    straysIn opened sections = 0 ↔ CleanSections opened sections
  | _, [] => ⟨fun _ => trivial, fun _ => rfl⟩
  | opened, s :: sections => by
    have ih := straysIn_eq_zero (opensAfter false s.parts) sections
    rw [straysIn, CleanSections, Nat.add_eq_zero_iff, Nat.add_eq_zero_iff, ih, strays_eq_zero, and_assoc]
    refine and_congr_left' ?_
    cases opened <;> decide

/-! ## a line -/

namespace PatchState

theorem step_marker (st : PatchState) {line : JsString} (h : isMarker line = true) : st.step line = st := by
  have hhead : line.head? = some backslash := by simpa [isMarker] using h
  have hne : ∀ c : UInt16, c ≠ backslash → line.head? ≠ some c := fun c hc heq => hc (Option.some.inj (heq.symm.trans hhead))
  unfold step
  rw [oldMark, newMark, isPrefixOf_head (hne minus (by decide)), isPrefixOf_head (hne plus (by decide)),
    hunkHeader_none (hne atSign (by decide)), if_neg (by simp), if_neg (by simp)]
  exact if_pos h

theorem step_inHunk {st : PatchState} (hin : st.inHunk = true) {line : JsString} (hunk : hunkHeader line = none)
    (hmarker : isMarker line = false) : st.step line = (st.pushLine line).closeHunk := by
  unfold step
  rw [if_neg (by simp [hin]), if_neg (by simp [hin]), hunk]
  exact if_neg (by rw [hmarker]; decide)

theorem step_outside {st : PatchState} (l : OtherLine) (hmarker : isMarker l.line = false) :
    st.step l.line = (st.pushLine l.line).closeHunk := by
  unfold step
  rw [l.not_old, l.not_new, l.not_hunk, if_neg (by simp), if_neg (by simp)]
  exact if_neg (by rw [hmarker]; decide)

theorem step_header (st : PatchState) (h : Hunk) : ∃ oldCount newCount,
    st.step h.header = st.openHunk h.oldStart oldCount h.newStart newCount ∧ oldCount.getD 1 = oldLines h.body ∧
      newCount.getD 1 = newLines h.body := by
  obtain ⟨oldCount, newCount, hheader, hold, hnew⟩ := hunkHeader_header h
  refine ⟨oldCount, newCount, ?_, hold, hnew⟩
  have hat : h.header.head? = some atSign := rfl
  have hne : ∀ c : UInt16, c ≠ atSign → h.header.head? ≠ some c := fun c hc heq => hc (Option.some.inj (heq.symm.trans hat))
  unfold step
  rw [oldMark, newMark, isPrefixOf_head (hne minus (by decide)), isPrefixOf_head (hne plus (by decide)), if_neg (by simp),
    if_neg (by simp), hheader]

structure SameFiles (st st' : PatchState) : Prop where
  oldPath : st'.oldPath = st.oldPath
  newPath : st'.newPath = st.newPath
  fileCount : st'.fileCount = st.fileCount
  seen : st'.sawFileHeader = st.sawFileHeader

theorem SameFiles.refl (st : PatchState) : SameFiles st st := ⟨rfl, rfl, rfl, rfl⟩

theorem SameFiles.trans {st st' st'' : PatchState} (h : SameFiles st st') (h' : SameFiles st' st'') : SameFiles st st'' :=
  ⟨h'.oldPath.trans h.oldPath, h'.newPath.trans h.newPath, h'.fileCount.trans h.fileCount, h'.seen.trans h.seen⟩

theorem closeHunk_same (st : PatchState) : SameFiles st st.closeHunk := by
  unfold closeHunk
  split <;> exact ⟨rfl, rfl, rfl, rfl⟩

theorem closeHunk_rows (st : PatchState) : st.closeHunk.rows = st.rows := by
  unfold closeHunk
  split <;> rfl

theorem pushLine_row (st : PatchState) (line : JsString) (h : st.inHunk = true ∨ isSigned line = true) :
    ∃ row, (st.pushLine line).rows = st.rows ++ [row] := by
  unfold pushLine
  split
  · exact ⟨_, rfl⟩
  · split
    · exact ⟨_, rfl⟩
    · rename_i hminus hplus
      have hin : st.inHunk = true := h.resolve_right (by simp [isSigned, hminus, hplus])
      rw [if_pos (.inl hin)]
      exact ⟨_, rfl⟩

theorem pushLine_plain {st : PatchState} {line : JsString} (hin : st.inHunk = false) (hseen : st.sawFileHeader = true)
    (h : isSigned line = false) : st.pushLine line = st := by
  have hheads : line.head? ≠ some minus ∧ line.head? ≠ some plus := by simpa [isSigned] using h
  unfold pushLine
  rw [if_neg hheads.1, if_neg hheads.2, if_neg (by simp [hin, hseen])]

theorem pushLine_left (st : PatchState) (line : JsString) : (st.pushLine line).inHunk = st.inHunk ∧
    (st.pushLine line).oldLeft ≤ st.oldLeft ∧ (st.pushLine line).newLeft ≤ st.newLeft := by
  unfold pushLine
  repeat' split
  all_goals refine ⟨rfl, ?_, ?_⟩ <;> simp [pushDel, pushAdd, pushEqual] <;> omega

theorem pushLine_same (st : PatchState) (line : JsString) : SameFiles st (st.pushLine line) := by
  unfold pushLine
  repeat' split
  all_goals exact ⟨rfl, rfl, rfl, rfl⟩

end PatchState

/-! ## a hunk -/

open PatchState

theorem markers_run : ∀ (body : List BodyLine) (st : PatchState), oldLines body = 0 → newLines body = 0 →
    (body.map BodyLine.line).foldl step st = st ∧ ∀ i j, bodyRows i j body = []
  | [], _, _, _ => ⟨rfl, fun _ _ => rfl⟩
  | .marker text :: body, st, hold, hnew => by
    obtain ⟨hrun, hrows⟩ := markers_run body st hold hnew
    have hmarker : isMarker (BodyLine.marker text).line = true := rfl
    rw [List.map_cons, List.foldl_cons, step_marker st hmarker]
    exact ⟨hrun, hrows⟩

structure Within (i j old new : Nat) (st : PatchState) : Prop where
  inHunk : st.inHunk = true
  oldNumber : st.oldNumber = i
  newNumber : st.newNumber = j
  oldLeft : st.oldLeft = (old : Nat)
  newLeft : st.newLeft = (new : Nat)

section

variable {i j old new : Nat} {st : PatchState}

theorem Within.pushEqual (h : Within i j (old + 1) (new + 1) st) (line : JsString) :
    Within (i + 1) (j + 1) old new (st.pushEqual line) := by
  have hold : st.oldLeft - 1 = (old : Nat) := by rw [h.oldLeft]; omega
  have hnew : st.newLeft - 1 = (new : Nat) := by rw [h.newLeft]; omega
  exact ⟨h.inHunk, congrArg (· + 1) h.oldNumber, congrArg (· + 1) h.newNumber, hold, hnew⟩

theorem Within.pushDel (h : Within i j (old + 1) new st) (text : JsString) : Within (i + 1) j old new (st.pushDel text) := by
  have hold : st.oldLeft - 1 = (old : Nat) := by rw [h.oldLeft]; omega
  exact ⟨h.inHunk, congrArg (· + 1) h.oldNumber, h.newNumber, hold, h.newLeft⟩

theorem Within.pushAdd (h : Within i j old (new + 1) st) (text : JsString) : Within i (j + 1) old new (st.pushAdd text) := by
  have hnew : st.newLeft - 1 = (new : Nat) := by rw [h.newLeft]; omega
  exact ⟨h.inHunk, h.oldNumber, congrArg (· + 1) h.newNumber, h.oldLeft, hnew⟩

end

structure Passed (rows : List DiffRow) (empty : Bool) (st st' : PatchState) : Prop where
  same : SameFiles st st'
  rows : st'.rows = st.rows ++ rows
  inHunk : st'.inHunk = empty
  left : empty = true → st'.oldLeft = 0 ∧ st'.newLeft = 0

theorem Passed.counted {row : DiffRow} {i j old new : Nat} {st st' : PatchState} {body : List BodyLine}
    (hsame : SameFiles st st') (hrows : st'.rows = st.rows ++ [row]) (hin : Within i j old new st')
    (hold : oldLines body = old) (hnew : newLines body = new)
    (ih : ∀ st, Within i j old new st →
      Passed (bodyRows i j body) (oldLines body == 0 && newLines body == 0) st ((body.map BodyLine.line).foldl step st)) :
    Passed (row :: bodyRows i j body) false st ((body.map BodyLine.line).foldl step st'.closeHunk) := by
  by_cases hlast : old = 0 ∧ new = 0
  · have hclose : st'.closeHunk = { st' with inHunk := false } := by
      unfold closeHunk
      rw [if_pos ⟨hin.inHunk, by rw [hin.oldLeft, hlast.1]; decide, by rw [hin.newLeft, hlast.2]; decide⟩]
    obtain ⟨hrun, hnone⟩ := markers_run body { st' with inHunk := false } (hold.trans hlast.1) (hnew.trans hlast.2)
    rw [hclose, hrun, hnone]
    exact ⟨hsame.trans ⟨rfl, rfl, rfl, rfl⟩, hrows, rfl, nofun⟩
  · have hclose : st'.closeHunk = st' := by
      unfold closeHunk
      rw [if_neg]
      rintro ⟨-, holdLeft, hnewLeft⟩
      rw [hin.oldLeft] at holdLeft
      rw [hin.newLeft] at hnewLeft
      exact hlast ⟨by omega, by omega⟩
    have hrun := ih st' hin
    have hopen : (oldLines body == 0 && newLines body == 0) = false := by
      rw [hold, hnew, Bool.and_eq_false_iff, beq_eq_false_iff_ne, beq_eq_false_iff_ne]
      omega
    rw [hclose]
    refine ⟨hsame.trans hrun.same, ?_, hrun.inHunk.trans hopen, nofun⟩
    rw [hrun.rows, hrows, List.append_assoc, List.singleton_append]

theorem head_ne {c d : UInt16} (h : c ≠ d) (text : JsString) : (c :: text).head? ≠ some d := fun heq => h (Option.some.inj heq)

theorem body_run : ∀ (body : List BodyLine) (i j : Nat) (st : PatchState), Within i j (oldLines body) (newLines body) st →
    Passed (bodyRows i j body) (oldLines body == 0 && newLines body == 0) st ((body.map BodyLine.line).foldl step st)
  | [], _, _, st, h => ⟨SameFiles.refl st, (List.append_nil _).symm, h.inHunk, fun _ => ⟨h.oldLeft, h.newLeft⟩⟩
  | .marker text :: body, i, j, st, h => by
    have hmarker : isMarker (BodyLine.marker text).line = true := rfl
    rw [List.map_cons, List.foldl_cons, step_marker st hmarker]
    exact body_run body i j st h
  | .context text :: body, i, j, st, h => by
    have hpush : st.pushLine (blank :: text) = st.pushEqual (blank :: text) := by
      unfold pushLine
      rw [if_neg (head_ne (by decide) text), if_neg (head_ne (by decide) text), if_pos (.inl h.inHunk)]
    have hrows : (st.pushEqual (blank :: text)).rows = st.rows ++ [⟨.equal, some i, some j, text⟩] := by
      rw [← h.oldNumber, ← h.newNumber]
      rfl
    rw [List.map_cons, List.foldl_cons, BodyLine.line, step_inHunk h.inHunk (hunkHeader_none (head_ne (by decide) text)) rfl,
      hpush]
    exact Passed.counted ⟨rfl, rfl, rfl, rfl⟩ hrows (h.pushEqual _) rfl rfl (body_run body (i + 1) (j + 1))
  | .del text :: body, i, j, st, h => by
    have hpush : st.pushLine (minus :: text) = st.pushDel text := if_pos rfl
    have hrows : (st.pushDel text).rows = st.rows ++ [⟨.del, some i, none, text⟩] := by
      rw [← h.oldNumber]
      rfl
    have hcount : (oldLines (.del text :: body) == 0 && newLines (.del text :: body) == 0) = false := rfl
    rw [List.map_cons, List.foldl_cons, BodyLine.line, step_inHunk h.inHunk (hunkHeader_none (head_ne (by decide) text)) rfl,
      hpush, hcount]
    exact Passed.counted ⟨rfl, rfl, rfl, rfl⟩ hrows (h.pushDel text) rfl rfl (body_run body (i + 1) j)
  | .add text :: body, i, j, st, h => by
    have hpush : st.pushLine (plus :: text) = st.pushAdd text := by
      unfold pushLine
      rw [if_neg (head_ne (by decide) text)]
      exact if_pos rfl
    have hrows : (st.pushAdd text).rows = st.rows ++ [⟨.add, none, some j, text⟩] := by
      rw [← h.newNumber]
      rfl
    have hcount : (oldLines (.add text :: body) == 0 && newLines (.add text :: body) == 0) = false := by
      rw [newLines, Bool.and_eq_false_iff]
      exact .inr rfl
    rw [List.map_cons, List.foldl_cons, BodyLine.line, step_inHunk h.inHunk (hunkHeader_none (head_ne (by decide) text)) rfl,
      hpush, hcount]
    exact Passed.counted ⟨rfl, rfl, rfl, rfl⟩ hrows (h.pushAdd text) rfl rfl (body_run body i (j + 1))

/-- **A hunk**, whatever was before it: its header counts its lines, so it is closed behind them. -/
theorem hunk_run (h : Hunk) {st : PatchState} (hcounted : st.fileCount ≠ 0) :
    Passed h.rows h.isEmpty st ((Part.hunk h).lines.foldl step st) := by
  obtain ⟨oldCount, newCount, hstep, hold, hnew⟩ := step_header st h
  have hinside : Within h.oldStart h.newStart (oldLines h.body) (newLines h.body)
      (st.openHunk h.oldStart oldCount h.newStart newCount) :=
    ⟨rfl, rfl, rfl, congrArg Nat.cast hold, congrArg Nat.cast hnew⟩
  have hbody := body_run h.body h.oldStart h.newStart _ hinside
  have hopen : SameFiles st (st.openHunk h.oldStart oldCount h.newStart newCount) := ⟨rfl, rfl, if_neg hcounted, rfl⟩
  rw [Part.lines, List.foldl_cons, hstep]
  exact { hbody with same := hopen.trans hbody.same }

/-! ## the parts of a section -/

structure Between (opened : Bool) (st : PatchState) : Prop where
  inHunk : st.inHunk = opened
  left : opened = true → st.oldLeft = 0 ∧ st.newLeft = 0

structure Read (rows : List DiffRow) (extra : Nat) (st st' : PatchState) : Prop where
  same : SameFiles st st'
  length : st'.rows.length = st.rows.length + rows.length + extra
  exact : extra = 0 → st'.rows = st.rows ++ rows

theorem Read.append {rows more : List DiffRow} {m n : Nat} {st st' st'' : PatchState} (h : Read rows m st st')
    (h' : Read more n st' st'') : Read (rows ++ more) (m + n) st st'' := by
  refine ⟨h.same.trans h'.same, ?_, fun hzero => ?_⟩
  · rw [h'.length, h.length, List.length_append]
    omega
  · rw [h'.exact (by omega), h.exact (by omega), List.append_assoc]

theorem Passed.read {rows : List DiffRow} {empty : Bool} {st st' : PatchState} (h : Passed rows empty st st') :
    Read rows 0 st st' ∧ Between empty st' := by
  refine ⟨⟨h.same, ?_, fun _ => h.rows⟩, h.inHunk, h.left⟩
  rw [h.rows, List.length_append, Nat.add_zero]

theorem Between.pushLine {opened : Bool} {st : PatchState} (h : Between opened st) (line : JsString) :
    Between false (st.pushLine line).closeHunk := by
  obtain ⟨hin, hold, hnew⟩ := pushLine_left st line
  refine ⟨?_, nofun⟩
  unfold closeHunk
  cases opened with
  | true =>
    obtain ⟨holdLeft, hnewLeft⟩ := h.left rfl
    rw [if_pos ⟨hin.trans h.inHunk, by omega, by omega⟩]
  | false =>
    rw [if_neg (by simp [hin, h.inHunk])]
    exact hin.trans h.inHunk

/-- **A line of no hunk** is a row where a hunk is open, or where it begins with `-` or `+`; no hunk is open behind it. -/
theorem other_run (line : JsString) {opened : Bool} {st : PatchState} (h : Between opened st)
    (hseen : st.sawFileHeader = true ∨ opened = true) :
    Read [] (if (opened || isSigned line) = true then 1 else 0) st (st.pushLine line).closeHunk := by
  have hsame := (pushLine_same st line).trans (closeHunk_same (st.pushLine line))
  by_cases hrow : (opened || isSigned line) = true
  · obtain ⟨row, hrows⟩ := pushLine_row st line (by
      rw [h.inHunk]
      exact Bool.or_eq_true_iff.1 hrow)
    rw [if_pos hrow]
    refine ⟨hsame, ?_, nofun⟩
    rw [closeHunk_rows, hrows, List.length_append]
    rfl
  · obtain ⟨hopened, hsigned⟩ := Bool.or_eq_false_iff.1 (Bool.not_eq_true _ ▸ hrow)
    subst hopened
    rw [if_neg hrow]
    have hplain := pushLine_plain h.inHunk (hseen.resolve_right Bool.false_ne_true) hsigned
    refine ⟨hsame, ?_, fun _ => ?_⟩
    · rw [closeHunk_rows, hplain]
      rfl
    · rw [closeHunk_rows, hplain, List.append_nil]

theorem parts_run : ∀ (parts : List Part) {opened : Bool} (st : PatchState), Between opened st → st.sawFileHeader = true →
    st.fileCount ≠ 0 →
    Read (parts.flatMap Part.rows) (strays opened parts) st ((parts.flatMap Part.lines).foldl step st) ∧
      Between (opensAfter opened parts) ((parts.flatMap Part.lines).foldl step st)
  | [], _, st, h, _, _ => ⟨⟨SameFiles.refl st, rfl, fun _ => (List.append_nil _).symm⟩, h⟩
  | .hunk h :: parts, opened, st, _, hseen, hcounted => by
    obtain ⟨hread, hbetween⟩ := (hunk_run h hcounted).read
    obtain ⟨hrest, hafter⟩ := parts_run parts _ hbetween (hread.same.seen.trans hseen) (by rwa [hread.same.fileCount])
    rw [List.flatMap_cons, List.flatMap_cons, List.foldl_append, strays, opensAfter, ← Nat.zero_add (strays h.isEmpty parts)]
    exact ⟨hread.append hrest, hafter⟩
  | .other l :: parts, opened, st, h, hseen, hcounted => by
    rw [List.flatMap_cons, List.flatMap_cons, List.foldl_append, strays, opensAfter]
    change Read ([] ++ parts.flatMap Part.rows) _ st (List.foldl step (step st l.line) _) ∧
      Between _ (List.foldl step (step st l.line) _)
    cases hmarker : isMarker l.line with
    | true =>
      rw [step_marker st hmarker, Bool.and_true, List.nil_append, if_neg (by simp), Nat.zero_add]
      exact parts_run parts st h hseen hcounted
    | false =>
      have hread := other_run l.line h (.inl hseen)
      obtain ⟨hrest, hafter⟩ := parts_run parts _ (h.pushLine l.line) (hread.same.seen.trans hseen)
        (by rwa [hread.same.fileCount])
      rw [step_outside l hmarker, Bool.and_false]
      refine ⟨?_, hafter⟩
      simpa using hread.append hrest

/-! ## sections -/

theorem step_old {st : PatchState} (hin : st.inHunk = false) (name : Option FileName) :
    st.step (oldMark ++ nameText name) = st.oldFile (oldMark ++ nameText name) :=
  if_pos ⟨hin, List.isPrefixOf_iff_prefix.2 (List.prefix_append _ _)⟩

theorem step_new {st : PatchState} (hin : st.inHunk = false) (name : Option FileName) :
    st.step (newMark ++ nameText name) = st.newFile (newMark ++ nameText name) := by
  have hnot : oldMark.isPrefixOf (newMark ++ nameText name) = false := isPrefixOf_head (head_ne (by decide) _)
  unfold step
  rw [hnot, if_neg (by simp)]
  exact if_pos ⟨hin, List.isPrefixOf_iff_prefix.2 (List.prefix_append _ _)⟩

theorem header_parts (name : Option FileName) (parts : List Part) (st : PatchState) (hin : st.inHunk = false) :
    ∃ st', (((newMark ++ nameText name) :: parts.flatMap Part.lines).foldl step st) = st' ∧
      Between (opensAfter false parts) st' ∧
      Read (parts.flatMap Part.rows) (strays false parts) (st.newFile (newMark ++ nameText name)) st' := by
  refine ⟨_, rfl, ?_⟩
  have hcounted : (st.newFile (newMark ++ nameText name)).fileCount ≠ 0 := by
    change (if st.fileCount = 0 then 1 else st.fileCount) ≠ 0
    split
    · decide
    · assumption
  have hparts := parts_run parts (st.newFile (newMark ++ nameText name)) ⟨hin, nofun⟩ rfl hcounted
  rw [List.foldl_cons, step_new hin]
  exact ⟨hparts.2, hparts.1⟩

/-- **A section**: the files are those of its header, unless a hunk of no line was open before it. -/
theorem section_run (s : FileSection) {opened : Bool} {st : PatchState} (h : Between opened st) :
    ∃ st', s.lines.foldl step st = st' ∧ Between (opensAfter false s.parts) st' ∧
      st'.rows.length = st.rows.length + s.rows.length + (opened.toNat + strays false s.parts) ∧
      (opened.toNat + strays false s.parts = 0 → st'.rows = st.rows ++ s.rows ∧ st'.fileCount = st.fileCount + 1 ∧
        st'.oldPath = s.old.map (·.path) ∧ st'.newPath = s.new.map (·.path)) := by
  cases opened with
  | false =>
    obtain ⟨st', hrun, hbetween, hread⟩ := header_parts s.new s.parts (st.oldFile (oldMark ++ nameText s.old)) h.inHunk
    refine ⟨st', ?_, hbetween, ?_, fun hzero => ?_⟩
    · rw [FileSection.lines, List.foldl_cons, step_old h.inHunk]
      exact hrun
    · rw [hread.length, Bool.toNat_false, Nat.zero_add]
      rfl
    · rw [Bool.toNat_false, Nat.zero_add] at hzero
      refine ⟨hread.exact hzero, hread.same.fileCount, ?_, ?_⟩
      · exact hread.same.oldPath.trans (headerPath_line oldMark rfl s.old)
      · exact hread.same.newPath.trans (headerPath_line newMark rfl s.new)
  | true =>
    -- the hunk that is open takes the first line of the header
    have hfirst := other_run (oldMark ++ nameText s.old) h (.inr rfl)
    rw [Bool.true_or, if_pos rfl] at hfirst
    have hclosed := h.pushLine (oldMark ++ nameText s.old)
    obtain ⟨st', hrun, hbetween, hread⟩ := header_parts s.new s.parts _ hclosed.inHunk
    refine ⟨st', ?_, hbetween, ?_, fun hzero => absurd hzero (by simp)⟩
    · have hunk : hunkHeader (oldMark ++ nameText s.old) = none :=
        hunkHeader_none (head_ne (c := minus) (d := atSign) (by decide) _)
      rw [FileSection.lines, List.foldl_cons, step_inHunk h.inHunk hunk rfl]
      exact hrun
    · have hlength : st'.rows.length = (st.pushLine (oldMark ++ nameText s.old)).closeHunk.rows.length +
          (s.parts.flatMap Part.rows).length + strays false s.parts := hread.length
      rw [hlength, hfirst.length, Bool.toNat_true, FileSection.rows, List.length_nil]
      omega

theorem sections_run : ∀ (sections : List FileSection) (opened : Bool) (st : PatchState), Between opened st →
    ∃ st', (sections.flatMap FileSection.lines).foldl step st = st' ∧
      st'.rows.length = st.rows.length + (sections.flatMap FileSection.rows).length + straysIn opened sections ∧
      (straysIn opened sections = 0 → st'.rows = st.rows ++ sections.flatMap FileSection.rows ∧
        st'.fileCount = st.fileCount + sections.length ∧
        (∀ s, sections.getLast? = some s → st'.oldPath = s.old.map (·.path) ∧ st'.newPath = s.new.map (·.path)))
  | [], _, st, _ => ⟨st, rfl, rfl, fun _ => ⟨(List.append_nil _).symm, rfl, nofun⟩⟩
  | s :: sections, opened, st, h => by
    obtain ⟨mid, hmid, hbetween, hlength, hexact⟩ := section_run s h
    obtain ⟨st', hrun, hrestLength, hrest⟩ := sections_run sections _ mid hbetween
    refine ⟨st', ?_, ?_, fun hzero => ?_⟩
    · rw [List.flatMap_cons, List.foldl_append, hmid, hrun]
    · rw [hrestLength, hlength, straysIn, List.flatMap_cons, List.length_append]
      omega
    · rw [straysIn, Nat.add_eq_zero_iff] at hzero
      obtain ⟨hrows, hcount, hold, hnew⟩ := hexact hzero.1
      obtain ⟨hrestRows, hrestCount, hpaths⟩ := hrest hzero.2
      refine ⟨?_, ?_, fun last hlast => ?_⟩
      · rw [hrestRows, hrows, List.flatMap_cons, List.append_assoc]
      · rw [hrestCount, hcount, List.length_cons]
        omega
      · cases sections with
        | nil =>
          cases hlast
          obtain rfl := hrun
          exact ⟨hold, hnew⟩
        | cons next more => exact hpaths last (by rwa [List.getLast?_cons_cons] at hlast)

/-! ## the whole text -/

def Counted (st : PatchState) : Prop := st.changes = st.rows.countP (fun row => decide (row.kind ≠ .equal))

theorem counted_push {rows : List DiffRow} {changes : Nat} (h : changes = rows.countP (fun row => decide (row.kind ≠ .equal)))
    (row : DiffRow) : (if row.kind = .equal then changes else changes + 1) =
      (rows ++ [row]).countP (fun row => decide (row.kind ≠ .equal)) := by
  rw [List.countP_append, ← h, List.countP_singleton]
  by_cases hkind : row.kind = .equal <;> simp [hkind]

theorem counted_step {st : PatchState} (h : Counted st) (line : JsString) : Counted (st.step line) := by
  unfold step
  split
  · exact h
  · split
    · exact h
    · split
      · exact h
      · split
        · exact h
        · have hpush : Counted (st.pushLine line) := by
            unfold pushLine
            split
            · exact counted_push h ⟨.del, some st.oldNumber, none, line.drop 1⟩
            · split
              · exact counted_push h ⟨.add, none, some st.newNumber, line.drop 1⟩
              · split
                · exact counted_push h ⟨.equal, some st.oldNumber, some st.newNumber, _⟩
                · exact h
          unfold closeHunk
          split <;> exact hpush

theorem counted_run (lines : List JsString) : Counted (lines.foldl step {}) :=
  List.foldlRecOn lines step (motive := Counted) rfl (fun _ h line _ => counted_step h line)

theorem preamble_run : ∀ lines : List JsString, (∀ line ∈ lines, isFileMeta line = true) → lines.foldl step {} = {}
  | [], _ => rfl
  | line :: lines, h => by
    have hmeta := h line List.mem_cons_self
    obtain ⟨hold, hnew, hunk, hmarker, hminus, hplus⟩ := fileMeta_plain hmeta
    have hstep : step {} line = {} := by
      have hpush : pushLine {} line = {} := by
        unfold pushLine
        rw [if_neg hminus, if_neg hplus, if_neg (by simp [hmeta])]
      unfold step
      rw [hold, hnew, hunk, if_neg (by simp), if_neg (by simp)]
      rw [hmarker, if_neg (by simp), hpush]
      rfl
    rw [List.foldl_cons, hstep]
    exact preamble_run lines (fun l hl => h l (List.mem_cons_of_mem line hl))

/-- **Unified diff parsing.**  A text whose lines are a patch gives back the files, and the lines of every hunk with their
numbers, exactly when no line behind what the headers count begins with `-` or `+`, and a hunk of no line has only markers
behind it. -/
theorem parse_contents_iff (patch : Patch) (text : JsString) (hlines : splitLines text = patch.lines) :
    parseUnifiedDiff text = some patch.contents ↔ patch.Clean := by
  obtain ⟨st, hrun, hlength, hexact⟩ := sections_run patch.sections false {} ⟨rfl, nofun⟩
  have hfold : (splitLines text).foldl step {} = st := by
    rw [hlines, Patch.lines, List.foldl_append, preamble_run patch.preamble patch.extended]
    exact hrun
  have hcounted : Counted st := hfold ▸ counted_run (splitLines text)
  unfold parseUnifiedDiff Patch.Clean
  dsimp only
  rw [hfold, ← straysIn_eq_zero]
  constructor
  · intro hparse
    split at hparse
    · cases hparse
    · have hrows : st.rows = patch.sections.flatMap FileSection.rows := congrArg UnifiedDiff.rows (Option.some.inj hparse)
      have hsame := congrArg List.length hrows
      rw [hlength, List.length_nil] at hsame
      omega
  · intro hclean
    obtain ⟨hrows, hcount, hpaths⟩ := hexact hclean
    have hrows : st.rows = patch.sections.flatMap FileSection.rows := hrows
    have hchanged : st.changes ≠ 0 := by
      rw [hcounted, hrows, ← Nat.pos_iff_ne_zero, List.countP_pos_iff]
      obtain ⟨row, hrow, hkind⟩ := patch.changed
      exact ⟨row, hrow, decide_eq_true hkind⟩
    have hsome : patch.sections ≠ [] := by
      intro hnone
      obtain ⟨row, hrow, -⟩ := patch.changed
      rw [hnone] at hrow
      cases hrow
    obtain ⟨last, hlast⟩ := Option.isSome_iff_exists.1 (List.getLast?_isSome.2 hsome)
    obtain ⟨hold, hnew⟩ := hpaths last hlast
    have hfiles : max st.fileCount 1 = patch.sections.length := by
      have hpos := List.length_pos_iff.2 hsome
      have hzero : ({} : PatchState).fileCount = 0 := rfl
      omega
    rw [if_neg hchanged, hfiles, hold, hnew, hrows, Patch.contents, hlast]
    rfl

/-- `x` with one line changed. -/
def changedHunk : Hunk := { oldStart := 1, newStart := 1, body := [.del [111], .add [110]] }

def plainName : FileName where
  path := [120]
  letter_ab := fun _ h => absurd h (Option.not_mem_none _)
  no_tab := by decide
  begins := ⟨120, rfl, by decide⟩
  ends := ⟨120, rfl, by decide⟩
  bare := fun _ => ⟨by decide, rfl⟩

/-- A patch with what a mail ends with: `-- `. -/
def signedPatch : Patch where
  preamble := []
  sections := [{
    old := some plainName
    new := some plainName
    parts := [.hunk changedHunk, .other ⟨[minus, minus, blank], by decide, by decide, by decide⟩] }]
  extended := fun _ h => absurd h List.not_mem_nil
  changed := ⟨⟨.del, some 1, none, [111]⟩, by decide, by decide⟩

def signedText : JsString := [Sse.lf].intercalate signedPatch.lines

theorem parse_contents_iff_signed : parseUnifiedDiff signedText = some signedPatch.contents ↔ signedPatch.Clean :=
  parse_contents_iff signedPatch signedText (by decide)

/-- **A line behind the hunk is read as one of its own**: the dashes before a signature are a deleted line. -/
theorem signature_deleted :
    ¬ ∀ (patch : Patch) (text : JsString), splitLines text = patch.lines → parseUnifiedDiff text = some patch.contents := by
  intro h
  have hparse := h signedPatch signedText (by decide)
  exact absurd hparse (by decide)

end Diff
end MyGpt
