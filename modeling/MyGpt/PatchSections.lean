import MyGpt.ApplyPatch
import Mathlib.Data.List.SplitBy
/-!
# PatchSections — an update patch and its @@ sections

What a patch owes a file: each section is applied behind the one before it, and the file keeps its own bytes but for the
marked lines (`applySections`).  The parser reads all sections into one hunk, and the applier writes the context lines of the
patch; so the patch is right when it has one section and its context is the file's, byte for byte (`patch_applies_iff`).
-/
namespace MyGpt
namespace Patch

open Chat (Text isSpace strip)
open Lines (splitlines)

/-! ## the patch -/

structure UpdatePatch where
  text : Text
  opening : Text
  header : Text
  body : List Text
  closing : Text
  lines : splitlines text = opening :: header :: (body ++ [closing])
  opens : startsWith (strip opening) "*** Begin Patch" = true
  updates : startsWith (strip header) "*** Update File:" = true
  closes : startsWith (strip closing) "*** End Patch" = true
  inside : ∀ raw ∈ body, startsWith (strip raw) "***" = true →
    startsWith (strip raw) "*** Move to:" = true ∨ startsWith (strip raw) "*** End of File" = true

namespace UpdatePatch

variable (p : UpdatePatch)

def path : Text := behind (strip p.header) "*** Update File:"

def contentLines (body : List Text) : List Text := body.filter (fun raw => !startsWith (strip raw) "***")

def renamed (moveTo : Option Text) (body : List Text) : Option Text :=
  body.foldl (fun moveTo raw =>
    if startsWith (strip raw) "*** Move to:" then some (behind (strip raw) "*** Move to:") else moveTo) moveTo

def target : Text := ((renamed none p.body).filter (· ≠ [])).getD p.path

/-- A section begins with each `@@` line. -/
def sections : List Hunk :=
  ((contentLines p.body).splitBy (fun _ next => !startsWith next "@@")).map (fun lines => lines.map hunkLine)

end UpdatePatch

/-! ## what it is to do -/

def Hunk.old (s : Hunk) : List Text := Hunk.texts s [.ctx, .minus]

def Hunk.merge : Hunk → List Text → List Text
  | [], _ => []
  | (.plus, t) :: s, lines => t :: Hunk.merge s lines
  | (.minus, _) :: s, lines => Hunk.merge s lines.tail
  | (.ctx, t) :: s, lines => lines.headD t :: Hunk.merge s lines.tail

def applySections (src : List Text) : List Hunk → Option (List Text)
  | [] => some src
  | s :: rest =>
    if Hunk.old s = [] then (applySections src rest).map (· ++ Hunk.texts s [.plus])
    else
      match findSubseq src (Hunk.old s) with
      | none => none
      | some start =>
        (applySections (src.drop (start + (Hunk.old s).length)) rest).map
          (fun tail => src.take start ++ Hunk.merge s (src.drop start) ++ tail)

/-- **What a patch owes a file.** -/
structure Applies (p : UpdatePatch) (files : Files) (src : List Text) : Prop where
  own : ∃ op, parsePatch p.text = [op] ∧ op.hunks = p.sections
  kept : ∀ deltas files', applyOps (parsePatch p.text) (files.set p.path (some src)) = .ok (deltas, files') →
    files' p.target = applySections src p.sections
  fails : (∃ e, applyOps (parsePatch p.text) (files.set p.path (some src)) = .error e) ↔ applySections src p.sections = none

def Hunk.Exact : Hunk → List Text → Prop
  | [], _ => True
  | (.plus, _) :: s, lines => Hunk.Exact s lines
  | (.minus, _) :: s, lines => Hunk.Exact s lines.tail
  | (.ctx, t) :: s, lines => lines.headD t = t ∧ Hunk.Exact s lines.tail

structure Verbatim (p : UpdatePatch) (src : List Text) : Prop where
  single : p.sections.length ≤ 1
  exact : ∀ s ∈ p.sections, ∀ start, findSubseq src (Hunk.old s) = some start → Hunk.Exact s (src.drop start)

/-! ## the parser -/

theorem startsWith_iff {t : Text} {tag : String} : startsWith t tag = true ↔ ∃ rest, t = tag.toList ++ rest := by
  unfold startsWith
  rw [List.isPrefixOf_iff_prefix]
  exact ⟨fun ⟨rest, h⟩ => ⟨rest, h.symm⟩, fun ⟨rest, h⟩ => ⟨rest, h.symm⟩⟩

theorem startsWith_false {t : Text} (h : startsWith t "***" = false) {tag : String} (htag : "***".toList <+: tag.toList) :
    startsWith t tag = false := by
  cases hstarts : startsWith t tag with
  | false => rfl
  | true =>
    obtain ⟨rest, rfl⟩ := startsWith_iff.1 hstarts
    obtain ⟨more, hmore⟩ := htag
    rw [startsWith_iff.2 ⟨more ++ rest, by rw [← hmore, List.append_assoc]⟩] at h
    cases h

section
variable {st : Parsing}

theorem parseLoop_end {raw : Text} (h : startsWith (strip raw) "*** End Patch" = true) (rest : List Text) :
    parseLoop st (raw :: rest) = st := by
  rw [parseLoop]
  simp only [h, if_true]

theorem parseLoop_update {raw : Text} (h : startsWith (strip raw) "*** Update File:" = true) (rest : List Text) :
    parseLoop st (raw :: rest) =
      parseLoop (st.boundary (some { action := .update, path := behind (strip raw) "*** Update File:" })) rest := by
  obtain ⟨tail, htail⟩ := startsWith_iff.1 h
  rw [parseLoop]
  rw [htail]
  rfl

theorem parseLoop_move {raw : Text} (h : startsWith (strip raw) "*** Move to:" = true) {op : FileOp} (hcurrent : st.current = some op)
    (rest : List Text) :
    parseLoop st (raw :: rest) =
      parseLoop { st with current := some { op with moveTo := some (behind (strip raw) "*** Move to:") } } rest := by
  obtain ⟨tail, htail⟩ := startsWith_iff.1 h
  rw [parseLoop]
  rw [htail, hcurrent]
  rfl

theorem parseLoop_endOfFile {raw : Text} (h : startsWith (strip raw) "*** End of File" = true) (rest : List Text) :
    parseLoop st (raw :: rest) = parseLoop st rest := by
  obtain ⟨tail, htail⟩ := startsWith_iff.1 h
  rw [parseLoop]
  rw [htail]
  rfl

theorem parseLoop_content {raw : Text} (h : startsWith (strip raw) "***" = false) {op : FileOp} (hcurrent : st.current = some op)
    (hop : op.action = .update) (rest : List Text) :
    parseLoop st (raw :: rest) = parseLoop { st with hunk := st.hunk ++ [hunkLine raw] } rest := by
  have hnone : ∀ {tag : String}, "***".toList <+: tag.toList → startsWith (strip raw) tag = false := startsWith_false h
  have hline : st.line raw = { st with hunk := st.hunk ++ [hunkLine raw] } := by
    unfold Parsing.line
    rw [hcurrent]
    simp only [hop, reduceCtorEq, if_false]
  rw [parseLoop]
  simp only [h, hnone (show "***".toList <+: "*** End Patch".toList by decide),
    hnone (show "***".toList <+: "*** Add File:".toList by decide),
    hnone (show "***".toList <+: "*** Delete File:".toList by decide),
    hnone (show "***".toList <+: "*** Update File:".toList by decide),
    hnone (show "***".toList <+: "*** Move to:".toList by decide),
    hnone (show "***".toList <+: "*** End of File".toList by decide), Bool.false_and, Bool.false_eq_true, if_false, hline]

end

theorem parseLoop_body {closing : Text} (hclosing : startsWith (strip closing) "*** End Patch" = true) {body : List Text}
    (hbody : ∀ raw ∈ body, startsWith (strip raw) "***" = true →
      startsWith (strip raw) "*** Move to:" = true ∨ startsWith (strip raw) "*** End of File" = true)
    {st : Parsing} {op : FileOp} (hcurrent : st.current = some op) (hop : op.action = .update) :
    parseLoop st (body ++ [closing]) =
      { st with
        current := some { op with moveTo := UpdatePatch.renamed op.moveTo body }
        hunk := st.hunk ++ (UpdatePatch.contentLines body).map hunkLine } := by
  induction body generalizing st op with
  | nil =>
    rw [List.nil_append, parseLoop_end hclosing]
    obtain ⟨done, current, hunk⟩ := st
    obtain rfl : current = some op := hcurrent
    simp [UpdatePatch.renamed, UpdatePatch.contentLines]
  | cons raw body ih =>
    have hrest : ∀ raw ∈ body, startsWith (strip raw) "***" = true →
        startsWith (strip raw) "*** Move to:" = true ∨ startsWith (strip raw) "*** End of File" = true :=
      fun raw' h => hbody raw' (List.mem_cons_of_mem _ h)
    rw [List.cons_append]
    cases hstars : startsWith (strip raw) "***" with
    | false =>
      have hmove : startsWith (strip raw) "*** Move to:" = false := startsWith_false hstars (by decide)
      rw [parseLoop_content hstars hcurrent hop]
      refine (ih hrest ?_ hop).trans ?_
      · exact hcurrent
      · simp [UpdatePatch.renamed, UpdatePatch.contentLines, hstars, hmove]
    | true =>
      rcases hbody raw List.mem_cons_self hstars with hmove | heof
      · rw [parseLoop_move hmove hcurrent]
        have hmoved := @ih hrest
          { st with current := some { op with moveTo := some (behind (strip raw) "*** Move to:") } } _ rfl hop
        rw [hmoved]
        simp [UpdatePatch.renamed, UpdatePatch.contentLines, hstars, hmove]
      · have hmove : startsWith (strip raw) "*** Move to:" = false := by
          obtain ⟨rest, hraw⟩ := startsWith_iff.1 heof
          rw [hraw]
          rfl
        rw [parseLoop_endOfFile heof, ih hrest hcurrent hop]
        simp [UpdatePatch.renamed, UpdatePatch.contentLines, hstars, hmove]

namespace UpdatePatch

variable (p : UpdatePatch)

def hunk : Hunk := (contentLines p.body).map hunkLine

def op : FileOp where
  action := .update
  path := p.path
  moveTo := renamed none p.body
  hunks := if p.hunk = [] then [] else [p.hunk]

theorem parsePatch_text : parsePatch p.text = [p.op] := by
  have hopening : (splitlines p.text).dropWhile (fun raw => !startsWith (strip raw) "*** Begin Patch") =
      p.opening :: p.header :: (p.body ++ [p.closing]) := by
    rw [p.lines, List.dropWhile_cons, p.opens]
    rfl
  have hloop : parseLoop {} (p.header :: (p.body ++ [p.closing])) =
      { current := some { action := .update, path := p.path, moveTo := renamed none p.body }, hunk := p.hunk } := by
    rw [parseLoop_update p.updates, parseLoop_body p.closes p.inside rfl rfl]
    rfl
  unfold parsePatch
  dsimp only
  rw [hopening, List.drop_one, List.tail_cons, hloop]
  unfold Parsing.boundary Parsing.flushHunk op
  split <;> rfl

theorem sections_flatten : p.sections.flatten = p.hunk := by
  unfold sections hunk
  rw [← List.map_flatten, List.flatten_splitBy]

theorem hunks_eq_sections : p.op.hunks = p.sections ↔ p.sections.length ≤ 1 := by
  constructor
  · intro h
    rw [← h]
    show (if p.hunk = [] then ([] : List Hunk) else [p.hunk]).length ≤ 1
    split <;> simp
  · intro h
    have hflatten := p.sections_flatten
    show (if p.hunk = [] then ([] : List Hunk) else [p.hunk]) = p.sections
    match hsections : p.sections with
    | [] =>
      rw [hsections, List.flatten_nil] at hflatten
      rw [if_pos hflatten.symm]
    | [s] =>
      rw [hsections, List.flatten_singleton] at hflatten
      have hne : s ≠ [] := by
        have hmem : s ∈ p.sections := by rw [hsections]; exact List.mem_singleton_self s
        obtain ⟨lines, hlines, rfl⟩ := List.mem_map.1 hmem
        intro hnil
        rw [List.map_eq_nil_iff.1 hnil] at hlines
        exact List.nil_notMem_splitBy _ _ hlines
      rw [if_neg (by rw [← hflatten]; exact hne), hflatten]
    | _ :: _ :: _ =>
      rw [hsections] at h
      simp at h

end UpdatePatch

/-! ## one hunk -/

theorem findSubseq_bound {src needle : List Text} {start : Nat} (h : findSubseq src needle = some start) :
    start + needle.length ≤ src.length := by
  unfold findSubseq at h
  split at h
  · cases h
  · have hmem := List.mem_of_find?_eq_some h
    have := List.mem_range.1 hmem
    omega

theorem texts_cons (l : Kind × Text) (s : Hunk) (kinds : List Kind) :
    Hunk.texts (l :: s) kinds = if kinds.contains l.1 then l.2 :: Hunk.texts s kinds else Hunk.texts s kinds := by
  unfold Hunk.texts
  rw [List.filter_cons]
  split <;> rfl

theorem old_cons (l : Kind × Text) (s : Hunk) :
    Hunk.old (l :: s) = if l.1 = .plus then Hunk.old s else l.2 :: Hunk.old s := by
  unfold Hunk.old
  rw [texts_cons]
  obtain ⟨kind, t⟩ := l
  cases kind <;> rfl

theorem texts_eq_merge_iff {s : Hunk} {lines : List Text} (h : (Hunk.old s).length ≤ lines.length) :
    Hunk.texts s [.ctx, .plus] = Hunk.merge s lines ↔ Hunk.Exact s lines := by
  induction s generalizing lines with
  | nil => exact ⟨fun _ => trivial, fun _ => rfl⟩
  | cons l s ih =>
    obtain ⟨kind, t⟩ := l
    rw [old_cons] at h
    rw [texts_cons]
    cases kind with
    | plus => exact ⟨fun heq => (ih h).1 (List.cons.inj heq).2, fun hexact => congrArg (t :: ·) ((ih h).2 hexact)⟩
    | minus =>
      refine ih ?_
      rw [List.length_tail]
      rw [if_neg nofun, List.length_cons] at h
      omega
    | ctx =>
      have hrest : (Hunk.old s).length ≤ lines.tail.length := by
        rw [List.length_tail]
        rw [if_neg nofun, List.length_cons] at h
        omega
      constructor
      · intro heq
        obtain ⟨hhead, htail⟩ := List.cons.inj heq
        exact ⟨hhead.symm, (ih hrest).1 htail⟩
      · rintro ⟨hhead, hexact⟩
        show t :: Hunk.texts s [.ctx, .plus] = lines.headD t :: Hunk.merge s lines.tail
        rw [hhead, (ih hrest).2 hexact]

theorem applySections_single (src : List Text) (s : Hunk) :
    applySections src [s] =
      if Hunk.old s = [] then some (src ++ Hunk.texts s [.plus])
      else (findSubseq src (Hunk.old s)).map (fun start =>
        src.take start ++ Hunk.merge s (src.drop start) ++ src.drop (start + (Hunk.old s).length)) := by
  rw [applySections]
  split
  · rfl
  · cases findSubseq src (Hunk.old s) <;> rfl

theorem applyHunk_eq (src : List Text) (s : Hunk) :
    applyHunk src s =
      if Hunk.old s = [] then .ok (src ++ Hunk.texts s [.plus])
      else
        match findSubseq src (Hunk.old s) with
        | none => .error (.contextNotFound ((Hunk.old s).take 3))
        | some start => .ok (src.take start ++ Hunk.texts s [.ctx, .plus] ++ src.drop (start + (Hunk.old s).length)) := rfl

/-- **A section is applied as it should be exactly when its context is the file's where it first matches.** -/
theorem applyHunk_iff (src : List Text) (s : Hunk) :
    (applyHunk src s).toOption = applySections src [s] ↔
      ∀ start, findSubseq src (Hunk.old s) = some start → Hunk.Exact s (src.drop start) := by
  rw [applyHunk_eq, applySections_single]
  by_cases hold : Hunk.old s = []
  · rw [if_pos hold, if_pos hold]
    refine iff_of_true rfl (fun start hstart => ?_)
    rw [hold] at hstart
    cases hstart
  · rw [if_neg hold, if_neg hold]
    cases hfind : findSubseq src (Hunk.old s) with
    | none => exact iff_of_true rfl nofun
    | some start =>
      have hbound := findSubseq_bound hfind
      have hlength : (Hunk.old s).length ≤ (src.drop start).length := by
        rw [List.length_drop]
        omega
      show some _ = some _ ↔ _
      rw [Option.some.injEq, List.append_cancel_right_eq, List.append_cancel_left_eq, texts_eq_merge_iff hlength]
      exact ⟨fun h start' hstart' => Option.some.inj hstart' ▸ h, fun h => h start rfl⟩

/-! ## a patch -/

theorem applyOps_update (op : FileOp) (hop : op.action = .update) (files : Files) (src : List Text) :
    (∀ e, op.hunks.foldlM applyHunk src = .error e → applyOps [op] (files.set op.path (some src)) = .error e) ∧
    (∀ lines, op.hunks.foldlM applyHunk src = .ok lines → ∃ deltas files',
      applyOps [op] (files.set op.path (some src)) = .ok (deltas, files') ∧ files' op.target = some lines) := by
  have hfile : files.set op.path (some src) op.path = some src := if_pos rfl
  constructor
  · intro e he
    unfold applyOps applyOp
    simp only [hop, hfile, he]
  · intro lines hlines
    unfold applyOps applyOp
    simp only [hop, hfile, hlines]
    refine ⟨_, _, rfl, ?_⟩
    split
    · exact if_pos rfl
    · rename_i hmoved
      show (if op.target = op.path then none else if op.target = op.target then some lines else _) = some lines
      rw [if_neg hmoved, if_pos rfl]

theorem applies_iff_hunks (p : UpdatePatch) (files : Files) (src : List Text) : Applies p files src ↔
    p.op.hunks = p.sections ∧ (p.op.hunks.foldlM applyHunk src).toOption = applySections src p.sections := by
  have hok : ∀ lines, p.op.hunks.foldlM applyHunk src = .ok lines → ∃ deltas files',
      applyOps (parsePatch p.text) (files.set p.path (some src)) = .ok (deltas, files') ∧ files' p.target = some lines := by
    rw [p.parsePatch_text]
    exact (applyOps_update p.op rfl files src).2
  have herror : ∀ e, p.op.hunks.foldlM applyHunk src = .error e →
      applyOps (parsePatch p.text) (files.set p.path (some src)) = .error e := by
    rw [p.parsePatch_text]
    exact (applyOps_update p.op rfl files src).1
  have hown : (∃ op, parsePatch p.text = [op] ∧ op.hunks = p.sections) ↔ p.op.hunks = p.sections := by
    rw [p.parsePatch_text]
    constructor
    · rintro ⟨op, hop, hhunks⟩
      rw [List.singleton_inj.1 hop, hhunks]
    · exact fun h => ⟨p.op, rfl, h⟩
  cases hresult : p.op.hunks.foldlM applyHunk src with
  | error e =>
    have happly := herror e hresult
    constructor
    · exact fun h => ⟨hown.1 h.own, (h.fails.1 ⟨e, happly⟩).symm⟩
    · rintro ⟨hhunks, hnone⟩
      refine ⟨hown.2 hhunks, fun deltas files' hdone => ?_, iff_of_true ⟨e, happly⟩ hnone.symm⟩
      rw [happly] at hdone
      cases hdone
  | ok lines =>
    obtain ⟨deltas, files', happly, htarget⟩ := hok lines hresult
    constructor
    · exact fun h => ⟨hown.1 h.own, htarget.symm.trans (h.kept deltas files' happly)⟩
    · rintro ⟨hhunks, hsome⟩
      refine ⟨hown.2 hhunks, fun deltas' files'' hdone => ?_, iff_of_false ?_ ?_⟩
      · rw [happly] at hdone
        cases hdone
        exact htarget.trans hsome
      · rintro ⟨e, herr⟩
        rw [happly] at herr
        cases herr
      · rw [← hsome]
        exact nofun

theorem foldlM_singleton (src : List Text) (s : Hunk) : [s].foldlM applyHunk src = applyHunk src s := by
  show (applyHunk src s).bind (fun lines => .ok lines) = applyHunk src s
  cases applyHunk src s <;> rfl

/-- **When a patch does what it owes.** -/
theorem patch_applies_iff (p : UpdatePatch) (files : Files) (src : List Text) : Applies p files src ↔ Verbatim p src := by
  rw [applies_iff_hunks]
  have hsections : p.sections.length ≤ 1 → ((p.sections.foldlM applyHunk src).toOption = applySections src p.sections ↔
      ∀ s ∈ p.sections, ∀ start, findSubseq src (Hunk.old s) = some start → Hunk.Exact s (src.drop start)) := by
    intro hsingle
    match p.sections, hsingle with
    | [], _ => exact iff_of_true rfl nofun
    | [s], _ => rw [foldlM_singleton, applyHunk_iff, List.forall_mem_singleton]
  constructor
  · rintro ⟨hhunks, happly⟩
    have hsingle := p.hunks_eq_sections.1 hhunks
    rw [hhunks] at happly
    exact ⟨hsingle, (hsections hsingle).1 happly⟩
  · rintro ⟨hsingle, hexact⟩
    have hhunks := p.hunks_eq_sections.2 hsingle
    rw [hhunks]
    exact ⟨rfl, (hsections hsingle).2 hexact⟩

/-! ## two sections -/

def twoFunctions : List Text :=
  ["def f():".toList, "    return 1".toList, [], "def g():".toList, "    return 2".toList]

def twoSections : List Text :=
  ["@@ def f():".toList, "-    return 1".toList, "+    return 10".toList,
   "@@ def g():".toList, "-    return 2".toList, "+    return 20".toList]

def twoSectionsText : Text :=
  Lines.unlines (["*** Begin Patch".toList, "*** Update File: a.py".toList] ++ twoSections ++ ["*** End Patch".toList])

def twoSectionsPatch : UpdatePatch where
  text := twoSectionsText
  opening := "*** Begin Patch".toList
  header := "*** Update File: a.py".toList
  body := twoSections
  closing := "*** End Patch".toList
  lines := by decide +kernel
  opens := by decide +kernel
  updates := by decide +kernel
  closes := by decide +kernel
  inside := by decide +kernel

/-- **Two sections that do not stand side by side do not apply**, though the old lines of both are there. -/
theorem second_section_fails : ¬ ∀ (p : UpdatePatch) (files : Files) (src : List Text), Applies p files src := by
  intro h
  have hfails := (h twoSectionsPatch (fun _ => none) twoFunctions).fails.1
  have herror : applyOps (parsePatch twoSectionsPatch.text)
      (Files.set (fun _ => none) twoSectionsPatch.path (some twoFunctions)) =
      .error (.contextNotFound ["def f():".toList, "    return 1".toList, "def g():".toList]) := by
    rfl
  have hnone := hfails ⟨_, herror⟩
  revert hnone
  decide +kernel

/-- **The context is written as the patch has it**: the anchor of a method takes its indentation away. -/
theorem context_loses_indentation :
    applyHunk ["    def f():".toList, "        return 1".toList]
      [hunkLine "@@     def f():".toList, hunkLine "-        return 1".toList, hunkLine "+        return 2".toList] =
      .ok ["def f():".toList, "        return 2".toList] := by
  rfl

end Patch
end MyGpt
