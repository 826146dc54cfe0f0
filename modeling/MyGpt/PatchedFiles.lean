import MyGpt.ApplyPatch
/-!
# PatchedFiles — what a patch leaves on disk

On disk each file is what the last operation persisted at its place makes of it (`persist_spec`).  In memory a rename also takes
the old name away, which no operation persists.
-/
namespace MyGpt
namespace Patch

open Chat (Text isSpace strip)
open Lines (splitlines unlines Free isLineBoundary consHead splitlines_cons splitlines_boundary splitlines_eq_nil)

/-! ## lines and their text -/

theorem splitlines_line {l : Text} (h : Free l) (t : Text) : splitlines (l ++ '\n' :: t) = l :: splitlines t := by
  induction l with
  | nil => exact splitlines_boundary (by decide) (by simp)
  | cons c l ih =>
    have hc := h c List.mem_cons_self
    rw [List.cons_append, splitlines_cons _ hc, ih (fun d hd => h d (List.mem_cons_of_mem _ hd))]
    rfl

theorem render_cons (l : Text) {lines : List Text} (h : lines ≠ []) : render (l :: lines) = l ++ '\n' :: render lines := by
  have hcontent : unlines (l :: lines) = l ++ '\n' :: unlines lines := by
    simp [unlines, List.intercalate_cons_of_ne_nil h]
  have hlast : (l ++ '\n' :: unlines lines).getLast? = some '\n' ↔ unlines lines = [] ∨ (unlines lines).getLast? = some '\n' := by
    rw [List.getLast?_append_of_ne_nil _ (List.cons_ne_nil _ _)]
    cases unlines lines with
    | nil => simp
    | cons c t => simp
  unfold render
  rw [hcontent]
  by_cases hend : unlines lines = [] ∨ (unlines lines).getLast? = some '\n'
  · rw [if_neg (fun hno => hno.2 (hlast.2 hend)), if_neg ?_]
    rintro ⟨hne, hno⟩
    exact hend.elim hne hno
  · rw [if_pos ⟨by simp, fun hyes => hend (hlast.1 hyes)⟩, if_pos ⟨fun hnil => hend (.inl hnil), fun hyes => hend (.inr hyes)⟩]
    simp

theorem render_singleton {l : Text} (h : Free l) : render [l] = if l = [] then [] else l ++ ['\n'] := by
  unfold render
  simp only [unlines, List.intercalate_singleton]
  have hlast : l.getLast? ≠ some '\n' := by
    intro hlast
    have hfree := h '\n' (List.mem_of_getLast? hlast)
    revert hfree
    decide
  by_cases hl : l = []
  · simp [hl]
  · simp [hl, hlast]

theorem splitlines_render {lines : List Text} (h : ∀ l ∈ lines, Free l) :
    splitlines (render lines) = lines ↔ lines.getLast? ≠ some [] := by
  induction lines with
  | nil => simp [render, unlines, splitlines]
  | cons l lines ih =>
    have hl := h l List.mem_cons_self
    have hrest : ∀ l' ∈ lines, Free l' := fun l' hl' => h l' (List.mem_cons_of_mem _ hl')
    by_cases hlines : lines = []
    · subst hlines
      rw [render_singleton hl]
      by_cases hempty : l = []
      · subst hempty
        simp [splitlines]
      · rw [if_neg hempty, splitlines_line hl]
        simp [splitlines, hempty]
    · rw [render_cons l hlines, splitlines_line hl, List.cons.injEq, ih hrest]
      obtain ⟨a, as, rfl⟩ := List.exists_cons_of_ne_nil hlines
      simp [List.getLast?_cons_cons]

/-! ## lines without boundaries -/

theorem free_splitlines (t : Text) : ∀ l ∈ splitlines t, Free l := by
  induction t with
  | nil => simp [splitlines]
  | cons c t ih =>
    by_cases hc : isLineBoundary c = true
    · by_cases hcrlf : c = '\r' ∧ t.head? = some '\n'
      · obtain ⟨rfl, hhead⟩ := hcrlf
        cases t with
        | nil => cases hhead
        | cons d t =>
          cases hhead
          rw [splitlines_boundary (by decide) (by simp)] at ih
          rw [Lines.splitlines_crlf]
          exact ih
      · rw [splitlines_boundary hc hcrlf]
        intro l hl
        rcases List.mem_cons.1 hl with rfl | hl
        · exact fun d hd => absurd hd List.not_mem_nil
        · exact ih l hl
    · have hc' : isLineBoundary c = false := Bool.eq_false_iff.2 hc
      rw [splitlines_cons t hc']
      intro l hl
      have hhead : ∀ l : Text, Free l → Free (c :: l) := by
        intro l hfree d hd
        rcases List.mem_cons.1 hd with rfl | hd
        · exact hc'
        · exact hfree d hd
      cases hsplit : splitlines t with
      | nil =>
        rw [hsplit] at hl
        obtain rfl := List.mem_singleton.1 hl
        exact hhead [] (fun d hd => absurd hd List.not_mem_nil)
      | cons first rest =>
        rw [hsplit] at hl ih
        rcases List.mem_cons.1 hl with rfl | hl
        · exact hhead first (ih first List.mem_cons_self)
        · exact ih l (List.mem_cons_of_mem _ hl)

theorem free_of_subset {l l' : Text} (h : Free l) (hsub : ∀ c ∈ l', c ∈ l) : Free l' := fun c hc => h c (hsub c hc)

structure FreeOp (op : FileOp) : Prop where
  content : ∀ l ∈ op.content, Free l
  hunks : ∀ hunk ∈ op.hunks, ∀ l ∈ hunk, Free l.2

structure FreeParsing (st : Parsing) : Prop where
  done : ∀ op ∈ st.done, FreeOp op
  current : ∀ op, st.current = some op → FreeOp op
  hunk : ∀ l ∈ st.hunk, Free l.2

theorem free_hunkLine {raw : Text} (h : Free raw) : Free (hunkLine raw).2 := by
  unfold hunkLine
  split
  · exact free_of_subset h (fun c hc => List.mem_of_mem_drop hc)
  · split
    · exact free_of_subset h (fun c hc => List.mem_of_mem_drop hc)
    · split
      · exact free_of_subset h (fun c hc => List.mem_of_mem_drop ((List.dropWhile_sublist _).subset hc))
      · exact h

theorem free_flushHunk {st : Parsing} (h : FreeParsing st) : FreeParsing st.flushHunk := by
  unfold Parsing.flushHunk
  split
  · exact h
  · refine ⟨h.done, ?_, by simp⟩
    intro op hop
    obtain ⟨old, hold, rfl⟩ := Option.map_eq_some_iff.1 hop
    have hfree := h.current old hold
    refine ⟨hfree.content, fun hunk hhunk => ?_⟩
    rcases List.mem_append.1 hhunk with hin | hnew
    · exact hfree.hunks hunk hin
    · rw [List.mem_singleton.1 hnew]
      exact h.hunk

theorem free_boundary {st : Parsing} (h : FreeParsing st) {next : Option FileOp} (hnext : ∀ op, next = some op → FreeOp op) :
    FreeParsing (st.boundary next) := by
  have hflushed := free_flushHunk h
  refine ⟨fun op hop => ?_, hnext, by simp [Parsing.boundary]⟩
  rcases List.mem_append.1 hop with hdone | hcurrent
  · exact hflushed.done op hdone
  · exact hflushed.current op (Option.mem_toList.1 hcurrent)

theorem free_line {st : Parsing} (h : FreeParsing st) {raw : Text} (hraw : Free raw) : FreeParsing (st.line raw) := by
  unfold Parsing.line
  split
  · exact h
  · rename_i op hop
    have hfree := h.current op hop
    split
    · refine ⟨h.done, ?_, h.hunk⟩
      intro op' hop'
      cases hop'
      refine ⟨fun l hl => ?_, hfree.hunks⟩
      rcases List.mem_append.1 hl with hin | hnew
      · exact hfree.content l hin
      · rw [List.mem_singleton.1 hnew]
        split
        · exact free_of_subset hraw (fun c hc => List.mem_of_mem_drop hc)
        · exact hraw
    · refine ⟨h.done, h.current, fun l hl => ?_⟩
      rcases List.mem_append.1 hl with hin | hnew
      · exact h.hunk l hin
      · rw [List.mem_singleton.1 hnew]
        exact free_hunkLine hraw

theorem free_parseLoop : ∀ (lines : List Text) {st : Parsing}, FreeParsing st → (∀ l ∈ lines, Free l) →
    FreeParsing (parseLoop st lines)
  | [], _, h, _ => h
  | raw :: rest, st, h, hlines => by
    have hraw := hlines raw List.mem_cons_self
    have hrest : ∀ l ∈ rest, Free l := fun l hl => hlines l (List.mem_cons_of_mem _ hl)
    have hfresh : ∀ action path, ∀ op, some ({ action := action, path := path } : FileOp) = some op → FreeOp op := by
      intro action path op hop
      cases hop
      exact ⟨by simp, by simp⟩
    unfold parseLoop
    dsimp only
    split
    · exact h
    · split
      · exact free_parseLoop rest (free_boundary h (hfresh _ _)) hrest
      · split
        · exact free_parseLoop rest (free_boundary h (hfresh _ _)) hrest
        · split
          · exact free_parseLoop rest (free_boundary h (hfresh _ _)) hrest
          · split
            · refine free_parseLoop rest ⟨h.done, ?_, h.hunk⟩ hrest
              intro op hop
              obtain ⟨old, hold, rfl⟩ := Option.map_eq_some_iff.1 hop
              exact ⟨(h.current old hold).content, (h.current old hold).hunks⟩
            · split
              · exact free_parseLoop rest h hrest
              · split
                · exact free_parseLoop rest (free_boundary h (by simp)) hrest
                · exact free_parseLoop rest (free_line h hraw) hrest

theorem free_parsePatch (patch : Text) : ∀ op ∈ parsePatch patch, FreeOp op := by
  have hlines : ∀ l ∈ ((splitlines patch).dropWhile (fun raw => !startsWith (strip raw) "*** Begin Patch")).drop 1, Free l :=
    fun l hl => free_splitlines patch l ((List.dropWhile_sublist _).subset (List.mem_of_mem_drop hl))
  have hparsed := free_parseLoop _ (show FreeParsing {} from ⟨by simp, by simp, by simp⟩) hlines
  exact (free_boundary hparsed (by simp)).done

def FreeFiles (files : Files) : Prop := ∀ path lines, files path = some lines → ∀ l ∈ lines, Free l

theorem free_set {files : Files} (h : FreeFiles files) (path : Text) {lines : Option (List Text)}
    (hlines : ∀ ls, lines = some ls → ∀ l ∈ ls, Free l) : FreeFiles (files.set path lines) := by
  intro p ls hls
  unfold Files.set at hls
  split at hls
  · exact hlines ls hls
  · exact h p ls hls

theorem free_applyHunk {lines lines' : List Text} {hunk : Hunk} (h : applyHunk lines hunk = .ok lines')
    (hlines : ∀ l ∈ lines, Free l) (hhunk : ∀ l ∈ hunk, Free l.2) : ∀ l ∈ lines', Free l := by
  have htexts : ∀ kinds, ∀ l ∈ Hunk.texts hunk kinds, Free l := by
    intro kinds l hl
    obtain ⟨x, hx, rfl⟩ := List.mem_map.1 hl
    exact hhunk x (List.mem_of_mem_filter hx)
  unfold applyHunk at h
  dsimp only at h
  split at h
  · cases h
    intro l hl
    rcases List.mem_append.1 hl with hin | hnew
    · exact hlines l hin
    · exact htexts _ l hnew
  · split at h
    · cases h
    · cases h
      intro l hl
      rcases List.mem_append.1 hl with hfront | hback
      · rcases List.mem_append.1 hfront with hin | hnew
        · exact hlines l (List.mem_of_mem_take hin)
        · exact htexts _ l hnew
      · exact hlines l (List.mem_of_mem_drop hback)

theorem free_hunks : ∀ (hunks : List Hunk) {lines lines' : List Text}, hunks.foldlM applyHunk lines = .ok lines' →
    (∀ l ∈ lines, Free l) → (∀ hunk ∈ hunks, ∀ l ∈ hunk, Free l.2) → ∀ l ∈ lines', Free l
  | [], _, _, h, hlines, _ => by
    cases h
    exact hlines
  | hunk :: hunks, lines, _, h, hlines, hhunks => by
    rw [List.foldlM_cons] at h
    cases happly : applyHunk lines hunk with
    | error e =>
      rw [happly] at h
      cases h
    | ok mid =>
      rw [happly] at h
      exact free_hunks hunks h (free_applyHunk happly hlines (hhunks hunk List.mem_cons_self))
        (fun hunk' hhunk' => hhunks hunk' (List.mem_cons_of_mem _ hhunk'))

theorem free_applyOp {op : FileOp} {files files' : Files} {delta : ApplyDelta} (h : applyOp op files = .ok (delta, files'))
    (hop : FreeOp op) (hfiles : FreeFiles files) : FreeFiles files' := by
  unfold applyOp at h
  split at h
  · cases h
    refine free_set hfiles op.path (fun ls hls => ?_)
    cases hls
    exact hop.content
  · split at h
    · cases h
    · cases h
      exact free_set hfiles op.path (fun ls hls => by cases hls)
  · split at h
    · cases h
    · rename_i src hsrc
      split at h
      · cases h
      · rename_i lines hlines
        have hfree := free_hunks op.hunks hlines (hfiles _ _ hsrc) hop.hunks
        have hwritten : FreeFiles (files.set op.target (some lines)) := by
          refine free_set hfiles op.target (fun ls hls => ?_)
          cases hls
          exact hfree
        cases h
        split
        · exact hwritten
        · exact free_set hwritten op.path (fun ls hls => by cases hls)

theorem free_applyOps : ∀ (ops : List FileOp) {files files' : Files} {deltas : List ApplyDelta},
    applyOps ops files = .ok (deltas, files') → (∀ op ∈ ops, FreeOp op) → FreeFiles files → FreeFiles files'
  | [], _, _, _, h, _, hfiles => by
    cases h
    exact hfiles
  | op :: ops, files, _, _, h, hops, hfiles => by
    unfold applyOps at h
    split at h
    · cases h
    · rename_i delta mid hop
      split at h
      · cases h
      · rename_i deltas files' hrest
        cases h
        exact free_applyOps ops hrest (fun op' hop' => hops op' (List.mem_cons_of_mem _ hop'))
          (free_applyOp hop (hops op List.mem_cons_self) hfiles)

/-! ## what is asked for -/

section disk

variable {Loc : Type} [DecidableEq Loc] (resolve : Text → Option Loc) (refuses : Nat → Bool)

def Agrees (lines : Option (List Text)) (file : Option Stored) : Prop :=
  match lines, file with
  | none, none => True
  | some lines, some (.text text) => splitlines text = lines
  | _, _ => False

/-- **The contract of the patch tool**: when it succeeds, every named file has the content it has in memory and the others are as
they were; when the patch does not apply, nothing has changed. -/
def Contract (disk : Loc → Option Stored) (patch : Text) : Prop :=
  match run resolve refuses disk patch, prepare resolve disk patch with
  | (.ok _, disk'), .ok (ops, _, files) =>
    (∀ path ∈ named ops, ∀ loc, resolve path = some loc → Agrees (files path) (disk' loc)) ∧
      ∀ loc, (∀ path ∈ named ops, resolve path ≠ some loc) → disk' loc = disk loc
  | (.error (.doesNotApply _), disk'), _ => disk' = disk
  | _, _ => True

def lastEffect (files : Files) (ops : List FileOp) (loc : Loc) : Option (Option (List Text)) :=
  ((ops.filterMap (effect resolve files)).reverse.find? (fun e => e.1 = loc)).map (·.2)

/-- **The condition**: at the place of every named path the last operation that is persisted there deletes the file, if it is gone
in memory, or writes the lines it has in memory, and these do not end in an empty line; or none is persisted there and the file
has been so before. -/
def Replayed (disk : Loc → Option Stored) (files : Files) (ops : List FileOp) : Prop :=
  ∀ path ∈ named ops, ∀ loc, resolve path = some loc →
    match lastEffect resolve files ops loc with
    | none => Agrees (files path) (disk loc)
    | some none => files path = none
    | some (some lines) => files path = some lines ∧ lines.getLast? ≠ some []

/-! ## the third step -/

omit [DecidableEq Loc] in
theorem effect_named {files : Files} {op : FileOp} {loc : Loc} {lines : Option (List Text)}
    (h : effect resolve files op = some (loc, lines)) : ∃ path ∈ op.path :: op.renamed.toList, resolve path = some loc ∧
      ∀ ls, lines = some ls → files path = some ls := by
  have htarget : op.target ∈ op.path :: op.renamed.toList := by
    unfold FileOp.target
    cases op.renamed with
    | none => simp
    | some new => simp
  unfold effect at h
  split at h
  · obtain ⟨loc', hloc, heq⟩ := Option.map_eq_some_iff.1 h
    cases heq
    exact ⟨op.path, List.mem_cons_self, hloc, fun ls hls => by cases hls⟩
  · obtain ⟨ls, hls, hmap⟩ := Option.bind_eq_some_iff.1 h
    obtain ⟨loc', hloc, heq⟩ := Option.map_eq_some_iff.1 hmap
    cases heq
    refine ⟨op.target, htarget, hloc, fun ls' hls' => ?_⟩
    cases hls'
    exact hls

def written (effect : Option (Option (List Text))) (before : Option Stored) : Option Stored :=
  match effect with
  | none => before
  | some lines => lines.map (fun ls => .text (render ls))

/-- **The run of the third step**: what it leaves at a place is the last operation persisted there. -/
theorem persist_spec (files : Files) : ∀ (ops : List FileOp) (i : Nat) (disk disk' : Loc → Option Stored),
    persist resolve refuses files i ops disk = (true, disk') →
      ∀ loc, disk' loc = written (lastEffect resolve files ops loc) (disk loc)
  | [], i, disk, disk', h => by
    cases h
    exact fun loc => rfl
  | op :: ops, i, disk, disk', h => by
    intro loc
    unfold persist at h
    unfold lastEffect
    cases heffect : effect resolve files op with
    | none =>
      rw [heffect] at h
      rw [List.filterMap_cons_none heffect]
      exact persist_spec files ops (i + 1) disk disk' h loc
    | some e =>
      obtain ⟨place, lines⟩ := e
      rw [heffect] at h
      dsimp only at h
      split at h
      · cases h
      · have hrest := persist_spec files ops (i + 1) _ disk' h loc
        rw [hrest, List.filterMap_cons_some heffect, List.reverse_cons, List.find?_append]
        unfold lastEffect
        cases hfind : (ops.filterMap (effect resolve files)).reverse.find? (fun e => e.1 = loc) with
        | some e => rfl
        | none =>
          by_cases hplace : loc = place
          · subst hplace
            simp [written]
          · have hne : ¬ place = loc := fun heq => hplace heq.symm
            simp [written, hplace, hne]

theorem persist_ok (files : Files) : ∀ (ops : List FileOp) (i : Nat) (disk : Loc → Option Stored),
    (persist resolve refuses files i ops disk).1 = true ↔
      ∀ j op, ops[j]? = some op → (effect resolve files op).isSome → refuses (i + j) = false
  | [], i, disk => by simp [persist]
  | op :: ops, i, disk => by
    unfold persist
    have hshift : (∀ j op', (op :: ops)[j]? = some op' → (effect resolve files op').isSome → refuses (i + j) = false) ↔
        ((effect resolve files op).isSome → refuses i = false) ∧
          ∀ j op', ops[j]? = some op' → (effect resolve files op').isSome → refuses (i + 1 + j) = false := by
      constructor
      · intro h
        refine ⟨h 0 op rfl, fun j op' hop' => ?_⟩
        have hlater := h (j + 1) op' (by simpa using hop')
        rwa [Nat.add_right_comm]
      · rintro ⟨hfirst, hlater⟩ j op' hop'
        cases j with
        | zero =>
          obtain rfl : op = op' := by simpa using hop'
          exact hfirst
        | succ j =>
          have hnext := hlater j op' (by simpa using hop')
          rwa [Nat.add_right_comm] at hnext
    rw [hshift]
    cases heffect : effect resolve files op with
    | none => simp [persist_ok files ops (i + 1) disk]
    | some e =>
      by_cases hrefuses : refuses i = true
      · simp [hrefuses]
      · simp [hrefuses, persist_ok files ops (i + 1)]

/-! ## the tool -/

variable (disk : Loc → Option Stored) (patch : Text)

omit [DecidableEq Loc] in
theorem free_prepare {ops : List FileOp} {deltas : List ApplyDelta} {files : Files}
    (h : prepare resolve disk patch = .ok (ops, deltas, files)) : FreeFiles files := by
  unfold prepare at h
  split at h
  · cases h
  · dsimp only at h
    split at h
    · cases h
    · split at h
      · cases h
      · split at h
        · cases h
        · split at h
          · cases h
          · rename_i deltas' files' happly
            cases h
            refine free_applyOps _ happly (free_parsePatch patch) ?_
            intro path lines hlines
            unfold snapshot at hlines
            split at hlines
            · split at hlines
              · cases hlines
                exact free_splitlines _
              · cases hlines
            · cases hlines

variable {disk}

theorem lastEffect_named {files : Files} {ops : List FileOp} {loc : Loc} {lines : Option (List Text)}
    (h : lastEffect resolve files ops loc = some lines) : ∃ target ∈ named ops, resolve target = some loc ∧
      ∀ ls, lines = some ls → files target = some ls := by
  obtain ⟨⟨place, lines'⟩, hfind, rfl⟩ := Option.map_eq_some_iff.1 h
  obtain rfl : place = loc := by simpa using List.find?_some hfind
  have hmem := List.mem_reverse.1 (List.mem_of_find?_eq_some hfind)
  obtain ⟨op, hop, heffect⟩ := List.mem_filterMap.1 hmem
  obtain ⟨target, htarget, hresolve, hlines⟩ := effect_named resolve heffect
  exact ⟨target, List.mem_flatMap.2 ⟨op, hop, htarget⟩, hresolve, hlines⟩

/-- **What the third step leaves agrees with memory exactly when the patch is replayed.** -/
theorem agrees_iff_replayed {files : Files} {ops : List FileOp} {disk' : Loc → Option Stored} (hfree : FreeFiles files)
    (hdisk : ∀ loc, disk' loc = written (lastEffect resolve files ops loc) (disk loc)) :
    (∀ path ∈ named ops, ∀ loc, resolve path = some loc → Agrees (files path) (disk' loc)) ↔
      Replayed resolve disk files ops := by
  constructor
  · intro hagree path hpath loc hloc
    have hthis := hagree path hpath loc hloc
    rw [hdisk loc] at hthis
    cases hlast : lastEffect resolve files ops loc with
    | none =>
      rw [hlast] at hthis
      exact hthis
    | some lines =>
      rw [hlast] at hthis
      cases lines with
      | none =>
        cases hpathlines : files path with
        | none => rfl
        | some ls =>
          rw [hpathlines] at hthis
          exact hthis.elim
      | some ls =>
        -- the target of that operation is a named path itself
        obtain ⟨target, htarget, hresolve, hlines⟩ := lastEffect_named resolve hlast
        have hself := hagree target htarget loc hresolve
        rw [hdisk loc, hlast, hlines ls rfl] at hself
        have hread : splitlines (render ls) = ls := hself
        refine ⟨?_, (splitlines_render (hfree target ls (hlines ls rfl))).1 hread⟩
        cases hpathlines : files path with
        | none =>
          rw [hpathlines] at hthis
          exact hthis.elim
        | some ls' =>
          rw [hpathlines] at hthis
          have hthis' : splitlines (render ls) = ls' := hthis
          rw [← hthis', hread]
  · intro hreplayed path hpath loc hloc
    have hthis := hreplayed path hpath loc hloc
    rw [hdisk loc]
    cases hlast : lastEffect resolve files ops loc with
    | none =>
      rw [hlast] at hthis
      exact hthis
    | some lines =>
      rw [hlast] at hthis
      cases lines with
      | none =>
        have hnone : files path = none := hthis
        rw [hnone]
        trivial
      | some ls =>
        obtain ⟨hlines, hend⟩ := hthis
        rw [hlines]
        exact (splitlines_render (hfree path ls hlines)).2 hend

theorem others_kept {files : Files} {ops : List FileOp} {disk' : Loc → Option Stored}
    (hdisk : ∀ loc, disk' loc = written (lastEffect resolve files ops loc) (disk loc)) {loc : Loc}
    (hother : ∀ path ∈ named ops, resolve path ≠ some loc) : disk' loc = disk loc := by
  rw [hdisk loc]
  cases hlast : lastEffect resolve files ops loc with
  | none => rfl
  | some lines =>
    obtain ⟨target, htarget, hresolve, -⟩ := lastEffect_named resolve hlast
    exact absurd hresolve (hother target htarget)

variable (disk)

/-- **The tool replays the patch on disk exactly under the condition.** -/
theorem patch_contract_iff :
    Contract resolve refuses disk patch ↔
      ∀ ops deltas files, prepare resolve disk patch = .ok (ops, deltas, files) →
        (∀ i op, ops[i]? = some op → (effect resolve files op).isSome → refuses i = false) →
          Replayed resolve disk files ops := by
  unfold Contract run
  cases hprepare : prepare resolve disk patch with
  | error e =>
    cases e <;> simp
  | ok prepared =>
    obtain ⟨ops, deltas, files⟩ := prepared
    dsimp only
    have hok := persist_ok resolve refuses files ops 0 disk
    simp only [Nat.zero_add] at hok
    cases hpersist : persist resolve refuses files 0 ops disk with
    | mk persisted disk' =>
      rw [hpersist] at hok
      cases persisted with
      | false =>
        refine ⟨fun _ ops' deltas' files' heq hnone => ?_, fun _ => trivial⟩
        cases heq
        cases hok.2 hnone
      | true =>
        have hdisk := persist_spec resolve refuses files ops 0 disk disk' hpersist
        have hagree := agrees_iff_replayed resolve (free_prepare resolve disk patch hprepare) hdisk
        constructor
        · rintro ⟨hagrees, -⟩ ops' deltas' files' heq -
          cases heq
          exact hagree.1 hagrees
        · intro hreplayed
          exact ⟨hagree.2 (hreplayed ops deltas files rfl (hok.1 rfl)), fun loc => others_kept resolve hdisk⟩

end disk

/-! ## a renamed file -/

section move

def oldName : Text := "old.py".toList

def movePatch : Text := "*** Begin Patch\n*** Update File: old.py\n*** Move to: new.py\n*** End Patch".toList

def moveDisk : Text → Option Stored := fun loc => if loc = oldName then some (.text "x\n".toList) else none

/-- **A renamed file stays under its old name.** -/
theorem move_keeps_source : ¬ Contract some (fun _ => false) moveDisk movePatch := by
  intro hcontract
  have hprepare : prepare some moveDisk movePatch = .ok
      ([{ action := .update, path := oldName, moveTo := some "new.py".toList }], [⟨"new.py".toList, .update⟩],
        ((snapshot some moveDisk [{ action := .update, path := oldName, moveTo := some "new.py".toList }]).set
          "new.py".toList (some ["x".toList])).set oldName none) := by
    rfl
  unfold Contract run at hcontract
  rw [hprepare] at hcontract
  have hstays := hcontract.1 oldName (by decide) oldName rfl
  exact hstays

end move

end Patch
end MyGpt
