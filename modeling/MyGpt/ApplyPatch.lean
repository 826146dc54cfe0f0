import MyGpt.Characters
import MyGpt.Lib.Lines
/-!
# ApplyPatch — structured file edits, in memory and in the workspace

`parse_patch` and `apply_ops`, and `WorkspaceApplyPatchTool.run` over them.  The workspace is what `resolve_under_root` makes of a
path (nothing, when it escapes) and the files at the resolved places; `refuses` says which of the writes the system refuses, a
directory in the way included.
-/
namespace MyGpt
namespace Patch

open Chat (Text isSpace strip)
open Lines (splitlines unlines)

/-! ## the patch -/

inductive Action
  | add | delete | update
  deriving DecidableEq

inductive Kind
  | ctx | minus | plus
  deriving DecidableEq

abbrev Hunk := List (Kind × Text)

structure FileOp where
  action : Action
  path : Text
  moveTo : Option Text := none
  content : List Text := []
  hunks : List Hunk := []
  deriving DecidableEq

/-- `move_to`, unless it is empty. -/
def FileOp.renamed (op : FileOp) : Option Text := op.moveTo.filter (· ≠ [])

/-- `op.move_to or op.path` -/
def FileOp.target (op : FileOp) : Text := op.renamed.getD op.path

/-- The state of the parser: the operations behind `current`, `current` and `hunk`. -/
structure Parsing where
  done : List FileOp := []
  current : Option FileOp := none
  hunk : Hunk := []
  deriving DecidableEq

def Parsing.flushHunk (st : Parsing) : Parsing :=
  if st.hunk = [] then st
  else { st with current := st.current.map (fun op => { op with hunks := op.hunks ++ [st.hunk] }), hunk := [] }

def Parsing.boundary (st : Parsing) (next : Option FileOp) : Parsing :=
  { done := st.flushHunk.done ++ st.flushHunk.current.toList, current := next }

def startsWith (text : Text) (tag : String) : Bool := tag.toList.isPrefixOf text

def behind (text : Text) (tag : String) : Text := strip (text.drop tag.length)

def hunkLine (raw : Text) : Kind × Text :=
  if startsWith raw "+" then (.plus, raw.drop 1)
  else if startsWith raw "-" then (.minus, raw.drop 1)
  else if startsWith raw "@@" then (.ctx, (raw.drop 2).dropWhile isSpace)
  else (.ctx, raw)

def Parsing.line (st : Parsing) (raw : Text) : Parsing :=
  match st.current with
  | none => st
  | some op =>
    if op.action = .add then
      { st with current := some { op with content := op.content ++ [if startsWith raw "+" then raw.drop 1 else raw] } }
    else { st with hunk := st.hunk ++ [hunkLine raw] }

/-- The `while` loop behind the begin marker. -/
def parseLoop : Parsing → List Text → Parsing
  | st, [] => st
  | st, raw :: rest =>
    let s := strip raw
    if startsWith s "*** End Patch" then st
    else if startsWith s "*** Add File:" then
      parseLoop (st.boundary (some { action := .add, path := behind s "*** Add File:" })) rest
    else if startsWith s "*** Delete File:" then
      parseLoop (st.boundary (some { action := .delete, path := behind s "*** Delete File:" })) rest
    else if startsWith s "*** Update File:" then
      parseLoop (st.boundary (some { action := .update, path := behind s "*** Update File:" })) rest
    else if startsWith s "*** Move to:" && st.current.isSome then
      parseLoop { st with current := st.current.map (fun op => { op with moveTo := some (behind s "*** Move to:") }) } rest
    else if startsWith s "*** End of File" then parseLoop st rest
    else if startsWith s "***" then parseLoop (st.boundary none) rest
    else parseLoop (st.line raw) rest

def parsePatch (text : Text) : List FileOp :=
  let lines := (splitlines text).dropWhile (fun raw => !startsWith (strip raw) "*** Begin Patch")
  ((parseLoop {} (lines.drop 1)).boundary none).done

/-! ## in memory -/

inductive PatchError
  /-- `delete: file not found: …` -/
  | deleteMissing (path : Text)
  /-- `update: file not found: …` -/
  | updateMissing (path : Text)
  /-- `hunk context not found: …` -/
  | contextNotFound (needle : List Text)
  deriving DecidableEq

structure ApplyDelta where
  path : Text
  action : Action
  deriving DecidableEq

abbrev Files := Text → Option (List Text)

def Files.set (files : Files) (path : Text) (lines : Option (List Text)) : Files :=
  fun p => if p = path then lines else files p

def findSubseq (haystack needle : List Text) : Option Nat :=
  if needle = [] then none
  else (List.range (haystack.length + 1 - needle.length)).find? (fun i =>
    ((haystack.drop i).take needle.length).map strip == needle.map strip)

def Hunk.texts (hunk : Hunk) (kinds : List Kind) : List Text := (hunk.filter (fun l => kinds.contains l.1)).map (·.2)

def applyHunk (lines : List Text) (hunk : Hunk) : Except PatchError (List Text) :=
  let needle := Hunk.texts hunk [.ctx, .minus]
  let replacement := Hunk.texts hunk [.ctx, .plus]
  if needle = [] then .ok (lines ++ Hunk.texts hunk [.plus])
  else
    match findSubseq lines needle with
    | none => .error (.contextNotFound (needle.take 3))
    | some start => .ok (lines.take start ++ replacement ++ lines.drop (start + needle.length))

def applyOp (op : FileOp) (files : Files) : Except PatchError (ApplyDelta × Files) :=
  match op.action with
  | .add => .ok (⟨op.path, .add⟩, files.set op.path (some op.content))
  | .delete =>
    match files op.path with
    | none => .error (.deleteMissing op.path)
    | some _ => .ok (⟨op.path, .delete⟩, files.set op.path none)
  | .update =>
    match files op.path with
    | none => .error (.updateMissing op.path)
    | some src =>
      match op.hunks.foldlM applyHunk src with
      | .error e => .error e
      | .ok lines =>
        let written := files.set op.target (some lines)
        .ok (⟨op.target, .update⟩, if op.target = op.path then written else written.set op.path none)

def applyOps : List FileOp → Files → Except PatchError (List ApplyDelta × Files)
  | [], files => .ok ([], files)
  | op :: ops, files =>
    match applyOp op files with
    | .error e => .error e
    | .ok (delta, files) =>
      match applyOps ops files with
      | .error e => .error e
      | .ok (deltas, files) => .ok (delta :: deltas, files)

/-! ## in the workspace -/

inductive Stored
  | text (text : Text)
  | other (bytes : List Nat)
  deriving DecidableEq

inductive ToolFailure
  | patchRequired
  | noOperations
  | escapes (path : Text)
  | undecodable (path : Text)
  | doesNotApply (e : PatchError)
  | refused
  deriving DecidableEq

section workspace

variable {Loc : Type} [DecidableEq Loc] (resolve : Text → Option Loc) (refuses : Nat → Bool)

def named (ops : List FileOp) : List Text := ops.flatMap (fun op => op.path :: op.renamed.toList)

def stored (disk : Loc → Option Stored) (path : Text) : Option Stored := (resolve path).bind disk

/-- `snapshot`: the lines of the named files. -/
def snapshot (disk : Loc → Option Stored) (ops : List FileOp) : Files := fun path =>
  if (named ops).contains path then
    match stored resolve disk path with
    | some (.text text) => some (splitlines text)
    | _ => none
  else none

def prepare (disk : Loc → Option Stored) (patch : Text) : Except ToolFailure (List FileOp × List ApplyDelta × Files) :=
  if patch = [] then .error .patchRequired
  else
    let ops := parsePatch patch
    if ops = [] then .error .noOperations
    else
      match (named ops).find? (fun path => (resolve path).isNone) with
      | some path => .error (.escapes path)
      | none =>
        match (named ops).find? (fun path => (stored resolve disk path).any (fun f => !(f matches .text _))) with
        | some path => .error (.undecodable path)
        | none =>
          match applyOps ops (snapshot resolve disk ops) with
          | .error e => .error (.doesNotApply e)
          | .ok (deltas, files) => .ok (ops, deltas, files)

def render (lines : List Text) : Text :=
  let content := unlines lines
  if content ≠ [] ∧ content.getLast? ≠ some '\n' then content ++ ['\n'] else content

def effect (files : Files) (op : FileOp) : Option (Loc × Option (List Text)) :=
  match op.action with
  | .delete => (resolve op.path).map (fun loc => (loc, none))
  | _ => (files op.target).bind (fun lines => (resolve op.target).map (fun loc => (loc, some lines)))

/-- The third step; `false` when the system has refused a write. -/
def persist (files : Files) : Nat → List FileOp → (Loc → Option Stored) → Bool × (Loc → Option Stored)
  | _, [], disk => (true, disk)
  | i, op :: ops, disk =>
    match effect resolve files op with
    | none => persist files (i + 1) ops disk
    | some (loc, lines) =>
      if refuses i then (false, disk)
      else persist files (i + 1) ops (fun l => if l = loc then lines.map (fun ls => .text (render ls)) else disk l)

/-- `WorkspaceApplyPatchTool.run`: `files_changed`, and the files then. -/
def run (disk : Loc → Option Stored) (patch : Text) : Except ToolFailure Nat × (Loc → Option Stored) :=
  match prepare resolve disk patch with
  | .error e => (.error e, disk)
  | .ok (ops, deltas, files) =>
    match persist resolve refuses files 0 ops disk with
    | (true, disk') => (.ok deltas.length, disk')
    | (false, disk') => (.error .refused, disk')

end workspace

end Patch
end MyGpt
