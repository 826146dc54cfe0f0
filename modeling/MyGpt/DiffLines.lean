import MyGpt.SseDecoder
import MyGpt.Lib.Joins
import Mathlib.Data.List.Sort
/-!
# DiffLines — the line diff of two texts

`lib/diff.ts`: lines that correspond are collected segment by segment, by what a segment begins and ends with alike, by
dynamic programming where that is small enough, and else by a line that is once on both sides.  The rows are made from the
pairs in order.  How far an anchor is from the middle of its segment is a parameter: it decides which pair is taken, not
what a pair is.  Whatever is paired, the rows read back as the two texts (`rows_read`).
-/
namespace MyGpt
namespace Diff

open Sse (JsString lf cr)
open Joins (slice)

/-! ## lines -/

/-- `text.replace(/\r\n?/g, "\n")`; `afterCr` while a line feed belongs to what was replaced. -/
def toLf : Bool → JsString → JsString
  | _, [] => []
  | afterCr, c :: rest =>
    if c = cr then lf :: toLf true rest
    else if c = lf ∧ afterCr = true then toLf false rest
    else c :: toLf false rest

def splitLines (text : JsString) : List JsString :=
  if text = [] then []
  else
    let parts := (toLf false text).splitOn lf
    if parts.getLast? = some [] then parts.dropLast else parts

/-- `DIFF_MAX_LINES_PER_SIDE`. -/
def maxLinesPerSide : Nat := 20000

def maxLcsCells : Nat := 1000000

def maxSegments : Nat := 2000

structure Pair where
  i : Nat
  j : Nat
  deriving DecidableEq

/-! ## dynamic programming -/

inductive Dir
  | both
  | old
  | new
  deriving DecidableEq

def lcsRow (line : JsString) : List JsString → List Nat → List Nat × List Dir
  | [], _ => ([0], [])
  | c :: bs, next =>
    let (cur, dirs) := lcsRow line bs next.tail
    if line = c then ((next.tail.headD 0 + 1) :: cur, .both :: dirs)
    else if cur.headD 0 ≤ next.headD 0 then (next.headD 0 :: cur, .old :: dirs)
    else (cur.headD 0 :: cur, .new :: dirs)

def lcsTable (b : List JsString) : List JsString → List Nat × List (List Dir)
  | [] => (List.replicate (b.length + 1) 0, [])
  | line :: a =>
    let (next, dirs) := lcsTable b a
    let (cur, row) := lcsRow line b next
    (cur, row :: dirs)

def dirAt (dirs : List (List Dir)) (i j : Nat) : Option Dir := dirs[i]?.bind (fun row => row[j]?)

def walk (dirs : List (List Dir)) (n m a0 b0 : Nat) : Nat → Nat → Nat → List Pair
  | 0, _, _ => []
  | fuel + 1, i, j =>
    if i < n ∧ j < m then
      match dirAt dirs i j with
      | some .both => ⟨a0 + i, b0 + j⟩ :: walk dirs n m a0 b0 fuel (i + 1) (j + 1)
      | some .old => walk dirs n m a0 b0 fuel (i + 1) j
      | _ => walk dirs n m a0 b0 fuel i (j + 1)
    else []

def lcsPairs (a b : List JsString) (a0 a1 b0 b1 : Nat) : List Pair :=
  walk (lcsTable (slice b b0 b1) (slice a a0 a1)).2 (a1 - a0) (b1 - b0) a0 b0 (a1 - a0 + (b1 - b0)) 0 0

/-! ## anchors -/

structure Hit where
  ia : Nat
  jb : Option Nat := none
  dup : Bool := false

/-- A line of the old side: `seen`, in the order of insertion. -/
def noteOld (seen : List (JsString × Hit)) (ia : Nat) (line : JsString) : List (JsString × Hit) :=
  if seen.any (fun e => e.1 = line) then seen.map (fun e => if e.1 = line then (e.1, { e.2 with dup := true }) else e)
  else seen ++ [(line, { ia := ia })]

def noteNew (seen : List (JsString × Hit)) (jb : Nat) (line : JsString) : List (JsString × Hit) :=
  seen.map (fun e =>
    if e.1 = line then
      (e.1, if e.2.jb.isSome || e.2.dup then { e.2 with dup := true } else { e.2 with jb := some jb })
    else e)

def hits (a b : List JsString) : List (JsString × Hit) :=
  b.zipIdx.foldl (fun seen p => noteNew seen p.2 p.1) (a.zipIdx.foldl (fun seen p => noteOld seen p.2 p.1) [])

section Anchor

variable {δ : Type} [LT δ] [DecidableLT δ] (distance : Nat → Nat → Nat → Nat → δ)

def nearer (n m : Nat) (best : Option (δ × Nat × Nat)) (hit : Hit) : Option (δ × Nat × Nat) :=
  match hit.jb with
  | none => best
  | some jb =>
    if hit.dup then best
    else
      match best with
      | none => some (distance hit.ia jb n m, hit.ia, jb)
      | some (least, place) =>
        if distance hit.ia jb n m < least then some (distance hit.ia jb n m, hit.ia, jb) else some (least, place)

def findAnchor (a b : List JsString) (a0 a1 b0 b1 : Nat) : Option (Nat × Nat) :=
  (((hits (slice a a0 a1) (slice b b0 b1)).map (·.2)).foldl (nearer distance (a1 - a0) (b1 - b0)) none).map (·.2)

/-! ## segments -/

structure Segment where
  a0 : Nat
  a1 : Nat
  b0 : Nat
  b1 : Nat

def headPairs (a b : List JsString) (a1 b1 : Nat) : Nat → Nat → Nat → List Pair
  | 0, _, _ => []
  | fuel + 1, a0, b0 =>
    if a0 < a1 ∧ b0 < b1 ∧ a[a0]? = b[b0]? then ⟨a0, b0⟩ :: headPairs a b a1 b1 fuel (a0 + 1) (b0 + 1) else []

def tailPairs (a b : List JsString) (a0 b0 : Nat) : Nat → Nat → Nat → List Pair
  | 0, _, _ => []
  | fuel + 1, a1, b1 =>
    if a0 < a1 ∧ b0 < b1 ∧ a[a1 - 1]? = b[b1 - 1]? then
      ⟨a1 - 1, b1 - 1⟩ :: tailPairs a b a0 b0 fuel (a1 - 1) (b1 - 1)
    else []

def trimmed (a b : List JsString) (seg : Segment) : Segment :=
  let head := headPairs a b seg.a1 seg.b1 (seg.a1 - seg.a0) seg.a0 seg.b0
  let a0 := seg.a0 + head.length
  let b0 := seg.b0 + head.length
  let tail := tailPairs a b a0 b0 (seg.a1 - a0) seg.a1 seg.b1
  ⟨a0, seg.a1 - tail.length, b0, seg.b1 - tail.length⟩

def edgePairs (a b : List JsString) (seg : Segment) : List Pair :=
  let head := headPairs a b seg.a1 seg.b1 (seg.a1 - seg.a0) seg.a0 seg.b0
  let a0 := seg.a0 + head.length
  let b0 := seg.b0 + head.length
  head ++ (tailPairs a b a0 b0 (seg.a1 - a0) seg.a1 seg.b1).reverse

/-- The loop of `collectPairs` over its stack; it takes so many segments at most. -/
def expand (a b : List JsString) : Nat → List Segment → List Pair
  | 0, _ => []
  | _, [] => []
  | fuel + 1, seg :: stack =>
    let s := trimmed a b seg
    let n := s.a1 - s.a0
    let m := s.b1 - s.b0
    edgePairs a b seg ++
      if n = 0 ∨ m = 0 then expand a b fuel stack
      else if n * m ≤ maxLcsCells then lcsPairs a b s.a0 s.a1 s.b0 s.b1 ++ expand a b fuel stack
      else
        match findAnchor distance a b s.a0 s.a1 s.b0 s.b1 with
        | none => expand a b fuel stack
        | some (ia, jb) =>
          ⟨s.a0 + ia, s.b0 + jb⟩ :: expand a b fuel
            (⟨s.a0, s.a0 + ia, s.b0, s.b0 + jb⟩ :: ⟨s.a0 + ia + 1, s.a1, s.b0 + jb + 1, s.b1⟩ :: stack)

def Pair.le (p q : Pair) : Prop := p.i < q.i ∨ (p.i = q.i ∧ p.j ≤ q.j)

instance (p q : Pair) : Decidable (p.le q) := inferInstanceAs (Decidable (_ ∨ _))

def increasing (lastI lastJ : Int) : List Pair → List Pair
  | [] => []
  | p :: ps => if lastI < p.i ∧ lastJ < p.j then p :: increasing p.i p.j ps else increasing lastI lastJ ps

def collectPairs (a b : List JsString) : List Pair :=
  if maxLinesPerSide < a.length ∨ maxLinesPerSide < b.length then []
  else increasing (-1) (-1) ((expand distance a b maxSegments [⟨0, a.length, 0, b.length⟩]).insertionSort Pair.le)

end Anchor

/-! ## rows -/

inductive DiffRowKind
  | equal
  | add
  | del
  deriving DecidableEq

structure DiffRow where
  kind : DiffRowKind
  oldNumber : Option Nat
  newNumber : Option Nat
  text : JsString
  deriving DecidableEq

def delRow (a : List JsString) (i : Nat) : DiffRow := ⟨.del, some (i + 1), none, a.getD i []⟩

def addRow (b : List JsString) (j : Nat) : DiffRow := ⟨.add, none, some (j + 1), b.getD j []⟩

/-- The rows from the lines `ai` and `bi` on. -/
def rowsFrom (a b : List JsString) (ai bi : Nat) : List Pair → List DiffRow
  | [] => (List.range' ai (a.length - ai)).map (delRow a) ++ (List.range' bi (b.length - bi)).map (addRow b)
  | p :: ps =>
    -- a counter that is past the pair stays where it is
    (List.range' ai (p.i - ai)).map (delRow a) ++ ((List.range' bi (p.j - bi)).map (addRow b) ++
      ⟨.equal, some (max ai p.i + 1), some (max bi p.j + 1), a.getD (max ai p.i) []⟩ ::
        rowsFrom a b (p.i + 1) (p.j + 1) ps)

def diffLines {δ : Type} [LT δ] [DecidableLT δ] (distance : Nat → Nat → Nat → Nat → δ) (oldText newText : JsString) :
    List DiffRow :=
  rowsFrom (splitLines oldText) (splitLines newText) 0 0 (collectPairs distance (splitLines oldText) (splitLines newText))

/-! ## rows are read back -/

def Matched (a b : List JsString) (p : Pair) : Prop := ∃ line, a[p.i]? = some line ∧ b[p.j]? = some line

/-- Pairs of one line each, in order from the lines `ai` and `bi` on. -/
def Chain (a b : List JsString) : Nat → Nat → List Pair → Prop
  | _, _, [] => True
  | ai, bi, p :: ps => ai ≤ p.i ∧ bi ≤ p.j ∧ Matched a b p ∧ Chain a b (p.i + 1) (p.j + 1) ps

/-- Lines with their numbers from `n` on. -/
def numbered (n : Nat) (lines : List JsString) : List (Option Nat × JsString) :=
  (lines.zipIdx n).map (fun p => (some p.2, p.1))

def oldSide (rows : List DiffRow) : List (Option Nat × JsString) :=
  (rows.filter (fun r => decide (r.kind ≠ .add))).map (fun r => (r.oldNumber, r.text))

def newSide (rows : List DiffRow) : List (Option Nat × JsString) :=
  (rows.filter (fun r => decide (r.kind ≠ .del))).map (fun r => (r.newNumber, r.text))

theorem numbered_append (n : Nat) (l r : List JsString) : numbered n (l ++ r) = numbered n l ++ numbered (n + l.length) r := by
  rw [numbered, List.zipIdx_append, List.map_append]
  rfl

theorem numbered_range (lines : List JsString) : ∀ (n start : Nat), start + n ≤ lines.length →
    (List.range' start n).map (fun i => (some (i + 1), lines.getD i [])) =
      numbered (start + 1) ((lines.drop start).take n)
  | 0, _, _ => by rw [List.take_zero]; rfl
  | n + 1, start, h => by
    have hlt : start < lines.length := by omega
    have hrest := numbered_range lines n (start + 1) (by omega)
    rw [List.range'_succ, List.map_cons, hrest, List.drop_eq_getElem_cons hlt, List.take_succ_cons,
      List.getD_eq_getElem?_getD, List.getElem?_eq_getElem hlt]
    rfl

theorem numbered_split {lines : List JsString} {start i : Nat} {line : JsString} (hle : start ≤ i)
    (hline : lines[i]? = some line) : numbered (start + 1) (lines.drop start) =
      numbered (start + 1) ((lines.drop start).take (i - start)) ++
        (some (i + 1), line) :: numbered (i + 2) (lines.drop (i + 1)) := by
  obtain ⟨hlt, hget⟩ := List.getElem?_eq_some_iff.1 hline
  have hsplit : lines.drop start = (lines.drop start).take (i - start) ++ line :: lines.drop (i + 1) := by
    conv_lhs => rw [← List.take_append_drop (i - start) (lines.drop start), List.drop_drop, Nat.add_sub_cancel' hle,
      List.drop_eq_getElem_cons hlt, hget]
  have hlen : ((lines.drop start).take (i - start)).length = i - start := by
    rw [List.length_take, List.length_drop]
    omega
  conv_lhs => rw [hsplit, numbered_append, hlen]
  have hnumber : start + 1 + (i - start) = i + 1 := by omega
  rw [hnumber]
  rfl

theorem delRow_kind {a : List JsString} {l : List Nat} : ∀ r ∈ l.map (delRow a), r.kind = .del := by
  intro r hr
  obtain ⟨i, -, rfl⟩ := List.mem_map.1 hr
  rfl

theorem addRow_kind {b : List JsString} {l : List Nat} : ∀ r ∈ l.map (addRow b), r.kind = .add := by
  intro r hr
  obtain ⟨j, -, rfl⟩ := List.mem_map.1 hr
  rfl

theorem oldSide_dels (a : List JsString) (start n : Nat) (h : start + n ≤ a.length) :
    oldSide ((List.range' start n).map (delRow a)) = numbered (start + 1) ((a.drop start).take n) := by
  rw [oldSide, List.filter_eq_self.2 (fun r hr => by simp [delRow_kind r hr]), List.map_map, ← numbered_range a n start h]
  rfl

theorem oldSide_adds (b : List JsString) (l : List Nat) : oldSide (l.map (addRow b)) = [] := by
  rw [oldSide, List.filter_eq_nil_iff.2 (fun r hr => by simp [addRow_kind r hr]), List.map_nil]

theorem newSide_adds (b : List JsString) (start n : Nat) (h : start + n ≤ b.length) :
    newSide ((List.range' start n).map (addRow b)) = numbered (start + 1) ((b.drop start).take n) := by
  rw [newSide, List.filter_eq_self.2 (fun r hr => by simp [addRow_kind r hr]), List.map_map, ← numbered_range b n start h]
  rfl

theorem newSide_dels (a : List JsString) (l : List Nat) : newSide (l.map (delRow a)) = [] := by
  rw [newSide, List.filter_eq_nil_iff.2 (fun r hr => by simp [delRow_kind r hr]), List.map_nil]

theorem oldSide_append (r r' : List DiffRow) : oldSide (r ++ r') = oldSide r ++ oldSide r' := by
  rw [oldSide, List.filter_append, List.map_append]
  rfl

theorem newSide_append (r r' : List DiffRow) : newSide (r ++ r') = newSide r ++ newSide r' := by
  rw [newSide, List.filter_append, List.map_append]
  rfl

/-- **The rows of a chain** read back as what is left of the two sides, and have an equal row for each pair. -/
theorem rows_read (a b : List JsString) : ∀ (ps : List Pair) (ai bi : Nat), ai ≤ a.length → bi ≤ b.length →
    Chain a b ai bi ps →
    oldSide (rowsFrom a b ai bi ps) = numbered (ai + 1) (a.drop ai) ∧
      newSide (rowsFrom a b ai bi ps) = numbered (bi + 1) (b.drop bi) ∧
      (rowsFrom a b ai bi ps).countP (fun r => decide (r.kind = .equal)) = ps.length
  | [], ai, bi, hai, hbi, _ => by
    have hold := oldSide_dels a ai (a.length - ai) (by omega)
    have hnew := newSide_adds b bi (b.length - bi) (by omega)
    rw [List.take_of_length_le (by rw [List.length_drop])] at hold hnew
    unfold rowsFrom
    refine ⟨?_, ?_, ?_⟩
    · rw [oldSide_append, hold, oldSide_adds, List.append_nil]
    · rw [newSide_append, newSide_dels, hnew, List.nil_append]
    · rw [List.countP_append, List.countP_eq_zero.2 (fun r hr => by simp [delRow_kind r hr]),
        List.countP_eq_zero.2 (fun r hr => by simp [addRow_kind r hr])]
      rfl
  | p :: ps, ai, bi, hai, hbi, h => by
    obtain ⟨hi, hj, ⟨line, hline, hline'⟩, hrest⟩ := h
    have hlti := (List.getElem?_eq_some_iff.1 hline).1
    have hltj := (List.getElem?_eq_some_iff.1 hline').1
    obtain ⟨ihold, ihnew, ihcount⟩ := rows_read a b ps (p.i + 1) (p.j + 1) hlti hltj hrest
    have htext : a.getD p.i [] = line := by rw [List.getD_eq_getElem?_getD, hline, Option.getD_some]
    unfold rowsFrom
    rw [Nat.max_eq_right hi, Nat.max_eq_right hj, htext]
    refine ⟨?_, ?_, ?_⟩
    · rw [oldSide_append, oldSide_append, oldSide_adds, oldSide_dels a ai (p.i - ai) (by omega), List.nil_append,
        numbered_split hi hline, ← ihold]
      rfl
    · rw [newSide_append, newSide_append, newSide_dels, newSide_adds b bi (p.j - bi) (by omega), List.nil_append,
        numbered_split hj hline', ← ihnew]
      rfl
    · rw [List.countP_append, List.countP_append, List.countP_eq_zero.2 (fun r hr => by simp [delRow_kind r hr]),
        List.countP_eq_zero.2 (fun r hr => by simp [addRow_kind r hr]), List.countP_cons_of_pos rfl, ihcount, List.length_cons]
      omega

end Diff
end MyGpt
