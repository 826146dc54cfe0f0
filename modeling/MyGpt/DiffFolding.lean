import MyGpt.DiffLines
import Mathlib.Data.Rat.Floor
/-!
# DiffFolding — runs of equal rows folded away

`hunks` of `lib/diff.ts`.  What is shown and what is folded are together the rows, in order, and a folded row is equal and
further from every change than the context reaches (`hunks_spec`).  A context that is no finite number is none.
-/
namespace MyGpt
namespace Diff

/-! ## blocks -/

inductive DiffBlock
  | rows (rows : List DiffRow)
  | fold (count oldStart newStart : Nat)

def contextOf : Option Rat → Nat
  | none => 0
  | some size => if 0 < size then ⌊size⌋.toNat else 0

def isEqual (row : DiffRow) : Bool := decide (row.kind = .equal)

def flush (buffer : List DiffRow) : List DiffBlock := if buffer = [] then [] else [.rows buffer]

theorem dropWhile_shorter {row : DiffRow} (rest : List DiffRow) (h : ¬ row.kind ≠ .equal) :
    ((row :: rest).dropWhile isEqual).length < (row :: rest).length := by
  have hequal : isEqual row = true := decide_eq_true (Decidable.not_not.1 h)
  rw [List.dropWhile_cons_of_pos hequal]
  exact Nat.lt_succ_of_le (List.dropWhile_sublist isEqual).length_le

/-- The loop of `hunks`, with the rows from its index on. -/
def hunksFrom (ctx : Nat) (buffer : List DiffRow) : List DiffRow → List DiffBlock
  | [] => flush buffer
  | row :: rest =>
    if h : row.kind ≠ .equal then hunksFrom ctx (buffer ++ [row]) rest
    else
      let run := (row :: rest).takeWhile isEqual
      let head := min ctx run.length
      let tail := min ctx (run.length - head)
      have := dropWhile_shorter rest h
      if 0 < run.length - head - tail then
        let first := (run.drop head).head?
        flush (buffer ++ run.take head) ++
          .fold (run.length - head - tail) ((first.bind (·.oldNumber)).getD 0) ((first.bind (·.newNumber)).getD 0) ::
            hunksFrom ctx (run.drop (run.length - tail)) ((row :: rest).dropWhile isEqual)
      else hunksFrom ctx (buffer ++ run.take head ++ run.drop (run.length - tail)) ((row :: rest).dropWhile isEqual)
termination_by rest => rest.length
decreasing_by all_goals first | exact dropWhile_shorter rest h | exact Nat.lt_succ_self _

def hunks (rows : List DiffRow) (contextLines : Option Rat) : List DiffBlock := hunksFrom (contextOf contextLines) [] rows

/-! ## blocks are unfolded -/

/-- What blocks from place `n` on stand for: a fold for so many of the rows that come there. -/
def expandFrom (rows : List DiffRow) : Nat → List DiffBlock → List DiffRow
  | _, [] => []
  | n, .rows shown :: blocks => shown ++ expandFrom rows (n + shown.length) blocks
  | n, .fold count _ _ :: blocks => (rows.drop n).take count ++ expandFrom rows (n + count) blocks

def foldedFrom : Nat → List DiffBlock → List Nat
  | _, [] => []
  | n, .rows shown :: blocks => foldedFrom (n + shown.length) blocks
  | n, .fold count _ _ :: blocks => List.range' n count ++ foldedFrom (n + count) blocks

/-- **A row that may be folded**: an equal one, with no change within so many rows of it. -/
def Far (rows : List DiffRow) (ctx k : Nat) : Prop :=
  (∃ row, rows[k]? = some row ∧ row.kind = .equal) ∧
    ∀ j change, rows[j]? = some change → change.kind ≠ .equal → k + ctx < j ∨ j + ctx < k

theorem expandFrom_flush (rows buffer : List DiffRow) (n : Nat) (blocks : List DiffBlock) :
    expandFrom rows n (flush buffer ++ blocks) = buffer ++ expandFrom rows (n + buffer.length) blocks := by
  unfold flush
  split
  · rename_i hempty
    rw [hempty]
    rfl
  · rfl

theorem foldedFrom_flush (buffer : List DiffRow) (n : Nat) (blocks : List DiffBlock) :
    foldedFrom n (flush buffer ++ blocks) = foldedFrom (n + buffer.length) blocks := by
  unfold flush
  split
  · rename_i hempty
    rw [hempty]
    rfl
  · rfl

theorem far_of_run {before run rest : List DiffRow} {ctx k : Nat} (hrun : ∀ row ∈ run, isEqual row = true)
    (hlo : before.length + ctx ≤ k) (hhi : k + ctx < before.length + run.length) : Far (before ++ (run ++ rest)) ctx k := by
  have hin : ∀ j, before.length ≤ j → j < before.length + run.length →
      ∃ row, (before ++ (run ++ rest))[j]? = some row ∧ row.kind = .equal := by
    intro j h h'
    have hlt : j - before.length < run.length := by omega
    refine ⟨run[j - before.length], ?_, of_decide_eq_true (hrun _ (List.getElem_mem hlt))⟩
    rw [List.getElem?_append_right h, List.getElem?_append_left hlt, List.getElem?_eq_getElem hlt]
  refine ⟨hin k (by omega) (by omega), fun j change hj hchange => ?_⟩
  by_contra hnear
  obtain ⟨row, hrow, hequal⟩ := hin j (by omega) (by omega)
  rw [hj] at hrow
  exact hchange (Option.some.inj hrow ▸ hequal)

theorem run_parts (run : List DiffRow) (ctx : Nat) (h : ctx + ctx ≤ run.length) :
    ∃ middle, middle.length = run.length - ctx - ctx ∧
      run = run.take ctx ++ (middle ++ run.drop (run.length - ctx)) := by
  refine ⟨(run.drop ctx).take (run.length - ctx - ctx), ?_, ?_⟩
  · rw [List.length_take, List.length_drop]
    omega
  · have hlast : run.drop (run.length - ctx) = (run.drop ctx).drop (run.length - ctx - ctx) := by
      rw [List.drop_drop]
      congr 1
      omega
    rw [hlast, List.take_append_drop, List.take_append_drop]

theorem take_between (before middle after : List DiffRow) :
    ((before ++ middle ++ after).drop before.length).take middle.length = middle := by
  rw [List.append_assoc, List.drop_left, List.take_left]

/-- **The loop** unfolds to what it has in hand and what comes, and folds only rows that are far from every change. -/
theorem hunksFrom_spec (ctx : Nat) : ∀ (rest before buffer : List DiffRow),
    expandFrom (before ++ (buffer ++ rest)) before.length (hunksFrom ctx buffer rest) = buffer ++ rest ∧
      ∀ k ∈ foldedFrom before.length (hunksFrom ctx buffer rest), Far (before ++ (buffer ++ rest)) ctx k
  | [], before, buffer => by
    rw [hunksFrom, ← List.append_nil (flush buffer), expandFrom_flush, foldedFrom_flush]
    exact ⟨rfl, nofun⟩
  | row :: rest, before, buffer => by
    rw [hunksFrom]
    split
    · have ih := hunksFrom_spec ctx rest before (buffer ++ [row])
      rw [List.append_assoc, List.singleton_append] at ih
      exact ih
    · rename_i hequal
      have := dropWhile_shorter rest hequal
      have hrun : ∀ r ∈ (row :: rest).takeWhile isEqual, isEqual r = true := fun r hr => List.mem_takeWhile_imp hr
      have hsplit : row :: rest = (row :: rest).takeWhile isEqual ++ (row :: rest).dropWhile isEqual :=
        List.takeWhile_append_dropWhile.symm
      have ih := hunksFrom_spec ctx ((row :: rest).dropWhile isEqual)
      dsimp only
      generalize (row :: rest).takeWhile isEqual = run at hrun hsplit ⊢
      generalize (row :: rest).dropWhile isEqual = later at hsplit ih ⊢
      rw [hsplit]
      split
      · rename_i hfolded
        -- a run with folded rows is longer than the context at both ends of it
        have hhead : min ctx run.length = ctx := by omega
        have htail : min ctx (run.length - ctx) = ctx := by omega
        rw [hhead, htail] at hfolded ⊢
        obtain ⟨middle, hmiddle, hparts⟩ := run_parts run ctx (by omega)
        have hfirst : (run.take ctx).length = ctx := by
          rw [List.length_take]
          omega
        have hrows : before ++ (buffer ++ (run ++ later)) =
            (before ++ (buffer ++ run.take ctx)) ++ middle ++ (run.drop (run.length - ctx) ++ later) := by
          conv_lhs => rw [hparts]
          simp only [List.append_assoc]
        have hbetween := take_between (before ++ (buffer ++ run.take ctx)) middle (run.drop (run.length - ctx) ++ later)
        have ih := ih ((before ++ (buffer ++ run.take ctx)) ++ middle) (run.drop (run.length - ctx))
        have hplace : (before ++ (buffer ++ run.take ctx)).length = before.length + (buffer ++ run.take ctx).length :=
          List.length_append
        rw [← hrows, List.length_append, hplace] at ih
        rw [← hrows, hplace] at hbetween
        rw [← hmiddle, expandFrom_flush, foldedFrom_flush, expandFrom, foldedFrom, hbetween]
        refine ⟨?_, fun k hk => ?_⟩
        · rw [ih.1]
          conv_rhs => rw [hparts]
          simp only [List.append_assoc]
        · rcases List.mem_append.1 hk with hk | hk
          · rw [List.mem_range'_1, List.length_append, hfirst] at hk
            rw [← List.append_assoc]
            exact far_of_run hrun (by rw [List.length_append]; omega) (by rw [List.length_append]; omega)
          · exact ih.2 k hk
      · rename_i hfolded
        have hwhole : run.take (min ctx run.length) ++
            run.drop (run.length - min ctx (run.length - min ctx run.length)) = run := by
          have hmeet : run.length - min ctx (run.length - min ctx run.length) = min ctx run.length := by omega
          rw [hmeet, List.take_append_drop]
        have ih := ih before (buffer ++ run)
        rw [List.append_assoc buffer, hwhole]
        rwa [List.append_assoc buffer] at ih
termination_by rest => rest.length
decreasing_by all_goals first | exact Nat.lt_succ_self _ | exact Nat.lt_of_lt_of_eq (dropWhile_shorter rest ‹_›) rfl

/-! ## the context in lines -/

theorem le_contextOf {d : Nat} {size : Rat} (hd : 0 < d) (h : (d : Rat) ≤ size) : d ≤ contextOf (some size) := by
  have hpos : 0 < size := lt_of_lt_of_le (by exact_mod_cast hd) h
  have hfloor : (d : Int) ≤ ⌊size⌋ := Int.le_floor.2 (by exact_mod_cast h)
  rw [contextOf, if_pos hpos]
  omega

/-- **Folding loses nothing**: unfolded, the blocks are the rows; a folded row is an equal one, and every change is
further from it than the context. -/
theorem hunks_spec (rows : List DiffRow) (contextLines : Option Rat) :
    expandFrom rows 0 (hunks rows contextLines) = rows ∧
      ∀ k ∈ foldedFrom 0 (hunks rows contextLines),
        (∃ row, rows[k]? = some row ∧ row.kind = .equal) ∧
          ∀ j change, rows[j]? = some change → change.kind ≠ .equal →
            ∀ size, contextLines = some size → size < ((k - j : Nat) + (j - k : Nat) : Nat) := by
  have hloop := hunksFrom_spec (contextOf contextLines) rows [] []
  refine ⟨hloop.1, fun k hk => ?_⟩
  obtain ⟨hequal, hfar⟩ := hloop.2 k hk
  refine ⟨hequal, fun j change hj hchange size hsize => ?_⟩
  have hapart := hfar j change hj hchange
  by_contra hnear
  have hle := le_contextOf (d := (k - j) + (j - k)) (by omega) (not_lt.1 hnear)
  rw [← hsize] at hle
  omega

end Diff
end MyGpt
