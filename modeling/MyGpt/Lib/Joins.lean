import Mathlib.Algebra.BigOperators.Group.List.Basic
import Mathlib.Algebra.GroupWithZero.Nat
import Mathlib.Data.List.Infix
/-!
# Joins — parts joined by a separator, and where each part stands

`offset` is where a part begins in the join, `slice` cuts a range out of a list.  A join cut again at its separator has its
parts in their places as far as they do not contain the separator (`splitOn_places`).
-/
namespace Joins

variable {α : Type _}

/-- The elements from `a` up to `b`. -/
def slice (l : List α) (a b : Nat) : List α := (l.drop a).take (b - a)

/-- Where the part `i` begins, when a separator of length `w` stands behind each part before it. -/
def offset (w : Nat) (parts : List (List α)) (i : Nat) : Nat := ((parts.take i).map (fun p => p.length + w)).sum

@[simp] theorem offset_zero (w : Nat) (parts : List (List α)) : offset w parts 0 = 0 := rfl

@[simp] theorem offset_nil (w i : Nat) : offset w ([] : List (List α)) i = 0 := by simp [offset]

@[simp] theorem offset_cons_succ (w : Nat) (p : List α) (parts : List (List α)) (i : Nat) :
    offset w (p :: parts) (i + 1) = p.length + w + offset w parts i := by simp [offset]

theorem offset_succ {w : Nat} {parts : List (List α)} {i : Nat} {p : List α} (h : parts[i]? = some p) :
    offset w parts (i + 1) = offset w parts i + p.length + w := by
  unfold offset
  rw [List.take_add_one, h]
  simp
  omega

theorem offset_le (w : Nat) (parts : List (List α)) {i j : Nat} (h : i ≤ j) : offset w parts i ≤ offset w parts j := by
  induction parts generalizing i j with
  | nil => simp
  | cons p parts ih =>
    cases i with
    | zero => simp
    | succ i =>
      cases j with
      | zero => omega
      | succ j =>
        have hrest := ih (Nat.le_of_succ_le_succ h)
        simp
        omega

theorem offset_lt {w : Nat} (hw : 0 < w) (parts : List (List α)) {i j : Nat} (h : i < j) (hj : j ≤ parts.length) :
    offset w parts i < offset w parts j := by
  have hi : i < parts.length := by omega
  have hsucc := offset_succ (w := w) (List.getElem?_eq_getElem hi)
  have hle := offset_le w parts h
  simp only [Nat.succ_eq_add_one] at hle
  omega

theorem offset_inj {w : Nat} (hw : 0 < w) {parts : List (List α)} {i j : Nat} (hi : i ≤ parts.length) (hj : j ≤ parts.length)
    (h : offset w parts i = offset w parts j) : i = j := by
  rcases Nat.lt_trichotomy i j with hlt | heq | hgt
  · have := offset_lt hw parts hlt hj
    omega
  · exact heq
  · have := offset_lt hw parts hgt hi
    omega

theorem offset_prefix {w : Nat} {parts parts' : List (List α)} (h : parts <+: parts') {i : Nat} (hi : i ≤ parts.length) :
    offset w parts i = offset w parts' i := by
  obtain ⟨rest, rfl⟩ := h
  unfold offset
  rw [List.take_append_of_le_length hi]

/-! ## slices -/

theorem length_slice {l : List α} {a b : Nat} (h : b ≤ l.length) : (slice l a b).length = b - a := by
  simp [slice]
  omega

@[simp] theorem slice_self (l : List α) : slice l 0 l.length = l := by simp [slice]

theorem slice_append_left {l : List α} (r : List α) {a b : Nat} (h : b ≤ l.length) : slice (l ++ r) a b = slice l a b := by
  unfold slice
  by_cases hab : a ≤ l.length
  · rw [List.drop_append_of_le_length hab, List.take_append_of_le_length (by simp; omega)]
  · have hzero : b - a = 0 := by omega
    rw [hzero, List.take_zero, List.take_zero]

theorem slice_append_right (l r : List α) (a b : Nat) : slice (l ++ r) (l.length + a) (l.length + b) = slice r a b := by
  unfold slice
  rw [List.drop_append, Nat.add_sub_cancel_left, List.drop_eq_nil_of_le (by omega), List.nil_append]
  congr 1
  omega

theorem slice_infix (l : List α) (a b : Nat) : slice l a b <:+: l :=
  ((List.take_prefix _ _).isInfix).trans ((List.drop_suffix _ _).isInfix)

theorem slice_slice {l : List α} {a b c d : Nat} (h : a + d ≤ b) : slice (slice l a b) c d = slice l (a + c) (a + d) := by
  unfold slice
  rw [List.drop_take, List.drop_drop, List.take_take]
  congr 1
  omega

/-! ## joins -/

theorem length_join_cons (sep p : List α) {parts : List (List α)} (h : parts ≠ []) :
    (sep.intercalate (p :: parts)).length = p.length + sep.length + (sep.intercalate parts).length := by
  rw [List.intercalate_cons_of_ne_nil h]
  simp
  omega

theorem slice_join (sep : List α) {parts : List (List α)} {i : Nat} {p : List α} (h : parts[i]? = some p) :
    slice (sep.intercalate parts) (offset sep.length parts i) (offset sep.length parts i + p.length) = p ∧
      offset sep.length parts i + p.length ≤ (sep.intercalate parts).length := by
  induction parts generalizing i with
  | nil => simp at h
  | cons q parts ih =>
    cases i with
    | zero =>
      simp only [List.getElem?_cons_zero, Option.some.injEq] at h
      subst h
      by_cases hparts : parts = []
      · subst hparts
        simp
      · rw [List.intercalate_cons_of_ne_nil hparts]
        simp [List.append_assoc, slice_append_left]
    | succ i =>
      simp only [List.getElem?_cons_succ] at h
      have hparts : parts ≠ [] := by
        rintro rfl
        simp at h
      obtain ⟨hslice, hle⟩ := ih h
      rw [List.intercalate_cons_of_ne_nil hparts, offset_cons_succ]
      constructor
      · have hright := slice_append_right (q ++ sep) (sep.intercalate parts) (offset sep.length parts i)
          (offset sep.length parts i + p.length)
        rw [List.length_append] at hright
        rw [Nat.add_assoc (q.length + sep.length), hright, hslice]
      · simp
        omega

/-! ## what a cut leaves -/

theorem splitOnP_pieces (p : α → Bool) (l : List α) :
    (∀ run ∈ l.splitOnP p, run <:+: l ∧ ∀ c ∈ run, p c = false) ∧
      ∀ first rest, l.splitOnP p = first :: rest → first <+: l := by
  induction l with
  | nil =>
    refine ⟨fun run hrun => ?_, fun first rest h => ?_⟩
    · rw [List.splitOnP_nil, List.mem_singleton] at hrun
      rw [hrun]
      exact ⟨List.infix_rfl, nofun⟩
    · rw [List.splitOnP_nil, List.cons.injEq] at h
      rw [← h.1]
  | cons c l ih =>
    rw [List.splitOnP_cons_eq_if_modifyHead]
    split
    · refine ⟨fun run hrun => ?_, fun first rest h => ?_⟩
      · rcases List.mem_cons.1 hrun with rfl | hrun
        · exact ⟨List.nil_infix, nofun⟩
        · obtain ⟨hin, hfree⟩ := ih.1 run hrun
          exact ⟨hin.trans (List.suffix_cons c l).isInfix, hfree⟩
      · rw [List.cons.injEq] at h
        rw [← h.1]
        exact List.nil_prefix
    · rename_i hc
      cases hs : l.splitOnP p with
      | nil => exact absurd hs (List.splitOnP_ne_nil _ _)
      | cons first rest =>
        have hfirst := ih.2 first rest hs
        have hmem := fun run hrun => ih.1 run (hs ▸ hrun)
        refine ⟨fun run hrun => ?_, fun first' rest' h => ?_⟩
        · rw [List.modifyHead_cons] at hrun
          rcases List.mem_cons.1 hrun with rfl | hrun
          · refine ⟨(List.cons_prefix_cons.2 ⟨rfl, hfirst⟩).isInfix, fun d hd => ?_⟩
            rcases List.mem_cons.1 hd with rfl | hd
            · simpa using hc
            · exact (hmem first List.mem_cons_self).2 d hd
          · obtain ⟨hin, hfree⟩ := hmem run (List.mem_cons_of_mem _ hrun)
            exact ⟨hin.trans (List.suffix_cons c l).isInfix, hfree⟩
        · rw [List.modifyHead_cons, List.cons.injEq] at h
          rw [← h.1]
          exact List.cons_prefix_cons.2 ⟨rfl, hfirst⟩

theorem mem_splitOnP {p : α → Bool} {l run : List α} (h : run ∈ l.splitOnP p) : run <:+: l ∧ ∀ c ∈ run, p c = false :=
  (splitOnP_pieces p l).1 run h

/-! ## a join cut again -/

variable [DecidableEq α]

theorem splitOn_join (x : α) {parts : List (List α)} (h : parts ≠ []) :
    ([x].intercalate parts).splitOn x = parts.flatMap (fun p => p.splitOn x) := by
  induction parts with
  | nil => exact absurd rfl h
  | cons p parts ih =>
    by_cases hparts : parts = []
    · subst hparts
      simp
    · rw [List.intercalate_cons_of_ne_nil hparts, List.append_assoc, List.singleton_append, List.splitOn_append_cons_self,
        ih hparts]
      rfl

theorem sum_splitOn (x : α) (p : List α) : ((p.splitOn x).map (fun q => q.length + 1)).sum = p.length + 1 := by
  have hjoin : [x].intercalate (p.splitOn x) = p := List.intercalate_splitOn x
  have hlength : ∀ {l : List (List α)}, l ≠ [] →
      (l.map (fun q => q.length + 1)).sum = ([x].intercalate l).length + 1 := by
    intro l hl
    induction l with
    | nil => exact absurd rfl hl
    | cons q l ih =>
      by_cases hrest : l = []
      · subst hrest
        simp
      · rw [length_join_cons _ _ hrest, List.map_cons, List.sum_cons, ih hrest]
        simp
        omega
  rw [hlength (List.splitOn_ne_nil x p), hjoin]

def pieces (x : α) (parts : List (List α)) (i : Nat) : Nat := ((parts.take i).map (fun p => (p.splitOn x).length)).sum

theorem length_splitOn (x : α) (p : List α) : (p.splitOn x).length = p.count x + 1 := by
  induction p with
  | nil => simp
  | cons y p ih =>
    rw [List.splitOn_cons_eq_if_modifyHead, List.count_cons]
    by_cases hy : y = x
    · simp [hy, ih]
    · simp [hy, ih]

theorem le_pieces (x : α) (parts : List (List α)) {i : Nat} (hi : i ≤ parts.length) : i ≤ pieces x parts i := by
  induction parts generalizing i with
  | nil =>
    have hzero : i = 0 := by simpa using hi
    omega
  | cons p parts ih =>
    cases i with
    | zero => exact Nat.zero_le _
    | succ i =>
      have hrest := ih (Nat.le_of_succ_le_succ hi)
      unfold pieces at hrest ⊢
      simp [length_splitOn]
      simp [length_splitOn] at hrest
      omega

theorem take_pieces (x : α) (parts : List (List α)) (i : Nat) :
    (parts.flatMap (fun p => p.splitOn x)).take (pieces x parts i) = (parts.take i).flatMap (fun p => p.splitOn x) := by
  induction parts generalizing i with
  | nil => simp
  | cons p parts ih =>
    cases i with
    | zero => simp [pieces]
    | succ i =>
      have hrest := ih i
      unfold pieces at hrest ⊢
      simp only [List.take_succ_cons, List.map_cons, List.sum_cons, List.flatMap_cons, List.take_length_add_append, hrest]

theorem offset_pieces (x : α) (parts : List (List α)) (i : Nat) :
    offset 1 (parts.flatMap (fun p => p.splitOn x)) (pieces x parts i) = offset 1 parts i := by
  unfold offset
  rw [take_pieces]
  induction parts.take i with
  | nil => rfl
  | cons p rest ih =>
    rw [List.flatMap_cons, List.map_append, List.sum_append, ih, sum_splitOn]
    simp

theorem pieces_le (x : α) (parts : List (List α)) (i : Nat) :
    pieces x parts i ≤ (parts.flatMap (fun p => p.splitOn x)).length := by
  induction parts generalizing i with
  | nil => simp [pieces]
  | cons p parts ih =>
    cases i with
    | zero => exact Nat.zero_le _
    | succ i =>
      have hrest := ih i
      unfold pieces at hrest ⊢
      simp only [List.take_succ_cons, List.map_cons, List.sum_cons, List.flatMap_cons, List.length_append]
      omega

theorem head_splitOn_lt {x : α} {p : List α} (h : x ∈ p) : ∃ q rest, p.splitOn x = q :: rest ∧ q.length < p.length := by
  induction p with
  | nil => cases h
  | cons y p ih =>
    rw [List.splitOn_cons_eq_if_modifyHead]
    by_cases hy : y = x
    · exact ⟨[], p.splitOn x, by simp [hy], by simp⟩
    · obtain ⟨q, rest, hsplit, hlt⟩ := ih ((List.mem_cons.1 h).resolve_left (fun heq => hy heq.symm))
      exact ⟨y :: q, rest, by simp [hy, hsplit], by simpa using hlt⟩

/-- **Which parts keep their places**: the piece `i` of the join is the part `i`, where it stands, exactly when no part up to
it contains the separator. -/
theorem splitOn_places (x : α) {parts : List (List α)} {i : Nat} {p : List α} (h : parts[i]? = some p) :
    (offset 1 (parts.flatMap (fun p => p.splitOn x)) i = offset 1 parts i ∧
      ∃ q, (parts.flatMap (fun p => p.splitOn x))[i]? = some q ∧ q.length = p.length) ↔
      ∀ j q, j ≤ i → parts[j]? = some q → x ∉ q := by
  induction parts generalizing i with
  | nil => simp at h
  | cons b parts ih =>
    by_cases hb : x ∈ b
    · refine ⟨fun hplaced => ?_, fun hall => absurd hb (hall 0 b (Nat.zero_le i) rfl)⟩
      obtain ⟨hoffset, q, hq, hlength⟩ := hplaced
      cases i with
      | zero =>
        simp only [List.getElem?_cons_zero, Option.some.injEq] at h
        subst h
        obtain ⟨first, rest, hsplit, hlt⟩ := head_splitOn_lt hb
        rw [List.flatMap_cons, hsplit, List.cons_append, List.getElem?_cons_zero, Option.some.injEq] at hq
        subst hq
        omega
      | succ i =>
        -- the parts up to this one have more than `i + 1` pieces
        have hi : i ≤ parts.length := by
          simp only [List.getElem?_cons_succ] at h
          exact Nat.le_of_lt (List.getElem?_eq_some_iff.1 h).1
        have hle := le_pieces x parts hi
        have hpos := List.count_pos_iff.2 hb
        have hpieces : pieces x (b :: parts) (i + 1) = (b.count x + 1) + pieces x parts i := by
          simp [pieces, length_splitOn]
        have hbound := pieces_le x (b :: parts) (i + 1)
        rw [← offset_pieces x (b :: parts) (i + 1)] at hoffset
        have heq := offset_inj Nat.one_pos (by omega) hbound hoffset
        omega
    · rw [List.flatMap_cons, List.splitOn_eq_singleton hb, List.singleton_append]
      cases i with
      | zero =>
        simp only [List.getElem?_cons_zero, Option.some.injEq] at h
        subst h
        constructor
        · intro _ j q hj hq
          obtain rfl : j = 0 := by omega
          simp only [List.getElem?_cons_zero, Option.some.injEq] at hq
          exact hq ▸ hb
        · intro _
          simp
      | succ i =>
        simp only [List.getElem?_cons_succ] at h
        have hrest := ih h
        simp only [offset_cons_succ, List.getElem?_cons_succ, Nat.add_left_cancel_iff]
        rw [hrest]
        constructor
        · intro hall j q hj hq
          cases j with
          | zero =>
            simp only [List.getElem?_cons_zero, Option.some.injEq] at hq
            exact hq ▸ hb
          | succ j =>
            simp only [List.getElem?_cons_succ] at hq
            exact hall j q (by omega) hq
        · intro hall j q hj hq
          exact hall (j + 1) q (by omega) (by simpa using hq)

end Joins
