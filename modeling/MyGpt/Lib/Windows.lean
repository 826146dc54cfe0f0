import Mathlib.Order.Lattice
/-!
# Windows — bounded batches that are filtered after they have been cut

`Window key n rows win` says that `win` may be the answer to a query that orders by `key` and stops after `n` rows: rows of
one key come in any order, and with a constant key all do.  A sweep takes a window and handles what it wants of it; `Times`
are sweeps one after the other.
-/
namespace Windows

variable {α κ : Type _} [LinearOrder κ]

def Window (key : α → κ) (n : Nat) (rows win : List α) : Prop :=
  ∃ l : List α, l.Perm rows ∧ l.Pairwise (fun a b => key a ≤ key b) ∧ l.take n = win

theorem Window.mem {key : α → κ} {n : Nat} {rows win : List α} (h : Window key n rows win) {x : α} (hx : x ∈ win) : x ∈ rows := by
  obtain ⟨l, hperm, -, rfl⟩ := h
  exact hperm.mem_iff.1 (List.mem_of_mem_take hx)

theorem count_before {key : α → κ} {l : List α} (hsorted : l.Pairwise (fun a b => key a ≤ key b)) {i j : Nat} {x : α}
    (hx : l[i]? = some x) (hj : j ≤ i + 1) (q : α → Bool) (hq : ∀ y ∈ l.take j, q y = true) :
    j ≤ l.countP (fun y => q y && decide (key y ≤ key x)) := by
  obtain ⟨hi, hat⟩ := List.getElem?_eq_some_iff.1 hx
  have hall : (l.take j).countP (fun y => q y && decide (key y ≤ key x)) = (l.take j).length := by
    rw [List.countP_eq_length]
    intro y hy
    rw [hq y hy, Bool.true_and, decide_eq_true_eq]
    obtain ⟨k, hk, rfl⟩ := List.mem_take_iff_getElem.1 hy
    rw [← hat]
    rcases Nat.lt_or_ge k i with hlt | hge
    · exact List.pairwise_iff_getElem.1 hsorted k i _ hi hlt
    · have heq : k = i := by omega
      subst heq
      exact le_refl _
  have hle := (List.take_sublist j l).countP_le (p := fun y => q y && decide (key y ≤ key x))
  rw [hall, List.length_take] at hle
  omega

theorem Window.mem_of_count {key : α → κ} {n : Nat} {rows win : List α} (h : Window key n rows win) {x : α} (hx : x ∈ rows)
    (hcount : rows.countP (fun y => decide (key y ≤ key x)) ≤ n) : x ∈ win := by
  obtain ⟨l, hperm, hsorted, rfl⟩ := h
  obtain ⟨i, hi⟩ := List.mem_iff_getElem?.1 (hperm.mem_iff.2 hx)
  have hbefore := count_before hsorted hi (Nat.le_refl _) (fun _ => true) (fun _ _ => rfl)
  simp only [Bool.true_and] at hbefore
  rw [hperm.countP_eq] at hbefore
  obtain ⟨hlt, hat⟩ := List.getElem?_eq_some_iff.1 hi
  exact List.mem_take_iff_getElem.2 ⟨i, by omega, hat⟩

/-- **A window has a row of a kind** when the rows of other kinds that are not behind one of it do not fill it. -/
theorem Window.exists_of_count {key : α → κ} {n : Nat} {rows win : List α} (h : Window key n rows win) {p : α → Bool} {x : α}
    (hx : x ∈ rows) (hp : p x = true) (hcount : rows.countP (fun y => !p y && decide (key y ≤ key x)) < n) :
    ∃ y ∈ win, p y = true := by
  obtain ⟨l, hperm, hsorted, rfl⟩ := h
  by_contra hno
  have hnone : ∀ y ∈ l.take n, ¬ p y = true := by
    intro y hy hpy
    exact hno ⟨y, hy, hpy⟩
  obtain ⟨i, hi⟩ := List.mem_iff_getElem?.1 (hperm.mem_iff.2 hx)
  obtain ⟨hlt, hat⟩ := List.getElem?_eq_some_iff.1 hi
  have hbeyond : n ≤ i := by
    by_contra hwithin
    exact hnone x (List.mem_take_iff_getElem.2 ⟨i, by omega, hat⟩) hp
  have hbefore := count_before hsorted hi (Nat.le_succ_of_le hbeyond) (fun y => !p y) (fun y hy => by simp [hnone y hy])
  rw [hperm.countP_eq] at hbefore
  omega

def lastLe (key : α → κ) (p : α → Bool) (a b : α) : Bool :=
  decide (key a < key b) || (decide (key a = key b) && (!p a || p b))

theorem lastLe_trans (key : α → κ) (p : α → Bool) (a b c : α) (hab : lastLe key p a b = true) (hbc : lastLe key p b c = true) :
    lastLe key p a c = true := by
  simp only [lastLe, Bool.or_eq_true, Bool.and_eq_true, decide_eq_true_eq, Bool.not_eq_true'] at hab hbc ⊢
  rcases hab with hab | ⟨hab, hpab⟩
  · rcases hbc with hbc | ⟨hbc, -⟩
    · exact .inl (lt_trans hab hbc)
    · exact .inl (hbc ▸ hab)
  · rcases hbc with hbc | ⟨hbc, hpbc⟩
    · exact .inl (hab ▸ hbc)
    · refine .inr ⟨hab.trans hbc, ?_⟩
      rcases hpab with hpa | hpb
      · exact .inl hpa
      · rcases hpbc with hpb' | hpc
        · rw [hpb] at hpb'
          cases hpb'
        · exact .inr hpc

theorem lastLe_total (key : α → κ) (p : α → Bool) (a b : α) : (lastLe key p a b || lastLe key p b a) = true := by
  simp only [lastLe, Bool.or_eq_true, Bool.and_eq_true, decide_eq_true_eq, Bool.not_eq_true']
  rcases lt_trichotomy (key a) (key b) with hlt | heq | hgt
  · exact .inl (.inl hlt)
  · cases ha : p a with
    | true => exact .inr (.inr ⟨heq.symm, .inr rfl⟩)
    | false => exact .inl (.inr ⟨heq, .inl rfl⟩)
  · exact .inr (.inl hgt)

/-- **The least favourable window**: it has a row of a kind only when the rows of other kinds that are not behind it leave
room. -/
theorem exists_window_last (key : α → κ) (n : Nat) (rows : List α) (p : α → Bool) :
    ∃ win, Window key n rows win ∧
      ∀ x ∈ win, p x = true → rows.countP (fun y => !p y && decide (key y ≤ key x)) < n := by
  have hsorted := List.pairwise_mergeSort (lastLe_trans key p) (lastLe_total key p) rows
  have hperm := List.mergeSort_perm rows (lastLe key p)
  generalize rows.mergeSort (lastLe key p) = l at hsorted hperm
  refine ⟨l.take n, ⟨l, hperm, hsorted.imp ?_, rfl⟩, ?_⟩
  · intro a b hab
    simp only [lastLe, Bool.or_eq_true, Bool.and_eq_true, decide_eq_true_eq] at hab
    rcases hab with hab | ⟨hab, -⟩
    · exact le_of_lt hab
    · exact le_of_eq hab
  · intro x hx hp
    obtain ⟨i, hi, hat⟩ := List.mem_take_iff_getElem.1 hx
    have hilt : i < l.length := by omega
    -- what counts stands before the place of `x`
    have hsplit : l = l.take i ++ x :: l.drop (i + 1) := by
      rw [← hat, ← List.drop_eq_getElem_cons hilt, List.take_append_drop]
    have hbehind : (l.drop (i + 1)).countP (fun y => !p y && decide (key y ≤ key x)) = 0 := by
      rw [List.countP_eq_zero]
      intro y hy hcounts
      rw [hsplit] at hsorted
      have hxy := (List.pairwise_cons.1 (List.pairwise_append.1 hsorted).2.1).1 y hy
      simp only [lastLe, Bool.or_eq_true, Bool.and_eq_true, decide_eq_true_eq, Bool.not_eq_true'] at hxy hcounts
      rcases hxy with hlt | ⟨-, hpx | hpy⟩
      · exact absurd hcounts.2 (not_le_of_gt hlt)
      · rw [hp] at hpx
        cases hpx
      · rw [hcounts.1] at hpy
        cases hpy
    have hbefore := List.countP_le_length (p := fun y => !p y && decide (key y ≤ key x)) (l := l.take i)
    rw [← hperm.countP_eq, hsplit, List.countP_append, List.countP_cons, hbehind]
    simp only [hp, Bool.not_true, Bool.false_and, Bool.false_eq_true, if_false]
    rw [List.length_take] at hbefore
    omega

/-! ## sweeps one after the other -/

variable {σ : Type _}

def Times (sweep : σ → σ → Prop) : Nat → σ → σ → Prop
  | 0, s, s' => s' = s
  | k + 1, s, s' => ∃ t, sweep s t ∧ Times sweep k t s'

theorem times_stuck (sweep : σ → σ → Prop) {P : σ → Prop} (hstep : ∀ s, P s → ∃ s', sweep s s' ∧ P s') (k : Nat) {s : σ}
    (h : P s) : ∃ s', Times sweep k s s' ∧ P s' := by
  induction k generalizing s with
  | zero => exact ⟨s, rfl, h⟩
  | succ k ih =>
    obtain ⟨t, hsweep, ht⟩ := hstep s h
    obtain ⟨s', htimes, hs'⟩ := ih ht
    exact ⟨s', ⟨t, hsweep, htimes⟩, hs'⟩

theorem times_finish (sweep : σ → σ → Prop) {P : σ → Prop} (left : σ → Nat)
    (hstep : ∀ s s', P s → sweep s s' → P s' ∧ left s' ≤ left s - 1) {k : Nat} {s s' : σ} (h : P s) (hk : left s ≤ k)
    (htimes : Times sweep k s s') : left s' = 0 := by
  induction k generalizing s with
  | zero =>
    obtain rfl : s' = s := htimes
    omega
  | succ k ih =>
    obtain ⟨t, hsweep, hrest⟩ := htimes
    obtain ⟨ht, hless⟩ := hstep s t h hsweep
    exact ih ht (by omega) hrest

end Windows
