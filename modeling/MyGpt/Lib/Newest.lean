import Mathlib.Data.List.Sort
/-!
# Newest — the rows a query keeps that orders by a rank, the highest first

`newestFirst` is the order, `newer` counts the rows in front of one.  A row comes behind the first `k` exactly when `k` rows
are newer (`mem_drop_newestFirst`).
-/
namespace MyGpt
namespace Newest

variable {α κ : Type} [LinearOrder κ] (rank : α → κ)

/-- `ORDER BY rank DESC`. -/
def newestFirst (rows : List α) : List α := rows.insertionSort (fun a b => rank b ≤ rank a)

def newer (rows : List α) (x : α) : Nat := rows.countP (fun y => decide (rank x < rank y))

theorem newestFirst_perm (rows : List α) : (newestFirst rank rows).Perm rows := List.perm_insertionSort _ rows

theorem newestFirst_pairwise {rows : List α} (h : (rows.map rank).Nodup) :
    (newestFirst rank rows).Pairwise (fun a b => rank b < rank a) := by
  have hsorted : (newestFirst rank rows).Pairwise (fun a b => rank b ≤ rank a) := List.pairwise_insertionSort _ rows
  have hranks : ((newestFirst rank rows).map rank).Nodup := (((newestFirst_perm rank rows).map rank).nodup_iff).2 h
  refine (hsorted.and (List.pairwise_map.1 hranks)).imp (fun hab => ?_)
  exact lt_of_le_of_ne hab.1 (Ne.symm hab.2)

theorem mem_drop_of_pairwise {x : α} : ∀ {rows : List α} (k : Nat), rows.Pairwise (fun a b => rank b < rank a) →
    (x ∈ rows.drop k ↔ x ∈ rows ∧ k ≤ newer rank rows x)
  | rows, 0, _ => by simp
  | [], k + 1, _ => by simp
  | a :: rows, k + 1, h => by
    obtain ⟨hbehind, hrows⟩ := List.pairwise_cons.1 h
    have hcount : newer rank (a :: rows) x = newer rank rows x + (if rank x < rank a then 1 else 0) := by
      simp [newer, List.countP_cons]
    rw [List.drop_succ_cons, mem_drop_of_pairwise k hrows, hcount]
    constructor
    · rintro ⟨hx, hle⟩
      rw [if_pos (hbehind x hx)]
      exact ⟨List.mem_cons_of_mem _ hx, Nat.succ_le_succ hle⟩
    · rintro ⟨hx, hle⟩
      rcases List.mem_cons.1 hx with rfl | hx
      · have hnone : newer rank rows x = 0 := List.countP_eq_zero.2 (fun y hy => by simp [le_of_lt (hbehind y hy)])
        rw [hnone, if_neg (lt_irrefl _)] at hle
        exact absurd hle (Nat.not_succ_le_zero _)
      · rw [if_pos (hbehind x hx)] at hle
        exact ⟨hx, Nat.le_of_succ_le_succ hle⟩

theorem mem_drop_newestFirst {rows : List α} (h : (rows.map rank).Nodup) (k : Nat) (x : α) :
    x ∈ (newestFirst rank rows).drop k ↔ x ∈ rows ∧ k ≤ newer rank rows x := by
  have hperm := newestFirst_perm rank rows
  rw [mem_drop_of_pairwise rank k (newestFirst_pairwise rank h), hperm.mem_iff, newer, hperm.countP_eq]
  rfl

theorem newer_anti {rows : List α} {x y : α} (h : rank y ≤ rank x) : newer rank rows x ≤ newer rank rows y := by
  refine List.countP_mono_left (fun z _ hz => ?_)
  rw [decide_eq_true_eq] at hz ⊢
  exact lt_of_le_of_lt h hz

theorem rank_lt_of_newer {rows : List α} {x y : α} {k : Nat} (hx : k ≤ newer rank rows x) (hy : newer rank rows y < k) :
    rank x < rank y := by
  refine lt_of_not_ge (fun hle => ?_)
  have hanti : newer rank rows x ≤ newer rank rows y := newer_anti rank hle
  omega

/-- **At most `k` rows** are left when those behind the first `k` are deleted by their keys. -/
theorem length_kept_le {β : Type} [DecidableEq β] (key : α → β) (rows : List α) (k : Nat) :
    (rows.filter (fun x => decide (key x ∉ ((newestFirst rank rows).drop k).map key))).length ≤ k := by
  have hperm := (newestFirst_perm rank rows).symm.filter (fun x => decide (key x ∉ ((newestFirst rank rows).drop k).map key))
  rw [hperm.length_eq]
  generalize newestFirst rank rows = sorted
  have hbehind : (sorted.drop k).filter (fun x => decide (key x ∉ (sorted.drop k).map key)) = [] := by
    refine List.filter_eq_nil_iff.2 (fun x hx => ?_)
    rw [decide_eq_true_eq, not_not]
    exact List.mem_map.2 ⟨x, hx, rfl⟩
  have hsplit : sorted.filter (fun x => decide (key x ∉ (sorted.drop k).map key)) =
      (sorted.take k).filter (fun x => decide (key x ∉ (sorted.drop k).map key)) := by
    conv_lhs => rw [← List.take_append_drop k sorted, List.filter_append]
    rw [List.take_append_drop, hbehind, List.append_nil]
  rw [hsplit]
  exact Nat.le_trans (List.length_filter_le _ _) (List.length_take_le k sorted)

end Newest
end MyGpt
