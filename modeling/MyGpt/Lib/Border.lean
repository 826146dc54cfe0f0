import Mathlib.Data.List.Basic
/-!
# Border — the longest prefix of one list that ends another

`Overlaps s p k`: the first `k` entries of `p` end `s`.  A scan that keeps the longest overlap of what it has read takes the
next entry by trying shorter and shorter ones, each the longest overlap of the one before with itself (`Reach.fall`).
-/
namespace MyGpt
namespace Border

variable {α : Type} {s p : List α} {k m n b : Nat} {c : α}

/-- The first `k` entries of `p` end `s`. -/
def Overlaps (s p : List α) (k : Nat) : Prop :=
  k ≤ p.length ∧ p.take k <:+ s

theorem overlaps_zero (s p : List α) : Overlaps s p 0 :=
  ⟨Nat.zero_le _, by rw [List.take_zero]; exact List.nil_suffix⟩

theorem overlaps_snoc : Overlaps (s ++ [c]) p (k + 1) ↔ Overlaps s p k ∧ p[k]? = some c := by
  constructor
  · rintro ⟨hk, r, hr⟩
    rw [List.take_add_one, List.getElem?_eq_getElem hk, Option.toList_some, ← List.append_assoc] at hr
    obtain ⟨hs, hc⟩ := List.append_inj' hr rfl
    refine ⟨⟨Nat.le_of_succ_le hk, r, hs⟩, ?_⟩
    rw [List.getElem?_eq_getElem hk, List.singleton_inj.1 hc]
  · rintro ⟨⟨-, r, hr⟩, hc⟩
    refine ⟨(List.getElem?_eq_some_iff.1 hc).1, r, ?_⟩
    rw [List.take_add_one, hc, Option.toList_some, ← List.append_assoc, hr]

theorem Overlaps.nested (hk : Overlaps s p k) (hm : Overlaps s p m) (hle : k ≤ m) : Overlaps (p.take m) p k := by
  refine ⟨hk.1, List.suffix_of_suffix_length_le hk.2 hm.2 ?_⟩
  rw [List.length_take, List.length_take]
  omega

theorem Overlaps.trans (hk : Overlaps (p.take m) p k) (hm : Overlaps s p m) : Overlaps s p k :=
  ⟨hk.1, hk.2.trans hm.2⟩

structure Best (s p : List α) (bound m : Nat) : Prop where
  lt : m < bound
  overlaps : Overlaps s p m
  longest : ∀ k < bound, Overlaps s p k → k ≤ m

theorem best_nil (hb : 0 < b) : Best [] p b 0 := by
  refine ⟨hb, overlaps_zero [] p, fun k _ hk => ?_⟩
  have hlen := hk.2.length_le
  have hle := hk.1
  rw [List.length_take, List.length_nil] at hlen
  omega

theorem Best.of_overlap (hm : Overlaps s p m) (h : Best (p.take m) p m k) : Best s p m k := by
  refine ⟨h.lt, h.overlaps.trans hm, fun j hj hover => ?_⟩
  exact h.longest j hj (hover.nested hm (Nat.le_of_lt hj))

theorem Best.restrict (h : Best s p n m) (hlt : m < b) (hle : b ≤ n) : Best s p b m :=
  ⟨hlt, h.overlaps, fun k hk => h.longest k (Nat.lt_of_lt_of_le hk hle)⟩

/-- A candidate for the entry `c` after `s`: what goes on to a longer overlap is no longer than it. -/
structure Reach (s p : List α) (c : α) (bound m : Nat) : Prop where
  lt : m < bound
  overlaps : Overlaps s p m
  covers : ∀ k < bound, Overlaps (s ++ [c]) p (k + 1) → k ≤ m

theorem Best.reach (h : Best s p b m) (c : α) : Reach s p c b m :=
  ⟨h.lt, h.overlaps, fun k hk hover => h.longest k hk (overlaps_snoc.1 hover).1⟩

theorem Reach.fall (h : Reach s p c b m) (hc : p[m]? ≠ some c) (hk : Best (p.take m) p m k) : Reach s p c b k := by
  refine ⟨Nat.lt_trans hk.lt h.lt, hk.overlaps.trans h.overlaps, fun j hj hover => ?_⟩
  obtain ⟨hjs, hjc⟩ := overlaps_snoc.1 hover
  have hjm : j ≠ m := by
    rintro rfl
    exact hc hjc
  have hlt : j < m := Nat.lt_of_le_of_ne (h.covers j hj hover) hjm
  exact hk.longest j hlt (hjs.nested h.overlaps (Nat.le_of_lt hlt))

theorem Reach.hit (h : Reach s p c b m) (hc : p[m]? = some c) : Best (s ++ [c]) p (b + 1) (m + 1) := by
  refine ⟨Nat.succ_lt_succ h.lt, overlaps_snoc.2 ⟨h.overlaps, hc⟩, fun k hk hover => ?_⟩
  cases k with
  | zero => exact Nat.zero_le _
  | succ k => exact Nat.succ_le_succ (h.covers k (Nat.lt_of_succ_lt_succ hk) hover)

theorem Reach.miss (h : Reach s p c b 0) (hc : p[0]? ≠ some c) : Best (s ++ [c]) p (b + 1) 0 := by
  refine ⟨Nat.succ_pos b, overlaps_zero _ p, fun k hk hover => ?_⟩
  cases k with
  | zero => exact Nat.le_refl 0
  | succ k =>
    have hzero := Nat.le_zero.1 (h.covers k (Nat.lt_of_succ_lt_succ hk) hover)
    rw [hzero] at hover
    exact absurd (overlaps_snoc.1 hover).2 hc

end Border
end MyGpt
