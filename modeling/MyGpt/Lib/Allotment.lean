import Mathlib.Algebra.Order.Group.Defs
import Mathlib.Algebra.Order.BigOperators.Group.List
import Mathlib.Order.Interval.Set.Basic
import Mathlib.Tactic.Abel
/-!
# Allotment — a growing quantity handed out in parts

Each part begins where a reading of the quantity stood.  The parts allot what lies between a base and the latest reading
when they add up to it and each unit is in one part (`Exactly`); a part that begins at the latest reading keeps that just
when it is what the reading grew by (`Exactly.concat_iff`).
-/
namespace Allotment

variable {G : Type*} [AddCommGroup G] [LinearOrder G]

structure Part (G : Type*) where
  start : G
  amount : G

def Part.units (p : Part G) : Set G := Set.Ioc p.start (p.start + p.amount)

/-- **Allotted exactly once**, between `base` and `last`. -/
structure Exactly (base last : G) (parts : List (Part G)) : Prop where
  total : (parts.map (·.amount)).sum = last - base
  inside : ∀ p ∈ parts, p.units ⊆ Set.Ioc base last
  once : parts.Pairwise (fun p q => ∀ u ∈ p.units, u ∉ q.units)
  lossless : ∀ u ∈ Set.Ioc base last, ∃ p ∈ parts, u ∈ p.units

theorem exactly_nil (base : G) : Exactly base base [] where
  total := (sub_self base).symm
  inside := nofun
  once := .nil
  lossless _ hu := absurd (hu.1.trans_le hu.2) (lt_irrefl base)

variable {base last : G} {parts : List (Part G)}

omit [LinearOrder G] in
theorem sum_concat (parts : List (Part G)) (p : Part G) :
    ((parts ++ [p]).map (·.amount)).sum = (parts.map (·.amount)).sum + p.amount := by
  simp

theorem Exactly.amount_eq (h : Exactly base last parts) {p : Part G} {next : G} (h' : Exactly base next (parts ++ [p])) :
    p.amount = next - last := by
  have htotal := h'.total
  rw [sum_concat, h.total] at htotal
  calc p.amount = (last - base + p.amount) - (last - base) := by abel
    _ = next - last := by rw [htotal]; abel

variable [IsOrderedAddMonoid G]

theorem Exactly.concat (h : Exactly base last parts) (hbase : base ≤ last) {amount : G} (hamount : 0 ≤ amount) :
    Exactly base (last + amount) (parts ++ [⟨last, amount⟩]) where
  total := by
    rw [sum_concat, h.total]
    abel
  inside := by
    intro p hp
    rcases List.mem_append.1 hp with hp | hp
    · exact (h.inside p hp).trans (Set.Ioc_subset_Ioc_right (le_add_of_nonneg_right hamount))
    · obtain rfl := List.mem_singleton.1 hp
      exact Set.Ioc_subset_Ioc_left hbase
  once := by
    refine List.pairwise_append.2 ⟨h.once, List.pairwise_singleton _ _, fun p hp q hq => ?_⟩
    obtain rfl := List.mem_singleton.1 hq
    exact fun u hu hu' => absurd (h.inside p hp hu).2 (not_le_of_gt hu'.1)
  lossless := by
    intro u hu
    rcases le_or_gt u last with hle | hgt
    · obtain ⟨p, hp, hup⟩ := h.lossless u ⟨hu.1, hle⟩
      exact ⟨p, List.mem_append_left _ hp, hup⟩
    · exact ⟨_, List.mem_append_right _ (List.mem_singleton.2 rfl), hgt, hu.2⟩

/-- **A part from the latest reading on keeps the allotment just when it is what the reading grew by.** -/
theorem Exactly.concat_iff (h : Exactly base last parts) (hbase : base ≤ last) {amount : G} (hamount : 0 ≤ amount) (next : G) :
    Exactly base next (parts ++ [⟨last, amount⟩]) ↔ amount = next - last := by
  refine ⟨fun h' => h.amount_eq h', fun he => ?_⟩
  have hnext : next = last + amount := by rw [he, add_sub_cancel]
  rw [hnext]
  exact h.concat hbase hamount

theorem Exactly.base_le (h : Exactly base last parts) (hparts : ∀ p ∈ parts, 0 ≤ p.amount) : base ≤ last := by
  rw [← sub_nonneg, ← h.total]
  refine List.sum_nonneg (fun amount hmem => ?_)
  obtain ⟨p, hp, rfl⟩ := List.mem_map.1 hmem
  exact hparts p hp

end Allotment
