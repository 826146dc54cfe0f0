import Mathlib.Data.List.Basic
/-!
# Lcs — the length of a longest common subsequence

`IsLcs a b k`: the longest lists that are subsequences of both `a` and `b` have length `k`.  The rules are those of the dynamic
programme, and what the lists begin or end with alike is common to all of them (`IsLcs.prepend`, `IsLcs.append`).
-/
namespace Lcs

variable {α : Type _} {a b : List α} {k l : Nat} {x y : α}

structure IsLcs (a b : List α) (k : Nat) : Prop where
  reached : ∃ s : List α, s.Sublist a ∧ s.Sublist b ∧ s.length = k
  longest : ∀ s : List α, s.Sublist a → s.Sublist b → s.length ≤ k

theorem IsLcs.unique (h : IsLcs a b k) (h' : IsLcs a b l) : k = l := by
  obtain ⟨s, hsa, hsb, hs⟩ := h.reached
  obtain ⟨t, hta, htb, ht⟩ := h'.reached
  have hle := h'.longest s hsa hsb
  have hge := h.longest t hta htb
  omega

theorem IsLcs.nil_left (b : List α) : IsLcs [] b 0 := by
  refine ⟨⟨[], List.Sublist.refl _, List.nil_sublist b, rfl⟩, fun s hs _ => ?_⟩
  rw [List.sublist_nil.1 hs]
  exact Nat.le_refl 0

theorem IsLcs.nil_right (a : List α) : IsLcs a [] 0 := by
  refine ⟨⟨[], List.nil_sublist a, List.Sublist.refl _, rfl⟩, fun s _ hs => ?_⟩
  rw [List.sublist_nil.1 hs]
  exact Nat.le_refl 0

theorem tail_sublist_of_cons {s : List α} (h : (y :: s).Sublist (x :: a)) : s.Sublist a := by
  rcases List.sublist_cons_iff.1 h with h | ⟨r, hr, hsub⟩
  · exact (List.sublist_cons_self y s).trans h
  · rw [List.cons.injEq] at hr
    exact hr.2 ▸ hsub

theorem IsLcs.cons_same (h : IsLcs a b k) (x : α) : IsLcs (x :: a) (x :: b) (k + 1) := by
  obtain ⟨s, hsa, hsb, hs⟩ := h.reached
  refine ⟨⟨x :: s, hsa.cons_cons x, hsb.cons_cons x, by rw [List.length_cons, hs]⟩, fun t hta htb => ?_⟩
  cases t with
  | nil => exact Nat.zero_le _
  | cons z t => exact Nat.succ_le_succ (h.longest t (tail_sublist_of_cons hta) (tail_sublist_of_cons htb))

theorem sublist_of_ne {s : List α} (hne : x ≠ y) (ha : s.Sublist (x :: a)) (hb : s.Sublist (y :: b)) :
    s.Sublist a ∨ s.Sublist b := by
  rcases List.sublist_cons_iff.1 ha with h | ⟨r, rfl, -⟩
  · exact .inl h
  · rcases List.sublist_cons_iff.1 hb with h | ⟨r', hr', -⟩
    · exact .inr h
    · exact absurd (List.cons.inj hr').1 hne

theorem IsLcs.drop_left (hne : x ≠ y) (h : IsLcs a (y :: b) k) (h' : IsLcs (x :: a) b l) (hle : l ≤ k) :
    IsLcs (x :: a) (y :: b) k := by
  obtain ⟨s, hsa, hsb, hs⟩ := h.reached
  refine ⟨⟨s, hsa.cons x, hsb, hs⟩, fun t hta htb => ?_⟩
  rcases sublist_of_ne hne hta htb with ht | ht
  · exact h.longest t ht htb
  · exact Nat.le_trans (h'.longest t hta ht) hle

theorem IsLcs.drop_right (hne : x ≠ y) (h : IsLcs a (y :: b) k) (h' : IsLcs (x :: a) b l) (hle : k ≤ l) :
    IsLcs (x :: a) (y :: b) l := by
  obtain ⟨s, hsa, hsb, hs⟩ := h'.reached
  refine ⟨⟨s, hsa, hsb.cons y, hs⟩, fun t hta htb => ?_⟩
  rcases sublist_of_ne hne hta htb with ht | ht
  · exact Nat.le_trans (h.longest t ht htb) hle
  · exact h'.longest t hta ht

theorem IsLcs.prepend (h : IsLcs a b k) : ∀ p : List α, IsLcs (p ++ a) (p ++ b) (p.length + k)
  | [] => by rwa [List.length_nil, Nat.zero_add]
  | x :: p => by
    have hrest := (h.prepend p).cons_same x
    rwa [List.length_cons, Nat.add_right_comm]

theorem IsLcs.reverse (h : IsLcs a b k) : IsLcs a.reverse b.reverse k := by
  obtain ⟨s, hsa, hsb, hs⟩ := h.reached
  refine ⟨⟨s.reverse, hsa.reverse, hsb.reverse, by rw [List.length_reverse, hs]⟩, fun t hta htb => ?_⟩
  have hle := h.longest t.reverse (by simpa using hta.reverse) (by simpa using htb.reverse)
  rwa [List.length_reverse] at hle

theorem IsLcs.append (h : IsLcs a b k) (s : List α) : IsLcs (a ++ s) (b ++ s) (k + s.length) := by
  have hback := (h.reverse.prepend s.reverse).reverse
  rwa [List.reverse_append, List.reverse_append, List.reverse_reverse, List.reverse_reverse, List.reverse_reverse,
    List.length_reverse, Nat.add_comm] at hback

end Lcs
