import Mathlib.Data.List.Perm.Subperm
/-!
# Distinct — lists that grow by what is not in them yet

`adjoin` appends each element that is new.  From the empty list it is the distinct elements in the order of their first
occurrence.
-/
namespace Distinct

variable {α : Type _} [DecidableEq α]

def adjoin (acc : List α) : List α → List α
  | [] => acc
  | x :: l => adjoin (if x ∈ acc then acc else acc ++ [x]) l

theorem adjoin_append (acc l m : List α) : adjoin acc (l ++ m) = adjoin (adjoin acc l) m := by
  induction l generalizing acc with
  | nil => rfl
  | cons x l ih => exact ih _

@[simp] theorem mem_adjoin {y : α} {acc l : List α} : y ∈ adjoin acc l ↔ y ∈ acc ∨ y ∈ l := by
  induction l generalizing acc with
  | nil => simp [adjoin]
  | cons x l ih =>
    rw [adjoin, ih]
    by_cases hx : x ∈ acc
    · rw [if_pos hx, List.mem_cons]
      constructor
      · rintro (h | h)
        · exact .inl h
        · exact .inr (.inr h)
      · rintro (h | rfl | h)
        · exact .inl h
        · exact .inl hx
        · exact .inr h
    · simp [hx, or_assoc]

theorem nodup_adjoin {acc : List α} (h : acc.Nodup) (l : List α) : (adjoin acc l).Nodup := by
  induction l generalizing acc with
  | nil => exact h
  | cons x l ih =>
    refine ih ?_
    by_cases hx : x ∈ acc
    · rwa [if_pos hx]
    · rw [if_neg hx]
      refine List.nodup_append.2 ⟨h, List.pairwise_singleton _ x, ?_⟩
      rintro y hy z hz rfl
      exact hx (List.mem_singleton.1 hz ▸ hy)

theorem adjoin_eq_append {acc l : List α} (h : (acc ++ l).Nodup) : adjoin acc l = acc ++ l := by
  induction l generalizing acc with
  | nil => rw [adjoin, List.append_nil]
  | cons x l ih =>
    have hx : x ∉ acc := fun hx => (List.nodup_append.1 h).2.2 x hx x List.mem_cons_self rfl
    have hsplit : acc ++ x :: l = (acc ++ [x]) ++ l := by rw [List.append_assoc]; rfl
    rw [adjoin, if_neg hx, hsplit]
    exact ih (hsplit ▸ h)

theorem adjoin_of_nodup {l : List α} (h : l.Nodup) : adjoin [] l = l := adjoin_eq_append h

theorem prefix_adjoin (acc l : List α) : acc <+: adjoin acc l := by
  induction l generalizing acc with
  | nil => exact List.prefix_rfl
  | cons x l ih =>
    refine List.IsPrefix.trans ?_ (ih _)
    split
    · exact List.prefix_rfl
    · exact List.prefix_append acc [x]

@[simp] theorem adjoin_eq_nil {l : List α} : adjoin [] l = [] ↔ l = [] := by
  constructor
  · intro h
    refine List.eq_nil_iff_forall_not_mem.2 (fun x hx => ?_)
    have hmem : x ∈ adjoin [] l := mem_adjoin.2 (.inr hx)
    rw [h] at hmem
    cases hmem
  · rintro rfl
    rfl

theorem head?_adjoin (l : List α) : (adjoin [] l).head? = l.head? := by
  cases l with
  | nil => rfl
  | cons x l =>
    obtain ⟨rest, hrest⟩ := prefix_adjoin [x] l
    rw [adjoin, if_neg List.not_mem_nil, List.nil_append, ← hrest]
    rfl

/-- **One element before the others** changes the distinct elements unless it is their first. -/
theorem adjoin_singleton_eq_iff {x : α} {l : List α} : adjoin [x] l = adjoin [] l ↔ (adjoin [] l).head? = some x := by
  constructor
  · intro h
    obtain ⟨rest, hrest⟩ := prefix_adjoin [x] l
    rw [← h, ← hrest]
    rfl
  · intro h
    rw [head?_adjoin] at h
    obtain ⟨rest, rfl⟩ := List.head?_eq_some_iff.1 h
    rw [adjoin, if_pos (List.mem_singleton_self x), adjoin, if_neg List.not_mem_nil, List.nil_append]

theorem length_adjoin_le (acc l : List α) : (adjoin [] l).length ≤ (adjoin acc l).length := by
  have hsub : adjoin [] l ⊆ adjoin acc l := fun y hy => by
    rw [mem_adjoin] at hy ⊢
    exact .inr (hy.resolve_left List.not_mem_nil)
  exact ((nodup_adjoin List.nodup_nil l).subperm hsub).length_le

end Distinct
