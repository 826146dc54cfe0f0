import Mathlib.Data.List.Basic
/-!
# Greedy — a list thinned out in one pass

`keep` goes through a list and keeps an element unless it is to be skipped or is near one that was kept before it.  What it
keeps is a sublist without neighbours, and whatever it drops is skipped or near something kept further in front
(`keep_dropped`).
-/
namespace Greedy

variable {α β : Type _}

def keep (skip : α → Bool) (near : α → α → Bool) (kept : List α) : List α → List α
  | [] => []
  | x :: l => if skip x || kept.any (near x) then keep skip near kept l else x :: keep skip near (kept ++ [x]) l

variable {skip : α → Bool} {near : α → α → Bool}

theorem keep_sublist (kept l : List α) : (keep skip near kept l).Sublist l := by
  induction l generalizing kept with
  | nil => exact List.Sublist.refl []
  | cons x l ih =>
    unfold keep
    split
    · exact (ih kept).cons x
    · exact (ih (kept ++ [x])).cons_cons x

theorem keep_apart {x : α} (l kept : List α) (hx : x ∈ keep skip near kept l) :
    skip x = false ∧ ∀ y ∈ kept, near x y = false := by
  induction l generalizing kept with
  | nil => cases hx
  | cons z l ih =>
    unfold keep at hx
    split at hx
    · exact ih kept hx
    · rename_i hz
      rcases List.mem_cons.1 hx with rfl | hx
      · simpa [Bool.or_eq_true] using hz
      · obtain ⟨hskip, hfar⟩ := ih (kept ++ [z]) hx
        exact ⟨hskip, fun y hy => hfar y (List.mem_append_left _ hy)⟩

theorem keep_pairwise (kept l : List α) : (keep skip near kept l).Pairwise (fun x y => near y x = false) := by
  induction l generalizing kept with
  | nil => exact List.Pairwise.nil
  | cons x l ih =>
    unfold keep
    split
    · exact ih kept
    · refine List.pairwise_cons.2 ⟨fun y hy => ?_, ih (kept ++ [x])⟩
      exact (keep_apart l (kept ++ [x]) hy).2 x (by simp)

theorem keep_dropped {x : α} (before after kept : List α) :
    x ∈ keep skip near kept (before ++ x :: after) ∨ skip x = true ∨ (∃ y ∈ kept, near x y = true) ∨
      ∃ y ∈ before, y ∈ keep skip near kept (before ++ x :: after) ∧ near x y = true := by
  induction before generalizing kept with
  | nil =>
    rw [List.nil_append, keep]
    split
    · rename_i hx
      rcases Bool.or_eq_true_iff.1 hx with hx | hx
      · exact .inr (.inl hx)
      · exact .inr (.inr (.inl (List.any_eq_true.1 hx)))
    · exact .inl List.mem_cons_self
  | cons z before ih =>
    rw [List.cons_append, keep]
    split
    · rcases ih kept with h | h | h | ⟨y, hy, hmem, hnear⟩
      · exact .inl h
      · exact .inr (.inl h)
      · exact .inr (.inr (.inl h))
      · exact .inr (.inr (.inr ⟨y, List.mem_cons_of_mem z hy, hmem, hnear⟩))
    · rcases ih (kept ++ [z]) with h | h | ⟨y, hy, hnear⟩ | ⟨y, hy, hmem, hnear⟩
      · exact .inl (List.mem_cons_of_mem z h)
      · exact .inr (.inl h)
      · rcases List.mem_append.1 hy with hy | hy
        · exact .inr (.inr (.inl ⟨y, hy, hnear⟩))
        · obtain rfl := List.mem_singleton.1 hy
          exact .inr (.inr (.inr ⟨y, List.mem_cons_self, List.mem_cons_self, hnear⟩))
      · exact .inr (.inr (.inr ⟨y, List.mem_cons_of_mem z hy, List.mem_cons_of_mem z hmem, hnear⟩))

theorem keep_map {skip : β → Bool} {near : β → β → Bool} (f : α → β) (kept l : List α) :
    keep skip near (kept.map f) (l.map f) =
      (keep (fun x => skip (f x)) (fun x y => near (f x) (f y)) kept l).map f := by
  induction l generalizing kept with
  | nil => rfl
  | cons x l ih =>
    have hany : (kept.map f).any (near (f x)) = kept.any (fun y => near (f x) (f y)) := List.any_map
    have hrest := ih (kept ++ [x])
    rw [List.map_append, List.map_singleton] at hrest
    rw [List.map_cons, keep, keep, hany]
    by_cases hx : (skip (f x) || kept.any (fun y => near (f x) (f y))) = true
    · rw [if_pos hx, if_pos hx, ih kept]
    · rw [if_neg hx, if_neg hx, List.map_cons, hrest]

end Greedy
