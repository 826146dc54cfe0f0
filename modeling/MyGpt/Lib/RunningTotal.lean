import Mathlib.Algebra.BigOperators.Group.List.Basic
/-!
# RunningTotal — journals whose entries carry the total so far

An append-only journal gives each entry an amount and stamps it with the total of the amounts up to and including it.
What appending one entry does to the total, to the total over the entries of a kind, and to the stamps.
-/
namespace RunningTotal

variable {α M : Type*} [AddMonoid M]

def total (amount : α → M) (l : List α) : M := (l.map amount).sum

@[simp] theorem total_nil (amount : α → M) : total amount [] = 0 := rfl

@[simp] theorem total_append (amount : α → M) (l m : List α) :
    total amount (l ++ m) = total amount l + total amount m := by
  simp [total]

@[simp] theorem total_singleton (amount : α → M) (x : α) : total amount [x] = amount x := by
  simp [total]

/-- **Every entry is stamped with the total up to and including itself.** -/
def Stamped (amount stamp : α → M) (l : List α) : Prop :=
  ∀ pre x post, l = pre ++ x :: post → stamp x = total amount (pre ++ [x])

theorem stamped_nil (amount stamp : α → M) : Stamped amount stamp [] := by
  intro pre x post h
  simp at h

/-- **Appending an entry keeps the stamps right** when it is stamped with the total it brings the journal to. -/
theorem Stamped.concat {amount stamp : α → M} {l : List α} (h : Stamped amount stamp l) {x : α}
    (hx : stamp x = total amount l + amount x) : Stamped amount stamp (l ++ [x]) := by
  intro pre y post e
  rcases List.eq_nil_or_concat post with rfl | ⟨post', z, rfl⟩
  · obtain ⟨rfl, hy⟩ := List.append_inj' e rfl
    obtain rfl : x = y := by simpa using hy
    rw [hx, total_append, total_singleton]
  · have e' : l ++ [x] = (pre ++ y :: post') ++ [z] := by rw [e]; simp
    exact h pre y post' (List.append_inj' e' rfl).1

theorem total_filter_concat (amount : α → M) (p : α → Bool) (l : List α) (x : α) :
    total amount ((l ++ [x]).filter p) = total amount (l.filter p) + if p x then amount x else 0 := by
  rw [List.filter_append, total_append]
  by_cases hp : p x
  · simp [hp]
  · simp [hp]

end RunningTotal
