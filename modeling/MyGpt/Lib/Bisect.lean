import Mathlib.Order.Defs.LinearOrder
/-!
# Bisect — the largest number that fits

`search` halves an interval and keeps the last middle that fitted.  For a condition that every smaller number inherits
it finds the largest one (`largest_spec`).
-/
namespace Bisect

variable (fits : Nat → Bool)

def search : Nat → Nat → Int → Option Nat → Option Nat
  | 0, _, _, best => best
  | fuel + 1, low, high, best =>
    if (low : Int) ≤ high then
      let middle := ((low + high) / 2).toNat
      if fits middle then search fuel (middle + 1) high (some middle) else search fuel low (middle - 1) best
    else best

/-- The largest number up to `len` that fits. -/
def largest (len : Nat) : Option Nat := search fits (len + 1) 0 len none

variable {fits}

/-- Between `low` and `high` nothing is decided; below everything fits, above nothing. -/
structure Bounds (fits : Nat → Bool) (len low : Nat) (high : Int) (best : Option Nat) : Prop where
  ordered : (low : Int) ≤ high + 1
  bounded : high ≤ len
  above : ∀ m, m ≤ len → high < m → fits m = false
  below : (best = none ∧ low = 0) ∨ ∃ n, best = some n ∧ low = n + 1 ∧ fits n = true

structure Largest (fits : Nat → Bool) (len : Nat) (best : Option Nat) : Prop where
  none : best = none → ∀ m, m ≤ len → fits m = false
  some : ∀ n, best = some n → n ≤ len ∧ fits n = true ∧ ∀ m, m ≤ len → fits m = true → m ≤ n

theorem Bounds.largest {len low : Nat} {high : Int} {best : Option Nat} (h : Bounds fits len low high best)
    (hdone : high < low) : Largest fits len best := by
  have hordered := h.ordered
  have hbounded := h.bounded
  rcases h.below with ⟨rfl, rfl⟩ | ⟨n, rfl, rfl, hfits⟩
  · exact ⟨fun _ m hm => h.above m hm (by omega), nofun⟩
  · refine ⟨nofun, fun k hk => ?_⟩
    cases hk
    refine ⟨by omega, hfits, fun m hm hfit => ?_⟩
    by_contra hlt
    have hno := h.above m hm (by omega)
    rw [hfit] at hno
    cases hno

theorem search_largest {len : Nat} (hanti : ∀ m n, n ≤ m → fits m = true → fits n = true) :
    ∀ {fuel low : Nat} {high : Int} {best : Option Nat}, Bounds fits len low high best → high + 1 - low ≤ fuel →
    Largest fits len (search fits fuel low high best) := by
  intro fuel
  induction fuel with
  | zero =>
    intro low high best h hfuel
    exact h.largest (by omega)
  | succ fuel ih =>
    intro low high best h hfuel
    unfold search
    have hbounded := h.bounded
    split
    · rename_i hopen
      dsimp only
      generalize hmiddle : (((low : Int) + high) / 2).toNat = middle
      have hlow : low ≤ middle := by omega
      have hhigh : (middle : Int) ≤ high := by omega
      split
      · rename_i hfits
        exact ih ⟨by omega, hbounded, h.above, .inr ⟨middle, rfl, rfl, hfits⟩⟩ (by omega)
      · rename_i hfits
        refine ih ⟨by omega, by omega, fun m hm hlt => ?_, h.below⟩ (by omega)
        by_contra hfit
        exact hfits (hanti m middle (by omega) ((Bool.not_eq_false _).mp hfit))
    · exact h.largest (by omega)

theorem largest_spec (hanti : ∀ m n, n ≤ m → fits m = true → fits n = true) (len : Nat) :
    Largest fits len (largest fits len) := by
  refine search_largest hanti ⟨by omega, Int.le_refl _, fun m hm hlt => ?_, .inl ⟨rfl, rfl⟩⟩ (by omega)
  omega

end Bisect
