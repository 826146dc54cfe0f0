import Mathlib.Tactic.Ring
import Mathlib.Tactic.Linarith
/-!
# Binary — binary numbers of a fixed precision

A number of `p` significant bits is an integer multiple of a unit, the least positive number of the format.  Sums and
differences are rounded to the nearest number, ties to even, and are off by at most one part in `2 ^ p` (`add_error`).  A `Number` is an
integer or a double: integers subtract exactly, and as soon as a double takes part both are doubles.
-/
namespace Binary

/-- The nearest number of `p` significant bits, ties to even. -/
def roundNat (p n : Nat) : Nat :=
  let s := n.log2 + 1 - p
  let q := n / 2 ^ s
  let r := n % 2 ^ s
  if 2 * r < 2 ^ s ∨ (2 * r = 2 ^ s ∧ q % 2 = 0) then q * 2 ^ s else (q + 1) * 2 ^ s

def Representable (p n : Nat) : Prop := ∃ m e, m ≤ 2 ^ p ∧ n = m * 2 ^ e

theorem representable_roundNat (p n : Nat) : Representable p (roundNat p n) := by
  have hq : n / 2 ^ (n.log2 + 1 - p) < 2 ^ p := by
    rw [Nat.div_lt_iff_lt_mul (Nat.two_pow_pos _), ← Nat.pow_add]
    exact Nat.lt_log2_self.trans_le (Nat.pow_le_pow_right (by decide) (by omega))
  unfold roundNat
  dsimp only
  split
  · exact ⟨_, _, Nat.le_of_lt hq, rfl⟩
  · exact ⟨_, _, hq, rfl⟩

theorem roundNat_error (p n : Nat) : 2 ^ p * (roundNat p n - n : Int).natAbs ≤ n := by
  rcases eq_or_ne n 0 with rfl | hn
  · simp [roundNat]
  set s := n.log2 + 1 - p with hs
  have hsplit := Nat.div_add_mod n (2 ^ s)
  have hlt := Nat.mod_lt n (Nat.two_pow_pos s)
  have herr : 2 * (roundNat p n - n : Int).natAbs ≤ 2 ^ s ∧ (s = 0 → roundNat p n = n) := by
    have hround : roundNat p n = if 2 * (n % 2 ^ s) < 2 ^ s ∨ (2 * (n % 2 ^ s) = 2 ^ s ∧ n / 2 ^ s % 2 = 0) then n / 2 ^ s * 2 ^ s
        else (n / 2 ^ s + 1) * 2 ^ s := rfl
    rw [Nat.mul_comm] at hsplit
    rw [hround]
    constructor
    · split
      · omega
      · rw [Nat.add_mul, Nat.one_mul]
        omega
    · intro h0
      rw [h0, Nat.pow_zero] at hlt hsplit ⊢
      rw [if_pos (by omega)]
      omega
  rcases Nat.eq_zero_or_pos s with h0 | hpos
  · rw [herr.2 h0]
    simp
  · have hpow : 2 ^ p * 2 ^ s = 2 * 2 ^ n.log2 := by
      rw [← Nat.pow_add, ← Nat.pow_succ']
      congr 1
      omega
    have hle := Nat.log2_self_le hn
    have hmul := Nat.mul_le_mul_left (2 ^ p) herr.1
    linarith

theorem roundNat_of_representable {p n : Nat} (hp : 0 < p) (h : Representable p n) : roundNat p n = n := by
  obtain ⟨m, e, hm, rfl⟩ := h
  rcases Nat.eq_zero_or_pos m with rfl | hpos
  · simp [roundNat]
  have hne : m * 2 ^ e ≠ 0 := (Nat.mul_pos hpos (Nat.two_pow_pos e)).ne'
  have hlog := Nat.log2_self_le hne
  have hle : m * 2 ^ e ≤ 2 ^ (p + e) := by
    rw [Nat.pow_add]
    exact Nat.mul_le_mul_right _ hm
  have hdvd : 2 ^ ((m * 2 ^ e).log2 + 1 - p) ∣ m * 2 ^ e := by
    by_cases hs : (m * 2 ^ e).log2 + 1 - p ≤ e
    · exact (Nat.pow_dvd_pow 2 hs).mul_left m
    · -- the mantissa is `2 ^ p`, a bit longer than the others
      have hge : 2 ^ (p + e) ≤ m * 2 ^ e := (Nat.pow_le_pow_right (by decide) (by omega)).trans hlog
      have htop : (m * 2 ^ e).log2 ≤ p + e := (Nat.pow_le_pow_iff_right (by decide)).1 (hlog.trans hle)
      rw [le_antisymm hle hge] at htop ⊢
      exact Nat.pow_dvd_pow 2 (by omega)
  unfold roundNat
  dsimp only
  rw [Nat.mod_eq_zero_of_dvd hdvd, if_pos (Or.inl (Nat.two_pow_pos _)), Nat.div_mul_cancel hdvd]

end Binary

/-- A number of `p` significant bits. -/
structure Binary (p : Nat) where
  units : Int
  precise : Binary.Representable p units.natAbs

namespace Binary

variable {p : Nat}

def round (p : Nat) (z : Int) : Binary p where
  units := z.sign * roundNat p z.natAbs
  precise := by
    rcases lt_trichotomy z 0 with h | rfl | h
    · rw [Int.sign_eq_neg_one_of_neg h, Int.neg_one_mul, Int.natAbs_neg, Int.natAbs_natCast]
      exact representable_roundNat p _
    · exact ⟨0, 0, Nat.zero_le _, by simp⟩
    · rw [Int.sign_eq_one_of_pos h, Int.one_mul, Int.natAbs_natCast]
      exact representable_roundNat p _

theorem round_error (p : Nat) (z : Int) : 2 ^ p * ((round p z).units - z).natAbs ≤ z.natAbs := by
  have herr := roundNat_error p z.natAbs
  rcases lt_trichotomy z 0 with h | rfl | h
  · have hz : (round p z).units - z = -((roundNat p z.natAbs : Int) - z.natAbs) := by
      show z.sign * (roundNat p z.natAbs : Int) - z = _
      rw [Int.sign_eq_neg_one_of_neg h]
      omega
    rw [hz, Int.natAbs_neg]
    exact herr
  · simp [round]
  · have hz : (round p z).units - z = (roundNat p z.natAbs : Int) - z.natAbs := by
      show z.sign * (roundNat p z.natAbs : Int) - z = _
      rw [Int.sign_eq_one_of_pos h]
      omega
    rw [hz]
    exact herr

theorem round_units (hp : 0 < p) (x : Binary p) : (round p x.units).units = x.units := by
  show x.units.sign * (roundNat p x.units.natAbs : Int) = x.units
  rw [roundNat_of_representable hp x.precise]
  exact Int.sign_mul_natAbs x.units

instance : Zero (Binary p) := ⟨⟨0, 0, 0, Nat.zero_le _, rfl⟩⟩
instance : Add (Binary p) := ⟨fun a b => round p (a.units + b.units)⟩
instance : Sub (Binary p) := ⟨fun a b => round p (a.units - b.units)⟩
instance : LE (Binary p) := ⟨fun a b => a.units ≤ b.units⟩
instance : LT (Binary p) := ⟨fun a b => a.units < b.units⟩
instance (a b : Binary p) : Decidable (a ≤ b) := inferInstanceAs (Decidable (a.units ≤ b.units))
instance (a b : Binary p) : Decidable (a < b) := inferInstanceAs (Decidable (a.units < b.units))

theorem add_error (a b : Binary p) : 2 ^ p * ((a + b).units - (a.units + b.units)).natAbs ≤ (a.units + b.units).natAbs :=
  round_error p _

theorem sub_error (a b : Binary p) : 2 ^ p * ((a - b).units - (a.units - b.units)).natAbs ≤ (a.units - b.units).natAbs :=
  round_error p _

/-- `m * 2 ^ e` units, for a mantissa that fits. -/
def ofMantissa (m e : Nat) (h : m ≤ 2 ^ p) : Binary p := ⟨(m * 2 ^ e : Nat), m, e, h, rfl⟩

end Binary

/-! ## integers and doubles in one arithmetic -/

inductive Number
  | int (n : Int)
  | float (x : Binary 53)

namespace Number

def one : Int := 2 ^ 1074

def worth : Number → Int
  | .int n => n * one
  | .float x => x.units

def toFloat : Number → Binary 53
  | .int n => Binary.round 53 (n * one)
  | .float x => x

protected def sub : Number → Number → Number
  | .int m, .int n => .int (m - n)
  | a, b => .float (a.toFloat - b.toFloat)

instance : Zero Number := ⟨.int 0⟩
instance : Sub Number := ⟨Number.sub⟩
instance : LE Number := ⟨fun a b => a.worth ≤ b.worth⟩
instance : LT Number := ⟨fun a b => a.worth < b.worth⟩
instance (a b : Number) : Decidable (a ≤ b) := inferInstanceAs (Decidable (a.worth ≤ b.worth))
instance (a b : Number) : Decidable (a < b) := inferInstanceAs (Decidable (a.worth < b.worth))

@[simp] theorem worth_zero : worth 0 = 0 := by
  show (0 : Int) * one = 0
  exact Int.zero_mul _

theorem worth_int_sub (m n : Int) : (int m - int n).worth = (int m).worth - (int n).worth := Int.sub_mul m n one

theorem worth_sub_of_eq {a b : Number} (h : a.worth = b.worth) : (a - b).worth = 0 := by
  have hfloat : ∀ v : Number, ∀ x : Binary 53, v.worth = x.units → v.toFloat.units = x.units := by
    intro v x hv
    cases v with
    | int n =>
      show (Binary.round 53 (int n).worth).units = x.units
      rw [hv]
      exact Binary.round_units (by decide) x
    | float y => exact hv
  have hround : ∀ x y : Binary 53, x.units = y.units → (x - y).units = 0 := by
    intro x y hxy
    show (Binary.round 53 (x.units - y.units)).units = 0
    rw [hxy, Int.sub_self]
    rfl
  cases a with
  | int m =>
    cases b with
    | int n =>
      rw [worth_int_sub, h, Int.sub_self]
    | float y => exact hround _ _ (hfloat (int m) y h)
  | float x => exact hround _ _ (hfloat b x h.symm).symm

end Number
