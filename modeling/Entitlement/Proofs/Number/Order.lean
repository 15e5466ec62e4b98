import Entitlement.Number.Binary64
import Mathlib.Algebra.Order.Field.Power
import Mathlib.Data.Rat.Cast.Order
import Mathlib.Order.Monotone.Basic
import Mathlib.Tactic.Ring

/-!
# The order of double precision numbers

The bits below the sign, read as one number, grow with the number that they stand for. So the key
of a double orders the finite ones as rational numbers, and both zeros are one.
-/

set_option autoImplicit false

namespace Entitlement.Binary64

def toRat (x : Binary64) : ℚ :=
  (if x.isNegative then -1 else 1) * x.significand * 2 ^ x.exponent

def magnitude (x : Binary64) : Nat := x.bits.toNat % signBit

def units (m : Nat) : Nat :=
  (if m / leadingBit = 0 then m % leadingBit else leadingBit + m % leadingBit) *
    2 ^ (max 1 (m / leadingBit) - 1)

theorem leadingBit_pos : 0 < leadingBit := by decide

theorem units_lt (m : Nat) : units m < leadingBit * 2 ^ (m / leadingBit) := by
  have hfraction : m % leadingBit < leadingBit := Nat.mod_lt m leadingBit_pos
  unfold units
  by_cases h : m / leadingBit = 0
  · rw [if_pos h, h]
    simpa using hfraction
  · have hdouble : leadingBit * 2 ^ (m / leadingBit) =
        2 * leadingBit * 2 ^ (max 1 (m / leadingBit) - 1) := by
      obtain ⟨e, he⟩ := Nat.exists_eq_succ_of_ne_zero h
      rw [he, Nat.max_eq_right (by omega), Nat.succ_sub_one, Nat.pow_succ]
      ring
    rw [if_neg h, hdouble]
    exact Nat.mul_lt_mul_of_pos_right (by omega) (Nat.two_pow_pos _)

theorem le_units {m : Nat} (h : m / leadingBit ≠ 0) :
    leadingBit * 2 ^ (m / leadingBit - 1) ≤ units m := by
  unfold units
  rw [if_neg h, Nat.max_eq_right (Nat.one_le_iff_ne_zero.mpr h)]
  exact Nat.mul_le_mul_right _ (Nat.le_add_right _ _)

theorem units_strictMono : StrictMono units := by
  intro m n hmn
  have hdiv : m / leadingBit ≤ n / leadingBit := Nat.div_le_div_right hmn.le
  rcases Nat.lt_or_eq_of_le hdiv with hlt | heq
  · calc units m < leadingBit * 2 ^ (m / leadingBit) := units_lt m
      _ ≤ leadingBit * 2 ^ (n / leadingBit - 1) :=
        Nat.mul_le_mul_left _ (Nat.pow_le_pow_right (by decide) (Nat.le_sub_one_of_lt hlt))
      _ ≤ units n := le_units (Nat.ne_zero_of_lt hlt)
  · have hfraction : m % leadingBit < n % leadingBit := by
      have hm := Nat.div_add_mod m leadingBit
      have hn := Nat.div_add_mod n leadingBit
      rw [heq] at hm
      omega
    unfold units
    rw [heq]
    refine Nat.mul_lt_mul_of_pos_right ?_ (Nat.two_pow_pos _)
    split <;> omega

theorem units_zero : units 0 = 0 := rfl

variable (x y : Binary64)

theorem key_eq : x.key = if x.isNegative then -(x.magnitude : Int) else x.magnitude := by
  unfold key magnitude
  by_cases h : x.isNegative = true
  · rw [if_pos h, if_pos h]
  · rw [if_neg h, if_neg h]
    rw [isNegative, decide_eq_true_eq] at h
    rw [Nat.mod_eq_of_lt (by omega)]

theorem magnitude_div : x.magnitude / leadingBit = x.biasedExponent := by
  have hlead : leadingBit = 4503599627370496 := rfl
  have hsign : signBit = 9223372036854775808 := rfl
  rw [magnitude, biasedExponent, hlead, hsign]
  omega

theorem magnitude_mod : x.magnitude % leadingBit = x.fraction := by
  have hlead : leadingBit = 4503599627370496 := rfl
  have hsign : signBit = 9223372036854775808 := rfl
  rw [magnitude, fraction, hlead, hsign]
  omega

theorem units_magnitude : (units x.magnitude : ℚ) * 2 ^ (-1074 : Int) =
    x.significand * 2 ^ x.exponent := by
  have hexponent : x.exponent = ((max 1 x.biasedExponent - 1 : Nat) : Int) + -1074 := by
    rw [exponent]
    omega
  rw [units, magnitude_div, magnitude_mod, hexponent, zpow_add₀ two_ne_zero, zpow_natCast,
    significand]
  -- The small power is kept from being computed.
  generalize (2 : ℚ) ^ (-1074 : Int) = unit
  push_cast
  ring

theorem toRat_eq : x.toRat =
    ((if x.isNegative then -(units x.magnitude : Int) else units x.magnitude : Int) : ℚ) *
      2 ^ (-1074 : Int) := by
  unfold toRat
  by_cases h : x.isNegative = true
  · rw [if_pos h, if_pos h, Int.cast_neg, Int.cast_natCast, neg_mul, neg_mul, one_mul, neg_mul,
      units_magnitude]
  · rw [if_neg h, if_neg h, Int.cast_natCast, one_mul, units_magnitude]

/-- The key orders the numbers as what they stand for. -/
theorem key_le_iff : x.key ≤ y.key ↔ x.toRat ≤ y.toRat := by
  have hpos : (0 : ℚ) < 2 ^ (-1074 : Int) := by positivity
  rw [toRat_eq, toRat_eq, mul_le_mul_iff_left₀ hpos, Int.cast_le, key_eq, key_eq]
  have hle := units_strictMono.le_iff_le (a := x.magnitude) (b := y.magnitude)
  have hge := units_strictMono.le_iff_le (a := y.magnitude) (b := x.magnitude)
  have hx := units_strictMono.le_iff_le (a := x.magnitude) (b := 0)
  have hy := units_strictMono.le_iff_le (a := y.magnitude) (b := 0)
  rw [units_zero] at hx hy
  split <;> split <;> omega

variable {x y}

theorem not_isNaN (h : x.isFinite = true) : x.isNaN = false := by
  simp only [isFinite, bne_iff_ne] at h
  simp [isNaN, h]

/-- The larger of two finite numbers is one of them, and neither exceeds it. -/
theorem maximum_finite (hx : x.isFinite = true) (hy : y.isFinite = true) :
    (maximum x y = x ∨ maximum x y = y) ∧ x.toRat ≤ (maximum x y).toRat ∧
      y.toRat ≤ (maximum x y).toRat := by
  unfold maximum
  rw [if_neg (by simp [not_isNaN hx]), if_neg (by simp [not_isNaN hy])]
  by_cases h : x.key ≤ y.key
  · rw [if_pos h]
    exact ⟨.inr rfl, (key_le_iff x y).mp h, le_refl _⟩
  · rw [if_neg h]
    exact ⟨.inl rfl, le_refl _, (key_le_iff y x).mp (by omega)⟩

end Entitlement.Binary64
