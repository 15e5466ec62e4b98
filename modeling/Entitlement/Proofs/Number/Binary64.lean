import Entitlement.Number.Binary64
import Mathlib.Tactic.Ring

/-!
# Integers as double precision numbers

An integer of 64 bits is within the range of double precision.
-/

set_option autoImplicit false

namespace Entitlement.Binary64

theorem isFinite_assemble (negative : Bool) {magnitude : Nat} (h : magnitude < 2047 * leadingBit) :
    (assemble negative magnitude).isFinite = true := by
  have hlead : leadingBit = 4503599627370496 := rfl
  have hsign : signBit = 9223372036854775808 := rfl
  rw [hlead] at h
  have hexp : (assemble negative magnitude).biasedExponent < 2047 := by
    cases negative with
    | true =>
      have hbits : (assemble true magnitude).bits.toNat = signBit + magnitude :=
        UInt64.toNat_ofNat_of_lt' (show signBit + magnitude < 2 ^ 64 by omega)
      rw [biasedExponent, hbits, hsign, hlead]
      omega
    | false =>
      have hbits : (assemble false magnitude).bits.toNat = magnitude :=
        UInt64.toNat_ofNat_of_lt' (show magnitude < 2 ^ 64 by omega)
      rw [biasedExponent, hbits, hlead]
      omega
  simp only [isFinite, bne_iff_ne]
  omega

theorem roundQuotient_le (n d : Nat) : roundQuotient n d ≤ n / d + 1 := by
  unfold roundQuotient
  dsimp only
  split
  · omega
  · split <;> omega

theorem order_whole {n : Nat} (h : n ≠ 0) : order n 1 = n.log2 := by
  have hlog : Nat.pow 2 n.log2 ≤ n := Nat.log2_self_le h
  have hone : Nat.log2 1 = 0 := by decide
  simp only [order, scale, hone, Nat.cast_zero, Int.sub_zero, Int.natCast_nonneg, if_true,
    Int.toNat_natCast, Nat.one_mul, if_pos hlog]

/-- At the exponent of its order a whole number has a significand of 53 bits. -/
theorem scale_whole_lt {n : Nat} {e : Int} (he : e = n.log2 - 52) :
    (scale n 1 e).1 / (scale n 1 e).2 < 2 ^ 53 := by
  have hlog : n < 2 ^ (n.log2 + 1) := Nat.lt_log2_self
  unfold scale
  split
  · have hpow : 2 ^ (n.log2 + 1) = 2 ^ 53 * 2 ^ e.toNat := by
      rw [← Nat.pow_add]
      congr 1
      omega
    simp only [Nat.one_mul]
    exact Nat.div_lt_of_lt_mul (by rw [Nat.mul_comm]; exact hpow ▸ hlog)
  · have hpow : 2 ^ (n.log2 + 1) * 2 ^ (-e).toNat = 2 ^ 53 := by
      rw [← Nat.pow_add]
      congr 1
      omega
    simp only [Nat.div_one]
    calc n * 2 ^ (-e).toNat < 2 ^ (n.log2 + 1) * 2 ^ (-e).toNat :=
          Nat.mul_lt_mul_of_pos_right hlog (Nat.two_pow_pos _)
      _ = 2 ^ 53 := hpow

theorem natAbs_toInt_lt (i : Int64) : i.toInt.natAbs < 2 ^ 64 := by
  have hlow := Int64.minValue_le_toInt i
  have hhigh := Int64.toInt_le i
  have hmin : Int64.minValue.toInt = -0x8000000000000000 := rfl
  have hmax : Int64.maxValue.toInt = 0x7FFFFFFFFFFFFFFF := rfl
  omega

theorem isFinite_ofInt {i : Int} (h : i.natAbs < 2 ^ 64) : (ofInt i).isFinite = true := by
  unfold ofInt ofQuotient
  split
  · exact isFinite_assemble _ (by decide)
  · rename_i hn
    dsimp only
    generalize hexp : max (-1074) (order i.natAbs 1 - 52) = e
    rw [order_whole hn] at hexp
    have he : e = i.natAbs.log2 - 52 := by omega
    have hlog : i.natAbs.log2 < 64 := (Nat.log2_lt hn).mpr h
    have hround := roundQuotient_le (scale i.natAbs 1 e).1 (scale i.natAbs 1 e).2
    have hquot := scale_whole_lt he
    have hplaces : (e + 1074).toNat * leadingBit ≤ 1085 * leadingBit :=
      Nat.mul_le_mul_right _ (by omega)
    have hlead : leadingBit = 4503599627370496 := rfl
    rw [if_neg (by omega)]
    exact isFinite_assemble _ (by omega)

end Entitlement.Binary64
