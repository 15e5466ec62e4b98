import Entitlement.Proofs.Number.Binary64
import Entitlement.Proofs.Number.Order
import Mathlib.Algebra.Order.Field.Basic
import Mathlib.Data.Int.Cast.Lemmas
import Mathlib.Data.Nat.Cast.Field
import Mathlib.Tactic.FieldSimp
import Mathlib.Tactic.Linarith

/-!
# The nearest double precision number

Rounding a quotient gives a number that no other is nearer to, and of two that are equally near the
one with the even significand. A quotient that is itself the value of some double is kept.
-/

set_option autoImplicit false

namespace Entitlement.Binary64

/-- The rounded quotient is off by half a unit at most, and where it is off by that much it is
even. -/
theorem roundQuotient_error (n : Nat) {d : Nat} (hd : 0 < d) :
    2 * (roundQuotient n d * d - n : Int).natAbs ≤ d ∧
      (2 * (roundQuotient n d * d - n : Int).natAbs = d → roundQuotient n d % 2 = 0) := by
  have hn : n / d * d + n % d = n := Nat.div_add_mod' n d
  have hlt : n % d < d := Nat.mod_lt n hd
  have hsucc : (n / d + 1) * d = n / d * d + d := Nat.succ_mul _ _
  have hfloor : 2 * (n % d) ≤ d → 2 * ((n / d : Nat) * d - n : Int).natAbs = 2 * (n % d) := by
    omega
  have hceil : d ≤ 2 * (n % d) →
      2 * ((n / d + 1 : Nat) * d - n : Int).natAbs = 2 * (d - n % d) := by
    omega
  unfold roundQuotient
  dsimp only
  split
  · omega
  · split
    · omega
    · rcases Nat.mod_two_eq_zero_or_one (n / d) with even | odd
      · rw [even, Nat.add_zero]
        omega
      · rw [odd]
        omega

/-- No integer is nearer to a quotient than the rounded one. If another is as near, the rounded one
is even. -/
theorem roundQuotient_nearest (n : Nat) {d : Nat} (hd : 0 < d) (k : Int) :
    (roundQuotient n d * d - n : Int).natAbs < (k * d - n).natAbs ∨
      ((roundQuotient n d * d - n : Int).natAbs = (k * d - n).natAbs ∧
        (k = roundQuotient n d ∨ roundQuotient n d % 2 = 0)) := by
  obtain ⟨half, even⟩ := roundQuotient_error n hd
  generalize roundQuotient n d = r at half even
  by_cases h : k = r
  · rw [h]
    exact .inr ⟨rfl, .inl rfl⟩
  · have hk : k * d = r * d + (k - r) * d := by ring
    have apart : (d : Int) ≤ (k - r) * d ∨ (k - r) * d ≤ -d := by
      rcases Int.lt_or_gt_of_ne h with below | above
      · exact .inr (by nlinarith)
      · exact .inl (by nlinarith)
    omega

theorem scale_snd_pos (n : Nat) {d : Nat} (hd : 0 < d) (e : Int) : 0 < (scale n d e).2 := by
  unfold scale
  split
  · exact Nat.mul_pos hd (Nat.two_pow_pos _)
  · exact hd

/-- Scaling counts a quotient in units of a power of two. -/
theorem scale_ratio (n : Nat) {d : Nat} (hd : 0 < d) (e : Int) :
    ((scale n d e).1 : ℚ) / (scale n d e).2 * 2 ^ e = n / d := by
  have hd' : (d : ℚ) ≠ 0 := by positivity
  unfold scale
  split
  · next h =>
    obtain ⟨k, rfl⟩ := Int.eq_ofNat_of_zero_le h
    have hpow : ((Nat.pow 2 k : Nat) : ℚ) = 2 ^ k := Nat.cast_pow 2 k
    simp only [Int.toNat_natCast, Nat.cast_mul, hpow, zpow_natCast]
    field_simp
  · next h =>
    obtain ⟨k, hk⟩ := Int.eq_ofNat_of_zero_le (show 0 ≤ -e by omega)
    have hpow : ((Nat.pow 2 k : Nat) : ℚ) = 2 ^ k := Nat.cast_pow 2 k
    obtain rfl : e = -(k : Int) := by omega
    simp only [neg_neg, Int.toNat_natCast, Nat.cast_mul, hpow, zpow_neg, zpow_natCast]
    field_simp

/-- The order of a quotient is that of the powers of two it lies between. -/
theorem order_bounds {n d : Nat} (hn : n ≠ 0) (hd : d ≠ 0) :
    (2 : ℚ) ^ order n d ≤ n / d ∧ (n : ℚ) / d < 2 ^ (order n d + 1) := by
  have hdpos : (0 : ℚ) < d := by positivity
  have nlow : (2 : ℚ) ^ n.log2 ≤ n := by exact_mod_cast Nat.log2_self_le hn
  have nhigh : (n : ℚ) < 2 ^ (n.log2 + 1) := by exact_mod_cast Nat.lt_log2_self
  have dlow : (2 : ℚ) ^ d.log2 ≤ d := by exact_mod_cast Nat.log2_self_le hd
  have dhigh : (d : ℚ) < 2 ^ (d.log2 + 1) := by exact_mod_cast Nat.lt_log2_self
  generalize hk : (n.log2 : Int) - d.log2 = k
  have low : (2 : ℚ) ^ (k - 1) ≤ n / d := by
    rw [le_div_iff₀ hdpos]
    calc (2 : ℚ) ^ (k - 1) * d ≤ 2 ^ (k - 1) * 2 ^ (d.log2 + 1) := by gcongr
      _ = 2 ^ n.log2 := by
        rw [← zpow_natCast, ← zpow_natCast, ← zpow_add₀ two_ne_zero]
        congr 1
        push_cast
        omega
      _ ≤ n := nlow
  have high : (n : ℚ) / d < 2 ^ (k + 1) := by
    rw [div_lt_iff₀ hdpos]
    calc (n : ℚ) < 2 ^ (n.log2 + 1) := nhigh
      _ = 2 ^ (k + 1) * 2 ^ d.log2 := by
        rw [← zpow_natCast, ← zpow_natCast, ← zpow_add₀ two_ne_zero]
        congr 1
        push_cast
        omega
      _ ≤ 2 ^ (k + 1) * d := by gcongr
  have scaled : (scale n d k).2 ≤ (scale n d k).1 ↔ (2 : ℚ) ^ k ≤ n / d := by
    have hpos : (0 : ℚ) < (scale n d k).2 :=
      Nat.cast_pos.mpr (scale_snd_pos n (Nat.pos_of_ne_zero hd) k)
    rw [← scale_ratio n (Nat.pos_of_ne_zero hd) k, le_mul_iff_one_le_left (by positivity),
      one_le_div hpos, Nat.cast_le]
  unfold order
  rw [hk]
  dsimp only
  split
  · next h => exact ⟨scaled.mp h, high⟩
  · next h =>
    rw [scaled, not_le] at h
    exact ⟨low, by rwa [sub_add_cancel]⟩

theorem bits_assemble (negative : Bool) {m : Nat} (h : m < 2047 * leadingBit) :
    (assemble negative m).bits.toNat = if negative then signBit + m else m := by
  have hlead : leadingBit = 4503599627370496 := rfl
  have hsign : signBit = 9223372036854775808 := rfl
  exact UInt64.toNat_ofNat_of_lt' (show (if negative then _ else _) < 2 ^ 64 by split <;> omega)

theorem isNegative_assemble (negative : Bool) {m : Nat} (h : m < 2047 * leadingBit) :
    (assemble negative m).isNegative = negative := by
  have hlead : leadingBit = 4503599627370496 := rfl
  have hsign : signBit = 9223372036854775808 := rfl
  rw [isNegative, bits_assemble negative h]
  cases negative with
  | true => simp
  | false =>
    simp only [Bool.false_eq_true, if_false, decide_eq_false_iff_not]
    omega

theorem magnitude_assemble (negative : Bool) {m : Nat} (h : m < 2047 * leadingBit) :
    (assemble negative m).magnitude = m := by
  have hlead : leadingBit = 4503599627370496 := rfl
  have hsign : signBit = 9223372036854775808 := rfl
  rw [magnitude, bits_assemble negative h, hsign]
  split <;> omega

/-- A significand above an exponent is what they stand for, also where the significand is carried
into the exponent. -/
theorem units_add {k r : Nat} (high : r ≤ 2 * leadingBit) (low : k = 0 ∨ leadingBit ≤ r) :
    units (k * leadingBit + r) = r * 2 ^ k := by
  have hpos := leadingBit_pos
  rcases Nat.lt_or_ge r leadingBit with small | normal
  · obtain rfl : k = 0 := low.resolve_right (by omega)
    simp [units, Nat.div_eq_of_lt small, Nat.mod_eq_of_lt small]
  · have above (j : Nat) {f : Nat} (hf : f < leadingBit) :
        units ((j + 1) * leadingBit + f) = (leadingBit + f) * 2 ^ j := by
      have hdiv : ((j + 1) * leadingBit + f) / leadingBit = j + 1 := by
        rw [Nat.add_comm, Nat.add_mul_div_right _ _ hpos, Nat.div_eq_of_lt hf, Nat.zero_add]
      have hmod : ((j + 1) * leadingBit + f) % leadingBit = f := by
        rw [Nat.add_comm, Nat.add_mul_mod_self_right, Nat.mod_eq_of_lt hf]
      rw [units, hdiv, hmod, if_neg (Nat.succ_ne_zero j), Nat.max_eq_right (by omega),
        Nat.add_sub_cancel]
    rcases Nat.lt_or_eq_of_le high with below | rfl
    · have hr : k * leadingBit + r = (k + 1) * leadingBit + (r - leadingBit) := by
        rw [Nat.succ_mul]
        omega
      rw [hr, above k (by omega), Nat.add_sub_cancel' normal]
    · have hr : k * leadingBit + 2 * leadingBit = (k + 1 + 1) * leadingBit + 0 := by ring
      rw [hr, above (k + 1) hpos]
      ring

theorem toRat_assemble (negative : Bool) {m : Nat} (h : m < 2047 * leadingBit) :
    (assemble negative m).toRat =
      (if negative then -1 else 1) * (units m * (2 : ℚ) ^ (-1074 : Int)) := by
  rw [toRat_eq, isNegative_assemble negative h, magnitude_assemble negative h]
  generalize (2 : ℚ) ^ (-1074 : Int) = unit
  cases negative <;> simp

theorem toRat_zero (negative : Bool) : (zero negative).toRat = 0 := by
  rw [zero, toRat_assemble negative (by decide), units_zero, Nat.cast_zero, zero_mul, mul_zero]

theorem significand_mod_two (x : Binary64) : x.significand % 2 = x.magnitude % 2 := by
  have hlead : leadingBit = 4503599627370496 := rfl
  have hfraction := magnitude_mod x
  rw [hlead] at hfraction
  unfold significand
  split <;> omega

theorem significand_lt (x : Binary64) : x.significand < 2 ^ 53 := by
  have hlead : leadingBit = 4503599627370496 := rfl
  have hfraction : x.fraction < leadingBit := Nat.mod_lt _ leadingBit_pos
  unfold significand
  split <;> omega

/-- A number, taken with either sign, is an integer of 53 bits in units of a power of two. -/
theorem exists_toRat (x : Binary64) (negative : Bool) : ∃ z f : Int, z.natAbs < 2 ^ 53 ∧
    -1074 ≤ f ∧ (if negative then -1 else 1) * x.toRat = z * 2 ^ f := by
  refine ⟨(if negative then -1 else 1) * (if x.isNegative then -1 else 1) * x.significand,
    x.exponent, ?_, ?_, ?_⟩
  · have h := significand_lt x
    split <;> split <;> simpa using h
  · rw [exponent]
    omega
  · rw [toRat]
    push_cast
    ring

/-- No finite number is nearer to `q` than `x`. If another one is as near, the significand of `x` is
even. -/
structure Nearest (x : Binary64) (q : ℚ) : Prop where
  isFinite : x.isFinite = true
  le : ∀ y : Binary64, y.isFinite = true → |x.toRat - q| ≤ |y.toRat - q|
  even : ∀ y : Binary64, y.isFinite = true → |x.toRat - q| = |y.toRat - q| →
    y.toRat = x.toRat ∨ x.significand % 2 = 0

/-- What some finite number stands for is nearest to itself. -/
theorem Nearest.toRat_eq_iff {x : Binary64} {q : ℚ} (h : x.Nearest q) :
    x.toRat = q ↔ ∃ y : Binary64, y.isFinite = true ∧ y.toRat = q := by
  constructor
  · intro exact
    exact ⟨x, h.isFinite, exact⟩
  · rintro ⟨y, hy, rfl⟩
    have := h.le y hy
    rw [sub_self, abs_zero, abs_nonpos_iff, sub_eq_zero] at this
    exact this

theorem nearest_self {x : Binary64} {q : ℚ} (finite : x.isFinite = true) (exact : x.toRat = q) :
    x.Nearest q := by
  refine ⟨finite, fun y _ => ?_, fun y _ same => .inl ?_⟩
  · rw [exact, sub_self, abs_zero]
    exact abs_nonneg _
  · rw [exact, sub_self, abs_zero, eq_comm, abs_eq_zero, sub_eq_zero] at same
    rw [exact, same]

/-- On the grid of the unit at which it was rounded, the rounded quotient is nearest. -/
theorem roundQuotient_grid {n d : Nat} (hd : 0 < d) (e k : Int) {r : Nat} {q : ℚ}
    (hr : roundQuotient (scale n d e).1 (scale n d e).2 = r) (hq : (n : ℚ) / d = q) :
    |r * 2 ^ e - q| < |k * 2 ^ e - q| ∨
      (|r * 2 ^ e - q| = |k * 2 ^ e - q| ∧ (k = r ∨ r % 2 = 0)) := by
  have hpos := scale_snd_pos n hd e
  have ratio := scale_ratio n hd e
  have near := roundQuotient_nearest (scale n d e).1 hpos k
  rw [hr] at near
  rw [hq] at ratio
  generalize (scale n d e).1 = a at ratio near
  generalize (scale n d e).2 = b at hpos ratio near
  have unit : (0 : ℚ) < 2 ^ e / b := by positivity
  have off (j : Int) : |(j : ℚ) * 2 ^ e - q| = (j * b - a : Int).natAbs * (2 ^ e / b) := by
    have hb : (b : ℚ) ≠ 0 := by positivity
    have : (j : ℚ) * 2 ^ e - q = ((j * b - a : Int) : ℚ) * (2 ^ e / b) := by
      rw [← ratio]
      push_cast
      field_simp
    rw [this, abs_mul, abs_of_pos unit, Nat.cast_natAbs, Int.cast_abs]
  have hoff := off r
  rw [Int.cast_natCast] at hoff
  rw [hoff, off k, mul_lt_mul_iff_left₀ unit, mul_left_inj' unit.ne', Nat.cast_lt, Nat.cast_inj]
  exact near

/-- What is nearest on the grid of its unit is nearest among all numbers: the coarser ones lie on
the grid, and the finer ones below a power of two that does. -/
theorem nearest_of_grid {q : ℚ} {e : Int} {r : Nat}
    (grid : ∀ k : Int, |r * 2 ^ e - q| < |k * 2 ^ e - q| ∨
      (|r * 2 ^ e - q| = |k * 2 ^ e - q| ∧ (k = r ∨ r % 2 = 0)))
    (low : e = -1074 ∨ 2 ^ 52 * 2 ^ e ≤ q) {z f : Int} (hz : z.natAbs < 2 ^ 53)
    (hf : -1074 ≤ f) :
    |r * 2 ^ e - q| < |z * 2 ^ f - q| ∨
      (|r * 2 ^ e - q| = |z * 2 ^ f - q| ∧ ((z : ℚ) * 2 ^ f = r * 2 ^ e ∨ r % 2 = 0)) := by
  rcases Int.lt_or_le f e with finer | coarser
  · have low := low.resolve_left (by omega)
    have below : (z : ℚ) * 2 ^ f < 2 ^ 52 * 2 ^ e := by
      have hz' : (z : ℚ) < 2 ^ 53 := by exact_mod_cast (show z < 2 ^ 53 by omega)
      calc (z : ℚ) * 2 ^ f < 2 ^ 53 * 2 ^ f := by gcongr
        _ ≤ 2 ^ 53 * 2 ^ (e - 1) := by
          gcongr
          · exact one_le_two
          · omega
        _ = 2 ^ 52 * 2 ^ e := by
          rw [zpow_sub_one₀ two_ne_zero]
          ring
    have top : |(r : ℚ) * 2 ^ e - q| ≤ |2 ^ 52 * 2 ^ e - q| := by
      have := grid (2 ^ 52)
      push_cast at this
      rcases this with h | ⟨h, -⟩
      · exact h.le
      · exact h.le
    left
    calc |(r : ℚ) * 2 ^ e - q| ≤ |2 ^ 52 * 2 ^ e - q| := top
      _ = q - 2 ^ 52 * 2 ^ e := by rw [abs_sub_comm, abs_of_nonneg (by linarith)]
      _ < q - z * 2 ^ f := by linarith
      _ ≤ |z * 2 ^ f - q| := by
        rw [abs_sub_comm]
        exact le_abs_self _
  · obtain ⟨j, rfl⟩ := Int.le.dest coarser
    have onGrid : (z : ℚ) * 2 ^ (e + j) = ((z * 2 ^ j : Int) : ℚ) * 2 ^ e := by
      rw [zpow_add₀ two_ne_zero, zpow_natCast]
      push_cast
      ring
    rw [onGrid]
    rcases grid (z * 2 ^ j) with h | ⟨h, same | even⟩
    · exact .inl h
    · exact .inr ⟨h, .inl (by rw [same, Int.cast_natCast])⟩
    · exact .inr ⟨h, .inr even⟩

theorem le_roundQuotient (n d : Nat) : n / d ≤ roundQuotient n d := by
  unfold roundQuotient
  dsimp only
  split
  · exact Nat.le_refl _
  · split
    · exact Nat.le_succ _
    · exact Nat.le_add_right _ _

/-- Above the least exponent the unit is the one in which the quotient has 53 bits. -/
theorem exponent_low {n d : Nat} (hn : n ≠ 0) (hd : 0 < d) {e : Int}
    (he : max (-1074) (order n d - 52) = e) : e = -1074 ∨ (2 : ℚ) ^ 52 * 2 ^ e ≤ n / d := by
  rw [or_iff_not_imp_left]
  intro least
  calc (2 : ℚ) ^ 52 * 2 ^ e = 2 ^ (52 + e) := (zpow_add₀ two_ne_zero 52 _).symm
    _ = 2 ^ order n d := by
      congr 1
      omega
    _ ≤ n / d := (order_bounds hn hd.ne').1

/-- At the exponent of its order, or the least one, a quotient has no more than 53 bits, and 53 at
the former. -/
theorem roundQuotient_bounds {n d : Nat} (hn : n ≠ 0) (hd : 0 < d) {e : Int}
    (he : max (-1074) (order n d - 52) = e) :
    roundQuotient (scale n d e).1 (scale n d e).2 ≤ 2 * leadingBit ∧
      (e = -1074 ∨ leadingBit ≤ roundQuotient (scale n d e).1 (scale n d e).2) := by
  have orderHigh := (order_bounds hn hd.ne').2
  have hpos := scale_snd_pos n hd e
  have ratio := scale_ratio n hd e
  have above := le_roundQuotient (scale n d e).1 (scale n d e).2
  have below := roundQuotient_le (scale n d e).1 (scale n d e).2
  generalize (scale n d e).1 = a at ratio above below
  generalize (scale n d e).2 = b at hpos ratio above below
  have hb : (0 : ℚ) < b := Nat.cast_pos.mpr hpos
  have unit : (0 : ℚ) < 2 ^ e := by positivity
  have hlead : 2 * leadingBit = 2 ^ 53 := rfl
  have hlead' : leadingBit = 2 ^ 52 := rfl
  constructor
  · have high : (a : ℚ) / b * 2 ^ e < 2 ^ 53 * 2 ^ e := by
      calc (a : ℚ) / b * 2 ^ e = n / d := ratio
        _ < 2 ^ (order n d + 1) := orderHigh
        _ ≤ 2 ^ (53 + e) := zpow_le_zpow_right₀ one_le_two (by omega)
        _ = 2 ^ 53 * 2 ^ e := zpow_add₀ two_ne_zero _ _
    have high : a < 2 ^ 53 * b := by
      rw [mul_lt_mul_iff_left₀ unit, div_lt_iff₀ hb] at high
      exact_mod_cast high
    have := Nat.div_lt_of_lt_mul (Nat.mul_comm _ b ▸ high)
    omega
  · refine (exponent_low hn hd he).imp_right fun low => ?_
    have low : 2 ^ 52 * b ≤ a := by
      rw [← ratio, mul_le_mul_iff_left₀ unit, le_div_iff₀ hb] at low
      exact_mod_cast low
    have := (Nat.le_div_iff_mul_le hpos).mpr low
    omega

/-- A finite result stands for the rounded quotient at its exponent. -/
theorem ofQuotient_eq {negative : Bool} {n d : Nat} (hn : n ≠ 0) (hd : 0 < d)
    (finite : (ofQuotient negative n d).isFinite = true) {e : Int} {r : Nat}
    (he : max (-1074) (order n d - 52) = e)
    (hr : roundQuotient (scale n d e).1 (scale n d e).2 = r) :
    (ofQuotient negative n d).toRat = (if negative then -1 else 1) * (r * 2 ^ e) ∧
      (ofQuotient negative n d).significand % 2 = r % 2 := by
  obtain ⟨high, low⟩ := roundQuotient_bounds hn hd he
  rw [hr] at high low
  have within : (e + 1074).toNat * leadingBit + r < 2047 * leadingBit := by
    by_contra large
    have : ofQuotient negative n d = infinity negative := by
      rw [ofQuotient, if_neg hn, he]
      dsimp only
      rw [hr, if_pos (Nat.le_of_not_lt large)]
    rw [this] at finite
    cases negative <;> exact absurd finite (by decide)
  have made : ofQuotient negative n d = assemble negative ((e + 1074).toNat * leadingBit + r) := by
    rw [ofQuotient, if_neg hn, he]
    dsimp only
    rw [hr, if_neg (Nat.not_le.mpr within)]
  rw [made]
  constructor
  · have split : (2 : ℚ) ^ e = 2 ^ (e + 1074).toNat * 2 ^ (-1074 : Int) := by
      rw [← zpow_natCast, ← zpow_add₀ two_ne_zero]
      congr 1
      omega
    rw [toRat_assemble negative within, units_add high (by omega), split]
    generalize (2 : ℚ) ^ (-1074 : Int) = unit
    push_cast
    ring
  · have hlead : leadingBit = 2 * 2 ^ 51 := rfl
    rw [significand_mod_two, magnitude_assemble negative within, hlead, Nat.mul_left_comm,
      Nat.mul_add_mod]

/-- An operation gives the number nearest to its exact result, if it gives a finite one. -/
theorem nearest_ofQuotient (negative : Bool) (n : Nat) {d : Nat} (hd : 0 < d)
    (finite : (ofQuotient negative n d).isFinite = true) :
    (ofQuotient negative n d).Nearest ((if negative then -1 else 1) * (n / d)) := by
  by_cases hn : n = 0
  · subst hn
    have exact : (ofQuotient negative 0 d).toRat =
        (if negative then -1 else 1) * (((0 : Nat) : ℚ) / d) := by
      rw [ofQuotient, if_pos rfl, toRat_zero, Nat.cast_zero, zero_div, mul_zero]
    exact nearest_self finite exact
  · generalize he : max (-1074) (order n d - 52) = e
    generalize hr : roundQuotient (scale n d e).1 (scale n d e).2 = r
    generalize hq : (n : ℚ) / d = q
    obtain ⟨value, parity⟩ := ofQuotient_eq hn hd finite he hr
    have low : e = -1074 ∨ 2 ^ 52 * 2 ^ e ≤ q := hq ▸ exponent_low hn hd he
    -- The sign is moved to the other side, so that only magnitudes are compared.
    generalize hs : (if negative then (-1 : ℚ) else 1) = s at value
    have square : s * s = 1 := by
      rw [← hs]
      split <;> norm_num
    have flip (v : ℚ) : |v - s * q| = |s * v - q| := by
      have : v - s * q = s * (s * v - q) := by rw [mul_sub, ← mul_assoc, square, one_mul]
      rw [this, abs_mul, ← hs]
      split <;> simp
    have unsigned : s * (ofQuotient negative n d).toRat = r * 2 ^ e := by
      rw [value, ← mul_assoc, square, one_mul]
    have compared (y : Binary64) :
        |r * 2 ^ e - q| < |s * y.toRat - q| ∨ (|r * 2 ^ e - q| = |s * y.toRat - q| ∧
          (s * y.toRat = r * 2 ^ e ∨ r % 2 = 0)) := by
      obtain ⟨z, f, hz, hf, hy⟩ := exists_toRat y negative
      rw [hs] at hy
      rw [hy]
      exact nearest_of_grid (fun k => roundQuotient_grid hd e k hr hq) low hz hf
    refine ⟨finite, fun y _ => ?_, fun y _ same => ?_⟩
    · rw [flip, flip, unsigned]
      rcases compared y with h | ⟨h, -⟩
      · exact h.le
      · exact h.le
    · rw [flip, flip, unsigned] at same
      rcases compared y with h | ⟨-, h | h⟩
      · exact absurd same h.ne
      · left
        have : s * (s * y.toRat) = s * (s * (ofQuotient negative n d).toRat) := by
          rw [h, unsigned]
        rwa [← mul_assoc, ← mul_assoc, square, one_mul, one_mul] at this
      · exact .inr (parity.trans h)

/-- A quotient that is a multiple of the unit at which it is rounded is kept. -/
theorem toRat_ofQuotient {negative : Bool} {n d : Nat} (hn : n ≠ 0) (hd : 0 < d)
    (finite : (ofQuotient negative n d).isFinite = true) {k : Int}
    (multiple : (k : ℚ) * 2 ^ max (-1074) (order n d - 52) = n / d) :
    (ofQuotient negative n d).toRat = (if negative then -1 else 1) * (n / d) := by
  rw [(ofQuotient_eq hn hd finite rfl rfl).1]
  congr 1
  have grid := roundQuotient_grid (n := n) hd (max (-1074) (order n d - 52)) k rfl rfl
  rw [multiple, sub_self, abs_zero, abs_eq_zero, sub_eq_zero] at grid
  rcases grid with h | ⟨h, -⟩
  · exact absurd h (abs_nonneg _).not_gt
  · exact h

theorem quotient_eq (x : Binary64) :
    0 < x.quotient.2 ∧ (x.quotient.1 : ℚ) / x.quotient.2 = x.significand * 2 ^ x.exponent := by
  have ratio := scale_ratio x.significand one_pos (-x.exponent)
  refine ⟨scale_snd_pos x.significand one_pos (-x.exponent), ?_⟩
  rw [Nat.cast_one, div_one] at ratio
  rw [← ratio, mul_assoc, ← zpow_add₀ two_ne_zero, neg_add_cancel, zpow_zero, mul_one]
  rfl

theorem toRat_eq_truncate {x : Binary64} (h : x.isWhole = true) : x.toRat = x.truncate := by
  obtain ⟨hpos, ratio⟩ := quotient_eq x
  obtain ⟨-, whole⟩ := Bool.and_eq_true_iff.mp h
  have divides : x.quotient.2 ∣ x.quotient.1 := Nat.dvd_of_mod_eq_zero (beq_iff_eq.mp whole)
  have hdiv : (x.significand : ℚ) * 2 ^ x.exponent = (x.quotient.1 / x.quotient.2 : Nat) := by
    rw [Nat.cast_div divides (by positivity), ratio]
  unfold toRat truncate
  rw [mul_assoc, hdiv]
  split
  · rw [Int.cast_neg, Int.cast_natCast, neg_one_mul]
  · rw [Int.cast_natCast, one_mul]

/-- The whole numbers are the finite ones that stand for an integer. -/
theorem isWhole_iff {x : Binary64} :
    x.isWhole = true ↔ x.isFinite = true ∧ ∃ z : Int, x.toRat = z := by
  constructor
  · intro h
    exact ⟨(Bool.and_eq_true_iff.mp h).1, x.truncate, toRat_eq_truncate h⟩
  · rintro ⟨finite, z, hz⟩
    obtain ⟨hpos, ratio⟩ := quotient_eq x
    have hz' : (x.quotient.1 : ℚ) = (z.natAbs * x.quotient.2 : Nat) := by
      have magnitude : (x.significand : ℚ) * 2 ^ x.exponent = z.natAbs := by
        have nonneg : (0 : ℚ) ≤ x.significand * 2 ^ x.exponent := by positivity
        rw [Nat.cast_natAbs, Int.cast_abs, ← hz, toRat, mul_assoc, abs_mul, abs_of_nonneg nonneg]
        split <;> simp
      rw [magnitude, div_eq_iff (by positivity)] at ratio
      rw [ratio, Nat.cast_mul]
    have : x.quotient.1 % x.quotient.2 = 0 := by
      rw [Nat.cast_inj.mp hz']
      exact Nat.mul_mod_left _ _
    exact Bool.and_eq_true_iff.mpr ⟨finite, beq_iff_eq.mpr this⟩

theorem signed_natAbs (i : Int) :
    (if decide (i < 0) then (-1 : ℚ) else 1) * ((i.natAbs : ℚ) / (1 : Nat)) = i := by
  rw [Nat.cast_one, div_one, Nat.cast_natAbs]
  by_cases h : i < 0
  · simp [h, abs_of_neg h]
  · simp [h, abs_of_nonneg (Int.not_lt.mp h)]

theorem nearest_ofInt {i : Int} (h : i.natAbs < 2 ^ 64) : (ofInt i).Nearest i := by
  have near := nearest_ofQuotient (i < 0) i.natAbs one_pos (isFinite_ofInt h)
  rwa [signed_natAbs] at near

theorem toRat_ofInt {i : Int} (h : i.natAbs ≤ 2 ^ 53) : (ofInt i).toRat = i := by
  by_cases hn : i.natAbs = 0
  · obtain rfl : i = 0 := Int.natAbs_eq_zero.mp hn
    exact toRat_zero false
  · have hlog : 2 ^ i.natAbs.log2 ≤ i.natAbs := Nat.log2_self_le hn
    have hexp : i.natAbs.log2 ≤ 53 := (Nat.pow_le_pow_iff_right (by decide)).mp (hlog.trans h)
    have multiple : ∃ k : Int,
        (k : ℚ) * 2 ^ max (-1074) (order i.natAbs 1 - 52) = (i.natAbs : ℚ) / (1 : Nat) := by
      rw [order_whole hn, max_eq_right (by omega), Nat.cast_one, div_one]
      rcases Nat.lt_or_eq_of_le hexp with small | top
      · refine ⟨i.natAbs * 2 ^ (52 - i.natAbs.log2), ?_⟩
        have cancel : ((i.natAbs.log2 : Nat) : Int) - 52 = -((52 - i.natAbs.log2 : Nat) : Int) := by
          omega
        rw [cancel, zpow_neg, zpow_natCast]
        simp only [Int.cast_mul, Int.cast_natCast, Int.cast_pow, Int.cast_ofNat]
        field_simp
      · refine ⟨2 ^ 52, ?_⟩
        have hi : i.natAbs = 2 ^ 53 := by
          rw [top] at hlog
          exact le_antisymm h hlog
        rw [top, hi]
        norm_num
    obtain ⟨k, hk⟩ := multiple
    have finite : (ofQuotient (i < 0) i.natAbs 1).isFinite = true := isFinite_ofInt (by omega)
    have kept := toRat_ofQuotient hn one_pos finite hk
    rwa [signed_natAbs] at kept

end Entitlement.Binary64
