import Entitlement.Text.Digits
import Mathlib.Data.Nat.Digits.Lemmas

/-!
# Reading digits back

Digits written to a base have the value they were written for.
-/

set_option autoImplicit false

namespace Entitlement.Text

theorem hexDigit?_digit {d : Nat} (h : d < 16) : hexDigit? (digit d) = some d := by
  have all : ∀ d : Fin 16, hexDigit? (digit d) = some d.val := by decide
  exact all ⟨d, h⟩

theorem decimalDigit?_digit {d : Nat} (h : d < 10) : decimalDigit? (digit d) = some d := by
  have all : ∀ d : Fin 10, decimalDigit? (digit d) = some d.val := by decide
  exact all ⟨d, h⟩

theorem hexValue?_append_singleton (cs : List Char) (c : Char) :
    hexValue? (cs ++ [c]) = do return 16 * (← hexValue? cs) + (← hexDigit? c) := by
  simp only [hexValue?, List.foldl_append, List.foldl_cons, List.foldl_nil]

/-- A hexadecimal numeral of a fixed width holds the last digits of its number. -/
theorem hexValue?_fixedDigits (width n : Nat) :
    hexValue? (fixedDigits 16 width n) = some (n % 16 ^ width) := by
  induction width generalizing n with
  | zero => simp [fixedDigits, hexValue?, Nat.mod_one]
  | succ width ih =>
    have hsplit : 16 * (n / 16 % 16 ^ width) + n % 16 = n % 16 ^ (width + 1) := by
      rw [Nat.pow_succ', Nat.mod_mul]
      omega
    rw [fixedDigits, hexValue?_append_singleton, ih, hexDigit?_digit (Nat.mod_lt _ (by decide))]
    exact congrArg some hsplit

theorem hexValue?_fixedDigits_of_lt {width n : Nat} (h : n < 16 ^ width) :
    hexValue? (fixedDigits 16 width n) = some n := by
  rw [hexValue?_fixedDigits, Nat.mod_eq_of_lt h]

def digitsOf (n : Nat) : List Nat := if n = 0 then [0] else (Nat.digits 10 n).reverse

theorem digitsOf_ne_nil (n : Nat) : digitsOf n ≠ [] := by
  unfold digitsOf
  split
  · simp
  · simpa [Nat.digits_ne_nil_iff_ne_zero] using ‹_›

theorem digitsOf_lt {n d : Nat} (h : d ∈ digitsOf n) : d < 10 := by
  unfold digitsOf at h
  split at h
  · simp at h
    omega
  · exact Nat.digits_lt_base (by decide) (List.mem_reverse.mp h)

/-- Only zero has a numeral that begins with zero, and nothing follows in it. -/
theorem digitsOf_zero_cons {n : Nat} {rest : List Nat} (h : digitsOf n = 0 :: rest) :
    rest = [] := by
  unfold digitsOf at h
  split at h
  · simp_all
  · rename_i hn
    have hlast := Nat.getLast_digit_ne_zero 10 hn
    have hhead : (Nat.digits 10 n).reverse.head? = some 0 := by rw [h]; rfl
    rw [List.head?_reverse, List.getLast?_eq_getLast_of_ne_nil
      (Nat.digits_ne_nil_iff_ne_zero.mpr hn)] at hhead
    exact absurd (Option.some.inj hhead) hlast

theorem foldl_digitsOf (n : Nat) : (digitsOf n).foldl (fun n d => 10 * n + d) 0 = n := by
  unfold digitsOf
  split
  · simp_all
  · rw [List.foldl_reverse]
    have hvalue := Nat.ofDigits_digits 10 n
    rw [Nat.ofDigits_eq_foldr] at hvalue
    simpa [Nat.add_comm] using hvalue

theorem decimal_eq (n : Nat) : decimal n = (digitsOf n).map digit := by
  induction n using Nat.strongRecOn with
  | _ n ih =>
    rw [decimal]
    split
    · rename_i hn
      unfold digitsOf
      split
      · simp_all
      · rw [Nat.digits_of_lt 10 n ‹_› hn]
        rfl
    · rename_i hn
      have hpos : n ≠ 0 := by omega
      have hquot : n / 10 ≠ 0 := by omega
      rw [ih (n / 10) (by omega), digitsOf, digitsOf, if_neg hpos, if_neg hquot,
        Nat.digits_def' (by decide) (by omega : 0 < n)]
      simp

end Entitlement.Text
