import Entitlement.Json.Printer
import Entitlement.Json.Reader
import Entitlement.Proofs.Text.Digits

/-!
# Reading numbers back

A literal ends where the value it stands for does: neither a comma nor a closing bracket
can belong to it. An integer within the 64-bit words is read from what was written; that
a number with a fraction is too has to be known of that number.
-/

set_option autoImplicit false

namespace Entitlement.Json

open Text

def Closes : List Char → Prop
  | [] => True
  | c :: _ => c = ',' ∨ c = ']' ∨ c = '\x7d'

def Spells (cs : List Char) (j : Json) : Prop :=
  ∃ l, scanLiteral cs = some (l, []) ∧ l.value = j

variable {cs rest : List Char}

theorem Closes.not_digit {c : Char} (h : Closes (c :: cs)) : decimalDigit? c = none := by
  rcases h with rfl | rfl | rfl <;> rfl

theorem Closes.not_point {c : Char} (h : Closes (c :: cs)) : c ≠ '.' := by
  rcases h with rfl | rfl | rfl <;> decide

theorem Closes.not_exponent {c : Char} (h : Closes (c :: cs)) : c ≠ 'e' ∧ c ≠ 'E' := by
  rcases h with rfl | rfl | rfl <;> decide

theorem scanRun_append (h : Closes rest) :
    scanRun (cs ++ rest) = ((scanRun cs).1, (scanRun cs).2 ++ rest) := by
  induction cs with
  | nil =>
    cases rest with
    | nil => rfl
    | cons c rest => simp [scanRun, h.not_digit]
  | cons c cs ih =>
    rw [List.cons_append, scanRun, scanRun]
    cases decimalDigit? c with
    | none => rfl
    | some d => simp only [ih]

theorem scanFractionPart_append (h : Closes rest) {ds : List Nat} {after : List Char}
    (scanned : scanFractionPart cs = some (ds, after)) :
    scanFractionPart (cs ++ rest) = some (ds, after ++ rest) := by
  rcases cs with _ | ⟨c, cs⟩
  · obtain ⟨rfl, rfl⟩ : ds = [] ∧ after = [] := by simpa [scanFractionPart, eq_comm] using scanned
    cases rest with
    | nil => rfl
    | cons c rest => simp [scanFractionPart, h.not_point]
  · by_cases hc : c = '.'
    · subst hc
      simp only [scanFractionPart, List.cons_append, scanRun_append h] at scanned ⊢
      generalize scanRun cs = run at scanned ⊢
      obtain ⟨_ | ⟨d, ds⟩, cs⟩ := run
      · simp at scanned
      · simp_all
    · obtain ⟨rfl, rfl⟩ : ds = [] ∧ after = c :: cs := by
        simpa [scanFractionPart, hc, eq_comm] using scanned
      simp [scanFractionPart, hc]

def scanPower (negative : Bool) : Scan (Option (Bool × List Nat)) := fun cs =>
  match scanRun cs with
  | ([], _) => none
  | (ds, after) => some (some (negative, ds), after)

theorem scanPower_append {negative : Bool} (h : Closes rest) {e : Option (Bool × List Nat)}
    {after : List Char} (scanned : scanPower negative cs = some (e, after)) :
    scanPower negative (cs ++ rest) = some (e, after ++ rest) := by
  unfold scanPower at scanned ⊢
  rw [scanRun_append h]
  generalize scanRun cs = run at scanned ⊢
  obtain ⟨_ | ⟨d, ds⟩, cs⟩ := run
  · simp at scanned
  · simp_all

theorem scanExponent_plus {c : Char} (letter : c = 'e' ∨ c = 'E') (cs : List Char) :
    scanExponent (c :: '+' :: cs) = scanPower false cs := by
  rcases letter with rfl | rfl <;> rfl

theorem scanExponent_minus {c : Char} (letter : c = 'e' ∨ c = 'E') (cs : List Char) :
    scanExponent (c :: '-' :: cs) = scanPower true cs := by
  rcases letter with rfl | rfl <;> rfl

theorem scanExponent_unsigned {c sign : Char} (letter : c = 'e' ∨ c = 'E') (plus : sign ≠ '+')
    (minus : sign ≠ '-') (cs : List Char) :
    scanExponent (c :: sign :: cs) = scanPower false (sign :: cs) := by
  rcases letter with rfl | rfl <;> simp [scanExponent, plus, minus] <;> rfl

theorem scanExponent_append (h : Closes rest) {e : Option (Bool × List Nat)} {after : List Char}
    (scanned : scanExponent cs = some (e, after)) :
    scanExponent (cs ++ rest) = some (e, after ++ rest) := by
  rcases cs with _ | ⟨c, cs⟩
  · obtain ⟨rfl, rfl⟩ : e = none ∧ after = [] := by simpa [scanExponent, eq_comm] using scanned
    cases rest with
    | nil => rfl
    | cons c rest => simp [scanExponent, h.not_exponent]
  by_cases letter : c = 'e' ∨ c = 'E'
  · rcases cs with _ | ⟨sign, cs⟩
    · rcases letter with rfl | rfl <;> simp [scanExponent, scanRun] at scanned
    rw [List.cons_append, List.cons_append]
    by_cases plus : sign = '+'
    · subst plus
      rw [scanExponent_plus letter] at scanned ⊢
      exact scanPower_append h scanned
    by_cases minus : sign = '-'
    · subst minus
      rw [scanExponent_minus letter] at scanned ⊢
      exact scanPower_append h scanned
    · rw [scanExponent_unsigned letter plus minus] at scanned ⊢
      exact scanPower_append h scanned
  · obtain ⟨rfl, rfl⟩ : e = none ∧ after = c :: cs := by
      simpa [scanExponent, not_or.mp letter, eq_comm] using scanned
    simp [scanExponent, not_or.mp letter]

def scanUnsigned (negative : Bool) : Scan Literal := fun cs => do
  let (whole, cs) := scanRun cs
  match whole with
  | [] => none
  | 0 :: _ :: _ => none
  | _ =>
    let (fraction, cs) ← scanFractionPart cs
    let (exponent, cs) ← scanExponent cs
    return (⟨negative, whole, fraction, exponent⟩, cs)

theorem scanLiteral_minus (cs : List Char) : scanLiteral ('-' :: cs) = scanUnsigned true cs := rfl

theorem scanLiteral_of_ne {c : Char} (h : c ≠ '-') :
    scanLiteral (c :: cs) = scanUnsigned false (c :: cs) := by
  unfold scanLiteral
  split
  rename_i hm
  split at hm
  · simp_all
  · cases hm
    rfl

theorem scanUnsigned_append {negative : Bool} (h : Closes rest) {l : Literal} {after : List Char}
    (scanned : scanUnsigned negative cs = some (l, after)) :
    scanUnsigned negative (cs ++ rest) = some (l, after ++ rest) := by
  unfold scanUnsigned at scanned ⊢
  rw [scanRun_append h]
  generalize scanRun cs = run at scanned ⊢
  obtain ⟨whole, cs⟩ := run
  dsimp only at scanned ⊢
  split at scanned
  · simp at scanned
  · simp at scanned
  · obtain ⟨⟨fraction, cs'⟩, hfraction, scanned⟩ := Option.bind_eq_some_iff.mp scanned
    obtain ⟨⟨exponent, cs''⟩, hexponent, scanned⟩ := Option.bind_eq_some_iff.mp scanned
    simp only [Option.pure_def, Option.some.injEq, Prod.mk.injEq] at scanned
    obtain ⟨rfl, rfl⟩ := scanned
    rw [scanFractionPart_append h hfraction]
    simp [scanExponent_append h hexponent]

theorem scanLiteral_append (h : Closes rest) {l : Literal} {after : List Char}
    (scanned : scanLiteral cs = some (l, after)) :
    scanLiteral (cs ++ rest) = some (l, after ++ rest) := by
  cases cs with
  | nil => cases scanned
  | cons c cs =>
    by_cases hc : c = '-'
    · subst hc
      rw [scanLiteral_minus] at scanned
      exact scanUnsigned_append h scanned
    · rw [scanLiteral_of_ne hc] at scanned
      rw [List.cons_append, scanLiteral_of_ne hc, ← List.cons_append]
      exact scanUnsigned_append h scanned

theorem scanRun_map_digit {ds : List Nat} (h : ∀ d ∈ ds, d < 10) :
    scanRun (ds.map digit) = (ds, []) := by
  induction ds with
  | nil => rfl
  | cons d ds ih =>
    have hd := decimalDigit?_digit (h d (by simp))
    simp [scanRun, hd, ih fun d hd => h d (by simp [hd])]

theorem scanUnsigned_decimal (negative : Bool) (n : Nat) :
    scanUnsigned negative (decimal n) = some (⟨negative, digitsOf n, [], none⟩, []) := by
  rw [decimal_eq, scanUnsigned, scanRun_map_digit fun d hd => digitsOf_lt hd]
  rcases h : digitsOf n with _ | ⟨d, ds⟩
  · exact absurd h (digitsOf_ne_nil n)
  rcases d with _ | d
  · obtain rfl := digitsOf_zero_cons h
    rfl
  · rfl

theorem decimal_head (n : Nat) : ∃ c cs, decimal n = c :: cs ∧ c ≠ '-' := by
  rw [decimal_eq]
  rcases h : digitsOf n with _ | ⟨d, ds⟩
  · exact absurd h (digitsOf_ne_nil n)
  · refine ⟨digit d, ds.map digit, rfl, ?_⟩
    have hd := decimalDigit?_digit (digitsOf_lt (n := n) (d := d) (by simp [h]))
    rintro hc
    rw [hc] at hd
    cases hd

theorem Literal.value_whole {negative : Bool} {n : Nat} (h : n < UInt64.size) :
    Literal.value ⟨negative, digitsOf n, [], none⟩ =
      if !negative then .int n
      else if n = 0 ∨ 0x8000000000000000 < n then .float (Binary64.ofNat n).negate
      else .int (-(n : Int)) := by
  simp [Literal.value, foldl_digitsOf, h]

def FitsWord (i : Int) : Prop := Int64.minValue.toInt ≤ i ∧ i < UInt64.size

theorem spells_int {i : Int} (h : FitsWord i) : Spells (signedDecimal i) (.int i) := by
  obtain ⟨low, high⟩ := h
  have hmin : Int64.minValue.toInt = -0x8000000000000000 := rfl
  have hsize : UInt64.size = 0x10000000000000000 := rfl
  unfold signedDecimal
  split
  · refine ⟨_, (scanLiteral_minus _).trans (scanUnsigned_decimal true i.natAbs), ?_⟩
    rw [Literal.value_whole (by omega), if_neg (by simp), if_neg (by omega)]
    congr 1
    omega
  · obtain ⟨c, cs, hcs, hc⟩ := decimal_head i.natAbs
    refine ⟨⟨false, digitsOf i.natAbs, [], none⟩, ?_, ?_⟩
    · rw [hcs, scanLiteral_of_ne hc, ← hcs]
      exact scanUnsigned_decimal false i.natAbs
    · rw [Literal.value_whole (by omega), if_pos (by simp)]
      congr 1
      omega

theorem Spells.head {j : Json} (h : Spells cs j) :
    ∃ c tail, cs = c :: tail ∧ (c = '-' ∨ (decimalDigit? c).isSome) := by
  obtain ⟨l, scanned, -⟩ := h
  rcases cs with _ | ⟨c, tail⟩
  · cases scanned
  · refine ⟨c, tail, rfl, or_iff_not_imp_left.mpr fun hc => ?_⟩
    rw [scanLiteral_of_ne hc, scanUnsigned, scanRun] at scanned
    cases hd : decimalDigit? c with
    | none => simp [hd] at scanned
    | some d => rfl

end Entitlement.Json
