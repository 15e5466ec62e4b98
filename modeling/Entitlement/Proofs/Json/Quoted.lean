import Entitlement.Json.Printer
import Entitlement.Json.Reader
import Entitlement.Proofs.Text.Digits

/-!
# Reading texts back

A quoted text gives back the text that was written: every character is read from what
it was escaped to.
-/

set_option autoImplicit false

namespace Entitlement.Json

open Text

theorem scanQuoted_unit {q : Quoted} {ds rest : List Char} {n : Nat} (hds : ds.length = 4)
    (hn : hexValue? ds = some n) :
    scanQuoted q ('\\' :: 'u' :: ds ++ rest) = scanQuoted (q.pushUnit n) rest := by
  obtain ⟨a, b, c, d, rfl⟩ : ∃ a b c d, ds = [a, b, c, d] := by
    match ds, hds with
    | [a, b, c, d], _ => exact ⟨a, b, c, d, rfl⟩
  simp only [List.cons_append, List.nil_append]
  rw [scanQuoted]
  simp only [hn]

theorem scanQuoted_named {q : Quoted} {e c : Char} {rest : List Char}
    (h : escaped? e = some c) (named : e ≠ 'u') :
    scanQuoted q ('\\' :: e :: rest) = scanQuoted (q.push c) rest := by
  rw [scanQuoted]
  · simp only [h]
  · intro a b c d rest h
    exact absurd h named

theorem scanQuoted_plain {q : Quoted} {c : Char} {rest : List Char} (quote : c ≠ '"')
    (backslash : c ≠ '\\') (printable : ¬ c.toNat < 0x20) :
    scanQuoted q (c :: rest) = scanQuoted (q.push c) rest := by
  rw [scanQuoted]
  · simp [printable, backslash]
  · exact quote
  · intro a b c d rest h
    exact absurd h backslash
  · intro e rest h
    exact absurd h backslash

theorem Quoted.pushUnit_small {q : Quoted} {n : Nat} (h : n < 0xD800) :
    q.pushUnit n = q.push (Char.ofNat n) := by
  rw [pushUnit, if_neg (by omega), if_neg (by omega)]

theorem scanQuoted_escape (q : Quoted) (c : Char) (rest : List Char) :
    scanQuoted q (escape c ++ rest) = scanQuoted (q.push c) rest := by
  unfold escape
  split_ifs with quote backslash backspace feed line back tab control
  · subst quote
    exact scanQuoted_named rfl (by decide)
  · subst backslash
    exact scanQuoted_named rfl (by decide)
  · subst backspace
    exact scanQuoted_named rfl (by decide)
  · subst feed
    exact scanQuoted_named rfl (by decide)
  · subst line
    exact scanQuoted_named rfl (by decide)
  · subst back
    exact scanQuoted_named rfl (by decide)
  · subst tab
    exact scanQuoted_named rfl (by decide)
  · have hvalue := hexValue?_fixedDigits_of_lt (show c.toNat < 16 ^ 4 by omega)
    rw [scanQuoted_unit (fixedDigits_length 16 4 c.toNat) hvalue,
      Quoted.pushUnit_small (by omega), Char.ofNat_toNat]
  · exact scanQuoted_plain quote backslash control

theorem scanQuoted_flatMap_escape (q : Quoted) (cs rest : List Char) :
    scanQuoted q (cs.flatMap escape ++ '"' :: rest) =
      some ((cs.foldl Quoted.push q).finish, rest) := by
  induction cs generalizing q with
  | nil => rfl
  | cons c cs ih =>
    rw [List.flatMap_cons, List.append_assoc, scanQuoted_escape, ih, List.foldl_cons]

theorem Quoted.foldl_push (reversed cs : List Char) :
    cs.foldl Quoted.push ⟨reversed, none, true⟩ = ⟨cs.reverse ++ reversed, none, true⟩ := by
  induction cs generalizing reversed with
  | nil => rfl
  | cons c cs ih => simp [push, ih]

theorem scanQuoted_text (s : String) (rest : List Char) :
    scanQuoted .start (s.toList.flatMap escape ++ '"' :: rest) = some (some s, rest) := by
  rw [scanQuoted_flatMap_escape, Quoted.start, Quoted.foldl_push]
  simp [Quoted.finish]

end Entitlement.Json
