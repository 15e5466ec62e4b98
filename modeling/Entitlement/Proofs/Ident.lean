import Entitlement.Ident
import Entitlement.Proofs.Text.Digits

/-!
# Reading identifiers back

The text of an identifier has its digits in five groups and gives it back.
-/

set_option autoImplicit false

namespace Entitlement.Uuid

open Text

theorem ofNat_value (u : Uuid) : ofNat u.value = u := by
  rcases u with ⟨⟨n, hn⟩⟩
  exact congrArg Uuid.mk (Fin.ext (Nat.mod_eq_of_lt hn))

theorem toChars_length (u : Uuid) : u.toChars.length = 36 := by
  simp [toChars, fixedDigits_length]

theorem splitAt_group {a rest : List Char} {n : Nat} (h : a.length = n) :
    (a ++ rest).splitAt n = (a, rest) := by
  subst h
  simp

theorem ofGroups?_toChars (u : Uuid) : ofGroups? u.toChars = some u := by
  have hlength : (fixedDigits 16 32 u.value).length = 32 := fixedDigits_length _ _ _
  have hvalue : hexValue? (fixedDigits 16 32 u.value) = some u.value.val :=
    hexValue?_fixedDigits_of_lt u.value.isLt
  unfold ofGroups?
  rw [toChars_length]
  unfold toChars
  generalize fixedDigits 16 32 u.value = ds at hlength hvalue
  have h₁ : (ds.take 8).length = 8 := by simp [hlength]
  have h₂ : ((ds.drop 8).take 4).length = 4 := by simp [hlength]
  have h₃ : ((ds.drop 12).take 4).length = 4 := by simp [hlength]
  have h₄ : ((ds.drop 16).take 4).length = 4 := by simp [hlength]
  have hjoin : ds.take 8 ++ (ds.drop 8).take 4 ++ (ds.drop 12).take 4 ++ (ds.drop 16).take 4 ++
      ds.drop 20 = ds := by
    simp only [List.append_assoc]
    have hd (n : Nat) : (ds.drop n).take 4 ++ ds.drop (n + 4) = ds.drop n := by
      rw [← List.drop_drop, List.take_append_drop]
    rw [hd 16, hd 12, hd 8, List.take_append_drop]
  simp only [List.append_assoc, List.cons_append, scanChar, splitAt_group h₁, splitAt_group h₂,
    splitAt_group h₃, splitAt_group h₄, if_true, Option.bind_eq_bind, Option.bind_some]
  rw [if_neg (by simp)]
  simp only [List.append_assoc] at hjoin
  rw [hjoin, ofDigits?, if_pos hlength, hvalue]
  exact congrArg some (ofNat_value u)

theorem ofText?_toText (u : Uuid) : ofText? u.toText = some u := by
  have hlength := toChars_length u
  have hgroups := ofGroups?_toChars u
  rw [ofText?, toText, String.toList_ofList]
  generalize u.toChars = cs at hlength hgroups
  rw [ofChars?, if_neg (by omega), if_neg (by omega), if_neg (by omega)]
  exact hgroups

theorem toText_inj {u v : Uuid} (h : u.toText = v.toText) : u = v := by
  have hu := ofText?_toText u
  rw [h, ofText?_toText] at hu
  exact (Option.some.inj hu).symm

end Entitlement.Uuid
