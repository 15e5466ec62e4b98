/-!
# Splitting

The parts of a text between separators. There is one part more than there are
separators, and joined again the parts give the text.
-/

set_option autoImplicit false

namespace Entitlement.Text

def split (separator : Char) : List Char → List (List Char)
  | [] => [[]]
  | c :: rest =>
    if c = separator then [] :: split separator rest
    else match split separator rest with
      | part :: parts => (c :: part) :: parts
      | [] => [[c]]

def cut (separator : Char) (cs : List Char) : List Char × Option (List Char) :=
  (cs.takeWhile (· != separator), (cs.dropWhile (· != separator)).tail?)

def cutLast (separator : Char) (cs : List Char) : Option (List Char) × List Char :=
  let (after, before) := cut separator cs.reverse
  (before.map List.reverse, after.reverse)

theorem split_ne_nil (separator : Char) (cs : List Char) : split separator cs ≠ [] := by
  cases cs with
  | nil => simp [split]
  | cons c rest =>
    simp only [split]
    split
    · simp
    · split <;> simp

theorem intercalate_split (separator : Char) (cs : List Char) :
    [separator].intercalate (split separator cs) = cs := by
  induction cs with
  | nil => rfl
  | cons c rest ih =>
    match h : split separator rest with
    | [] => exact absurd h (split_ne_nil separator rest)
    | part :: parts =>
      rw [h] at ih
      by_cases hc : c = separator
      · simp [split, hc, h, List.intercalate_cons_cons, ih]
      · cases parts with
        | nil => simpa [split, hc, h, List.intercalate] using ih
        | cons next parts =>
          simp only [List.intercalate_cons_cons] at ih
          simp [split, hc, h, List.intercalate_cons_cons, ih]

end Entitlement.Text
