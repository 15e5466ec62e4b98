import Entitlement.Text.Split

/-!
# Paths of addresses

A path is a list of segments. In a text a segment of one dot stands for the place where
it is and one of two dots for the place above it; the path itself has neither.
-/

set_option autoImplicit false

namespace Entitlement.Url

open Text

def plainDots : List Char → List Char
  | '%' :: '2' :: 'e' :: rest => '.' :: plainDots rest
  | '%' :: '2' :: 'E' :: rest => '.' :: plainDots rest
  | c :: rest => c :: plainDots rest
  | [] => []

def isSingleDot (segment : List Char) : Bool := plainDots segment == ['.']

def isDoubleDot (segment : List Char) : Bool := plainDots segment == ['.', '.']

/-- A letter and a colon or a bar, by themselves or before a backslash: the name of a
drive, above which there is nothing. -/
def isDrive : List Char → Bool
  | letter :: mark :: rest =>
    letter.isAlpha && (mark == ':' || mark == '|') && (rest.isEmpty || rest.head? == some '\\')
  | _ => false

def above : List (List Char) → List (List Char)
  | [] => []
  | last :: rest => if isDrive last then last :: rest else rest

def walk : List (List Char) → List (List Char) → List (List Char)
  | place, [] => place
  | place, segment :: rest =>
    let next :=
      if isDoubleDot segment then above place
      else if isSingleDot segment then place
      else segment :: place
    let isDots := isDoubleDot segment || isSingleDot segment
    walk (if isDots && rest.isEmpty then [] :: next else next) rest

def segments (cs : List Char) : List (List Char) := (walk [] (split '/' cs)).reverse

end Entitlement.Url
