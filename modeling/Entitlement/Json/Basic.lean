import Entitlement.Number.Binary64

/-!
# JSON trees

A tree as it is read from a text. The members of an object keep their order and a
repeated name stays repeated. Three leaves stand for what is no value: a place where
the text stops being JSON, after which nothing of it is known; a well-formed literal
or a too deeply nested value that denotes nothing; and a member of an object whose
name denotes no text. A decoder that meets one of them fails. One that skips over a
value only fails where the text breaks off in it.
-/

set_option autoImplicit false

namespace Entitlement

inductive Json where
  | null
  | bool (value : Bool)
  | int (value : Int)
  | float (value : Binary64)
  | text (value : String)
  | array (items : List Json)
  | object (members : List (String × Json))
  | illegible
  | nameless
  | broken
  deriving Repr, Inhabited

namespace Json

def greatestDepth : Nat := 127

mutual

/-- The text of this tree breaks off within it. -/
def torn : Json → Bool
  | .broken => true
  | .array items => tornItems items
  | .object members => tornMembers members
  | _ => false

def tornItems : List Json → Bool
  | [] => false
  | v :: rest => v.torn || tornItems rest

def tornMembers : List (String × Json) → Bool
  | [] => false
  | (_, v) :: rest => v.torn || tornMembers rest

end

/-- A decoder of an object cannot skip over a member that holds this. -/
def stops : Json → Bool
  | .nameless => true
  | j => j.torn

mutual

def legible : Json → Bool
  | .broken | .illegible | .nameless => false
  | .array items => legibleItems items
  | .object members => legibleMembers members
  | _ => true

def legibleItems : List Json → Bool
  | [] => true
  | v :: rest => v.legible && legibleItems rest

def legibleMembers : List (String × Json) → Bool
  | [] => true
  | (_, v) :: rest => v.legible && legibleMembers rest

end

mutual

def depth : Json → Nat
  | .array items => depthItems items + 1
  | .object members => depthMembers members + 1
  | _ => 0

def depthItems : List Json → Nat
  | [] => 0
  | v :: rest => max v.depth (depthItems rest)

def depthMembers : List (String × Json) → Nat
  | [] => 0
  | (_, v) :: rest => max v.depth (depthMembers rest)

end

def number (x : Binary64) : Json := if x.isFinite then .float x else .null

def ofOption {α : Type} (f : α → Json) : Option α → Json
  | some a => f a
  | none => .null

end Json

end Entitlement
