import Entitlement.Fault
import Entitlement.Json.Reader

/-!
# Decoding

A decoder turns a tree into a value. It visits the members of an object in the order
of the text and stops at the first failure, so that of two faults in a text the earlier
one is reported. A failure of form has no more to say; a value that breaks a rule of
the domain names the rule.
-/

set_option autoImplicit false

namespace Entitlement

inductive Unreadable where
  | malformed
  | invalid (fault : Fault)
  deriving DecidableEq, Repr

abbrev Decoded (α : Type) := Except Unreadable α

def Decoded.checked {α : Type} : Except Fault α → Decoded α
  | .ok a => .ok a
  | .error fault => .error (.invalid fault)

def Decoded.ofOption {α : Type} : Option α → Decoded α
  | some a => .ok a
  | none => .error .malformed

namespace Json

def asBool : Json → Decoded Bool
  | .bool b => .ok b
  | _ => .error .malformed

def asText : Json → Decoded String
  | .text s => .ok s
  | _ => .error .malformed

def asBelow (bound : Nat) : Json → Decoded Nat
  | .int i => if 0 ≤ i ∧ i < bound then .ok i.toNat else .error .malformed
  | _ => .error .malformed

def asUInt64 (j : Json) : Decoded UInt64 := UInt64.ofNat <$> j.asBelow UInt64.size

def asInt64 : Json → Decoded Int64
  | .int i =>
    if Int64.minValue.toInt ≤ i ∧ i ≤ Int64.maxValue.toInt then .ok (Int64.ofInt i)
    else .error .malformed
  | _ => .error .malformed

def asInt32 : Json → Decoded Int32
  | .int i =>
    if Int32.minValue.toInt ≤ i ∧ i ≤ Int32.maxValue.toInt then .ok (Int32.ofInt i)
    else .error .malformed
  | _ => .error .malformed

def asFloat : Json → Decoded Binary64
  | .int i => .ok (Binary64.ofInt i)
  | .float x => .ok x
  | _ => .error .malformed

def asSpelled {α : Type} (spelled : String → Option α) (j : Json) : Decoded α := do
  Decoded.ofOption (spelled (← j.asText))

def asOption {α : Type} (read : Json → Decoded α) : Json → Decoded (Option α)
  | .null => .ok none
  | j => some <$> read j

def asList {α : Type} (read : Json → Decoded α) : Json → Decoded (List α)
  | .array items => items.mapM read
  | _ => .error .malformed

/-- A choice is written as its name, or as an object that holds `null` under its name;
within a tree that is already held in full an empty object will do for the `null`. -/
def asChoice (held : Bool) : Json → Decoded String
  | .text s => .ok s
  | .object [(s, .null)] => .ok s
  | .object [(s, .object [])] => if held then .ok s else .error .malformed
  | _ => .error .malformed

end Json

/-- The form of a record: a check for each field, by which the members are judged in
the order of the text, and the record made from members that passed. -/
structure Shape (α : Type) where
  fields : List (String × (Json → Decoded Unit))
  build : List (String × Json) → Decoded α

namespace Shape

variable {α : Type}

instance : Applicative Shape where
  pure a := ⟨[], fun _ => .ok a⟩
  seq f x := ⟨f.fields ++ (x ()).fields, fun members => do
    return (← f.build members) (← (x ()).build members)⟩

def fieldOr (name : String) (absent : Decoded α) (read : Json → Decoded α) : Shape α :=
  ⟨[(name, fun j => do let _ ← read j)], fun members =>
    match members.lookup name with
    | some j => read j
    | none => absent⟩

def field (name : String) (read : Json → Decoded α) : Shape α :=
  fieldOr name (.error .malformed) read

def optional (name : String) (read : Json → Decoded α) : Shape (Option α) :=
  fieldOr name (.ok none) (Json.asOption read)

def scan (fields : List (String × (Json → Decoded Unit))) :
    List String → List (String × Json) → Decoded Unit
  | _, [] => .ok ()
  | seen, (name, j) :: rest =>
    match fields.lookup name with
    | some check =>
      if name ∈ seen then .error .malformed
      else do check j; scan fields (name :: seen) rest
    | none => if j.stops then .error .malformed else scan fields seen rest

def read (shape : Shape α) : Json → Decoded α
  | .object members => do
    scan shape.fields [] members
    shape.build members
  | _ => .error .malformed

end Shape

namespace Json

variable {α : Type}

inductive Tagging (α : Type) where
  | neither
  | kind (decode : Bool → Option Json → Decoded α)
  | body (content : Json)
  | both (value : α)

/-- Decodes an object whose field `tag` names a kind and whose field `content` holds
the body that goes with it. A body that comes first must be legible as a whole; the
decoder of a kind is told so. A kind may do without a body. `held` tells that the tree
around the object was read in full before. -/
def asTagged (held : Bool) (tag content : String)
    (kinds : String → Option (Bool → Option Json → Decoded α)) :
    Tagging α → List (String × Json) → Decoded α
  | .neither, [] => .error .malformed
  | .body _, [] => .error .malformed
  | .kind decode, [] => decode false none
  | .both value, [] => .ok value
  | state, (name, j) :: rest =>
    if name = tag then
      match state with
      | .neither => do
        let decode ← Decoded.ofOption (kinds (← j.asChoice held))
        asTagged held tag content kinds (.kind decode) rest
      | .body early => do
        let decode ← Decoded.ofOption (kinds (← j.asChoice held))
        let value ← decode true (some early)
        asTagged held tag content kinds (.both value) rest
      | _ => .error .malformed
    else if name = content then
      match state with
      | .neither =>
        if j.legible then asTagged held tag content kinds (.body j) rest else .error .malformed
      | .kind decode => do
        let value ← decode false (some j)
        asTagged held tag content kinds (.both value) rest
      | _ => .error .malformed
    else if j.stops then .error .malformed
    else asTagged held tag content kinds state rest

def decode (read : Json → Decoded α) (s : String) : Decoded α := do
  let (j, rest) := Json.read s.toList
  let value ← read j
  if (skipSpace rest).isEmpty then .ok value else .error .malformed

end Json

end Entitlement
