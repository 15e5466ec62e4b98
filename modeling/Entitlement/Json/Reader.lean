import Entitlement.Json.Number

/-!
# Reading JSON

A text is read into a tree together with what follows the value. Reading never
fails: where the text stops being JSON the tree has a broken leaf and nothing is
left to read. A half of a surrogate pair makes its text illegible, and so does
nesting beyond the greatest depth.
-/

set_option autoImplicit false

namespace Entitlement.Json

open Text

def isSpace (c : Char) : Bool := c == ' ' || c == '\n' || c == '\t' || c == '\r'

def skipSpace (cs : List Char) : List Char := cs.dropWhile isSpace

def escaped? (c : Char) : Option Char :=
  if c = '"' ∨ c = '\\' ∨ c = '/' then some c
  else if c = 'b' then some '\x08'
  else if c = 'f' then some '\x0c'
  else if c = 'n' then some '\n'
  else if c = 'r' then some '\r'
  else if c = 't' then some '\t'
  else none

structure Quoted where
  reversed : List Char
  half : Option Nat
  legible : Bool
  deriving DecidableEq, Repr

namespace Quoted

def start : Quoted := ⟨[], none, true⟩

def push (q : Quoted) (c : Char) : Quoted := ⟨c :: q.reversed, none, q.legible && q.half.isNone⟩

def pushUnit (q : Quoted) (n : Nat) : Quoted :=
  if 0xD800 ≤ n ∧ n < 0xDC00 then ⟨q.reversed, some n, q.legible && q.half.isNone⟩
  else if 0xDC00 ≤ n ∧ n < 0xE000 then
    match q.half with
    | some high =>
      ⟨Char.ofNat (0x10000 + (high - 0xD800) * 0x400 + (n - 0xDC00)) :: q.reversed, none,
        q.legible⟩
    | none => ⟨q.reversed, none, false⟩
  else q.push (Char.ofNat n)

def finish (q : Quoted) : Option String :=
  if q.legible && q.half.isNone then some (String.ofList q.reversed.reverse) else none

end Quoted

def scanQuoted (q : Quoted) : Scan (Option String)
  | [] => none
  | '"' :: rest => some (q.finish, rest)
  | '\\' :: 'u' :: a :: b :: c :: d :: rest =>
    match hexValue? [a, b, c, d] with
    | some n => scanQuoted (q.pushUnit n) rest
    | none => none
  | '\\' :: c :: rest =>
    match escaped? c with
    | some e => scanQuoted (q.push e) rest
    | none => none
  | c :: rest => if c.toNat < 0x20 ∨ c = '\\' then none else scanQuoted (q.push c) rest

def enclosed (depth : Nat) (v : Json) : Json :=
  if depth = 0 then (if v.torn then .broken else .illegible) else v

def member (name : Option String) (v : Json) : String × Json :=
  match name with
  | some name => (name, v)
  | none => ("", if v.torn then .broken else .nameless)

mutual

def readValue : Nat → Nat → List Char → Json × List Char
  | 0, _, _ => (.broken, [])
  | fuel + 1, depth, cs =>
    match skipSpace cs with
    | 'n' :: 'u' :: 'l' :: 'l' :: rest => (.null, rest)
    | 't' :: 'r' :: 'u' :: 'e' :: rest => (.bool true, rest)
    | 'f' :: 'a' :: 'l' :: 's' :: 'e' :: rest => (.bool false, rest)
    | '"' :: rest =>
      match scanQuoted .start rest with
      | some (some s, rest) => (.text s, rest)
      | some (none, rest) => (.illegible, rest)
      | none => (.broken, [])
    | '[' :: rest =>
      match skipSpace rest with
      | ']' :: rest => (enclosed depth (.array []), rest)
      | rest =>
        let (items, rest) := readItems fuel (depth - 1) rest
        (enclosed depth (.array items), rest)
    | '\x7b' :: rest =>
      match skipSpace rest with
      | '\x7d' :: rest => (enclosed depth (.object []), rest)
      | rest =>
        let (members, rest) := readMembers fuel (depth - 1) rest
        (enclosed depth (.object members), rest)
    | cs =>
      match scanLiteral cs with
      | some (l, rest) => (l.value, rest)
      | none => (.broken, [])

def readItems : Nat → Nat → List Char → List Json × List Char
  | 0, _, _ => ([.broken], [])
  | fuel + 1, depth, cs =>
    let (v, rest) := readValue fuel depth cs
    match skipSpace rest with
    | ',' :: rest => let (vs, rest) := readItems fuel depth rest; (v :: vs, rest)
    | ']' :: rest => ([v], rest)
    | _ => ([v, .broken], [])

def readMembers : Nat → Nat → List Char → List (String × Json) × List Char
  | 0, _, _ => ([("", .broken)], [])
  | fuel + 1, depth, cs =>
    match skipSpace cs with
    | '"' :: rest =>
      match scanQuoted .start rest with
      | some (name, rest) =>
        match skipSpace rest with
        | ':' :: rest =>
          let (v, rest) := readValue fuel depth rest
          let m := member name v
          match skipSpace rest with
          | ',' :: rest => let (ms, rest) := readMembers fuel depth rest; (m :: ms, rest)
          | '\x7d' :: rest => ([m], rest)
          | _ => ([m, ("", .broken)], [])
        | _ => ([("", .broken)], [])
      | none => ([("", .broken)], [])
    | _ => ([("", .broken)], [])

end

/-- Reads the value at the front of a text; each step of reading takes a character or
is followed by one that does. -/
def read (cs : List Char) : Json × List Char :=
  readValue (2 * cs.length + 2) greatestDepth cs

end Entitlement.Json
