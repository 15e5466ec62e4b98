import Entitlement.Json.Decode
import Entitlement.Json.Printer
import Entitlement.Time.Instant

/-!
# Statements and replies

A statement is a text with parameters; a reply holds rows and the number of rows the
statement changed, or says why it was refused. Columns are read by name, and the first
that cannot be read decides how reading fails.
-/

set_option autoImplicit false

namespace Entitlement

def Instant.databaseEpoch : Instant := ⟨946684800, 0⟩

/-- An instant as the database keeps it: whole microseconds from its epoch, what is
finer cut off towards the epoch. It knows no leap seconds. -/
def Instant.stored (t : Instant) : Instant :=
  .ofNanos (databaseEpoch.toNanos + (databaseEpoch.nanosUntil t).tdiv 1000 * 1000)

namespace Sql

inductive Value where
  | null
  | uuid (value : Uuid)
  | uuids (values : List Uuid)
  | text (value : String)
  | bool (value : Bool)
  | integer (value : Int)
  | timestamp (value : Instant)
  | date (value : Date)
  | dates (values : List Date)
  | json (text : String)
  deriving DecidableEq, Repr

namespace Value

variable {α : Type}

def ofOption (f : α → Value) : Option α → Value
  | some a => f a
  | none => .null

def ofInstant (t : Instant) : Value := .timestamp t.stored

def ofJson (j : Json) : Value := .json j.toText

def asUuid? : Value → Option Uuid
  | .uuid u => some u
  | _ => none

def asText? : Value → Option String
  | .text s => some s
  | _ => none

def asBool? : Value → Option Bool
  | .bool b => some b
  | _ => none

def asInteger? : Value → Option Int
  | .integer i => some i
  | _ => none

def asCount? : Value → Option UInt64
  | .integer i => some (UInt64.ofNat i.toNat)
  | _ => none

def asInstant? : Value → Option Instant
  | .timestamp t => some t
  | _ => none

def asDate? : Value → Option Date
  | .date d => some d
  | _ => none

def asDates? : Value → Option (List Date)
  | .dates ds => some ds
  | _ => none

def asJson? (decode : Json → Decoded α) : Value → Option α
  | .json s => (Json.decode decode s).toOption
  | _ => none

def nullable (read : Value → Option α) : Value → Option (Option α)
  | .null => some none
  | v => some <$> read v

end Value

abbrev Row := List (String × Value)

namespace Row

variable {α : Type}

def column (row : Row) (name : String) (read : Value → Option α) : Except QueryFault α :=
  match row.lookup name with
  | none => .error (.missingColumn name)
  | some v =>
    match read v with
    | some a => .ok a
    | none => .error (.unreadableColumn name)

def only (read : Value → Option α) : Row → Except QueryFault α
  | (_, v) :: _ =>
    match read v with
    | some a => .ok a
    | none => .error .unreadableValue
  | [] => .error .unreadableValue

end Row

structure Statement where
  text : String
  parameters : List Value
  deriving DecidableEq, Repr

inductive Reply where
  | completed (rows : List Row) (affected : Nat)
  | refused (state message : String)
  deriving DecidableEq, Repr

def Reply.nothing : Reply := .completed [] 0

def uniqueViolation : String := "23505"

def foreignKeyViolation : String := "23503"

namespace Reply

variable {α : Type}

def all (task : String) (read : Row → Except QueryFault α) : Reply → Except Fault (List α)
  | .completed rows _ => (rows.mapM read).mapError (.queryFailed task)
  | .refused _ message => .error (.queryFailed task (.refused message))

def first? (task : String) (read : Row → Except QueryFault α) : Reply → Except Fault (Option α)
  | .completed (row :: _) _ => (some <$> read row).mapError (.queryFailed task)
  | .completed [] _ => .ok none
  | .refused _ message => .error (.queryFailed task (.refused message))

def first (task : String) (read : Row → Except QueryFault α) (r : Reply) : Except Fault α := do
  match ← r.first? task read with
  | some a => .ok a
  | none => .error (.queryFailed task .missingRow)

def affected (task : String) : Reply → Except Fault Nat
  | .completed _ n => .ok n
  | .refused _ message => .error (.queryFailed task (.refused message))

end Reply

end Sql

end Entitlement
