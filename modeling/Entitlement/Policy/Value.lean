import Entitlement.Number.Shortest
import Entitlement.Policy.Name

/-!
# Policy values

The value of one policy before it is known to fit: a switch, a 64-bit limit or a
double precision multiplier.
-/

set_option autoImplicit false

namespace Entitlement

open Text

inductive PolicyValue where
  | flag (value : Bool)
  | limit (value : Int64)
  | factor (value : Binary64)
  deriving DecidableEq, Repr

namespace PolicyValue

def asFlag? : PolicyValue → Option Bool
  | .flag value => some value
  | _ => none

def asLimit? : PolicyValue → Option Int64
  | .limit value => some value
  | _ => none

def asFactor? : PolicyValue → Option Binary64
  | .factor value => some value
  | .limit value => some (Binary64.ofInt value.toInt)
  | .flag _ => none

def factorLayout : Binary64.Layout := ⟨-3, 16, true⟩

def shown : PolicyValue → String
  | .flag value => "Flag(" ++ (if value then "true" else "false") ++ ")"
  | .limit value => "Limit(" ++ String.ofList (signedDecimal value.toInt) ++ ")"
  | .factor value => "Factor(" ++ String.ofList (factorLayout.text value) ++ ")"

end PolicyValue

end Entitlement
