import Entitlement.Fault

/-!
# Fitting a value to a policy

A switch takes a switch, a limit takes a limit or a whole finite multiplier, and the
multiplier takes a finite multiplier or a limit. A whole number outside the range of
a limit becomes the nearest limit there is.
-/

set_option autoImplicit false

namespace Entitlement

def clampLimit (i : Int) : Int64 :=
  if i < Int64.minValue.toInt then Int64.minValue
  else if Int64.maxValue.toInt < i then Int64.maxValue
  else Int64.ofInt i

namespace PolicyValue

def fit? : PolicyKind → PolicyValue → Option PolicyValue
  | .flag, .flag value => some (.flag value)
  | .limit, .limit value => some (.limit value)
  | .limit, .factor value =>
    if value.isFinite && value.isWhole then some (.limit (clampLimit value.truncate)) else none
  | .factor, .factor value => if value.isFinite then some (.factor value) else none
  | .factor, .limit value => some (.factor (Binary64.ofInt value.toInt))
  | _, _ => none

def coerceFor (value : PolicyValue) (policy : PolicyName) : Except Fault PolicyValue :=
  match value.fit? policy.kind with
  | some fitted => .ok fitted
  | none => .error (.valueMisfit value policy)

end PolicyValue

end Entitlement
