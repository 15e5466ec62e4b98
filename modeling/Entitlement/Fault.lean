import Entitlement.Ident
import Entitlement.Policy.Value
import Entitlement.Text.Escaped
import Entitlement.Text.Numeral

/-!
# Faults

Everything that can go wrong, by cause. The wording of each cause is given once.
-/

set_option autoImplicit false

namespace Entitlement

open Text

inductive QueryFault where
  | refused (message : String)
  | unreadableColumn (name : String)
  | unreadableValue
  | missingColumn (name : String)
  | missingRow
  deriving DecidableEq, Repr

namespace QueryFault

def message : QueryFault → String
  | .refused message => "error returned from database: " ++ message
  | .unreadableColumn name => "error occurred while decoding column \"" ++ name ++ "\""
  | .unreadableValue => "error occurred while decoding column 0: " ++
    "unexpected null; try decoding as an `Option`"
  | .missingColumn name => "no column found for name: " ++ name
  | .missingRow => "no rows returned by a query that expected to return at least one row"

end QueryFault

inductive Fault where
  | blankText
  | conditionTooDeep (depth : Nat)
  | unknownPolicy (name : String)
  | valueMisfit (value : PolicyValue) (policy : PolicyName)
  | valueMissing (policy : PolicyName)
  | unknownPriority (number : Nat)
  | emptyBatch
  | invalidInstancePolicies (cause : Fault)
  | unreadableInstancePolicies
  | settingMissing (name : String)
  | settingUnreadable (name value : String) (cause : NumeralFault)
  | settingZero (name : String)
  | invalidAddress (setting : String)
  | roleExists (role : RoleId)
  | roleNotFound (role : RoleId)
  | alreadyAssigned (role : RoleId) (user : UserId)
  | notAssigned (role : RoleId) (user : UserId)
  | queryFailed (task : String) (cause : QueryFault)
  | databaseUnreachable
  | publicationUnreachable
  | publicationRefused (event channel : String)
  | subscriptionUnreachable
  | subscriptionRefused (channel : String)
  | outage (port : String)
  deriving DecidableEq, Repr

namespace Fault

inductive Category where
  | validation
  | conflict
  | roleNotFound
  | alreadyAssigned
  | notAssigned
  | internal
  deriving DecidableEq, Repr

def category : Fault → Category
  | .roleExists _ => .conflict
  | .roleNotFound _ => .roleNotFound
  | .alreadyAssigned _ _ => .alreadyAssigned
  | .notAssigned _ _ => .notAssigned
  | .queryFailed _ _ => .internal
  | .databaseUnreachable => .internal
  | .publicationUnreachable => .internal
  | .publicationRefused _ _ => .internal
  | .subscriptionUnreachable => .internal
  | .subscriptionRefused _ => .internal
  | .outage _ => .internal
  | _ => .validation

def Category.headed (c : Category) (reason : String) : String :=
  match c with
  | .validation => "validation error: " ++ reason
  | .conflict => "conflict: " ++ reason
  | .internal => "internal error: " ++ reason
  | _ => reason

/-- The cause without its class. What a client of the database or of the message broker
has to add after a final colon is not part of it. -/
def reason : Fault → String
  | .blankText => "value must not be empty or whitespace"
  | .conditionTooDeep depth =>
    "role condition depth " ++ numeral depth ++ " exceeds the maximum of 64"
  | .unknownPolicy name => "unknown policy value '" ++ name ++ "'"
  | .valueMisfit value policy =>
    "value " ++ value.shown ++ " does not fit policy '" ++ policy.text ++ "'"
  | .valueMissing policy =>
    "policy '" ++ policy.text ++ "' override needs a value when useDefault is false"
  | .unknownPriority number =>
    "policy priority must be 0, 1 or 2, got " ++ numeral number
  | .emptyBatch => "batch_size must be greater than zero"
  | .invalidInstancePolicies cause =>
    "invalid instance policies: " ++ cause.category.headed cause.reason
  | .unreadableInstancePolicies => "invalid instance policies:"
  | .settingMissing name => name ++ " is required"
  | .settingUnreadable name value cause =>
    "invalid " ++ name ++ " value '" ++ value ++ "': " ++ cause.message
  | .settingZero name => name ++ " must be greater than zero"
  | .invalidAddress setting => "invalid " ++ setting ++ ":"
  | .roleExists role => "role '" ++ role.toText ++ "' already exists"
  | .roleNotFound role => "role '" ++ role.toText ++ "' was not found"
  | .alreadyAssigned role user =>
    "role '" ++ role.toText ++ "' is already assigned to user '" ++ user.toText ++ "'"
  | .notAssigned role user =>
    "role '" ++ role.toText ++ "' is not assigned to user '" ++ user.toText ++ "'"
  | .queryFailed task cause => "failed to " ++ task ++ ": " ++ cause.message
  | .databaseUnreachable => "failed to connect to database:"
  | .publicationUnreachable => "failed to connect to redis:"
  | .publicationRefused event channel =>
    "failed to publish role event '" ++ event ++ "' to redis channel '" ++ channel ++ "':"
  | .subscriptionUnreachable => "failed to open redis pub/sub connection:"
  | .subscriptionRefused channel =>
    "failed to subscribe to redis channel '" ++ channel ++ "':"
  | .outage port => port ++ " unavailable"

def message (fault : Fault) : String := fault.category.headed fault.reason

def printed (fault : Fault) : String := fault.category.headed (escaped fault.reason)

end Fault

end Entitlement
