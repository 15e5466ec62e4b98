import Entitlement.Json.Decode
import Entitlement.Policy.Table

/-!
# The written form of policies

A value is written as the literal it is, and its kind is read off the literal: an
integer within 64 bits is a limit, any other number a multiplier. Maps are keyed by
policy; the whole map is decoded first and then checked in policy order.
-/

set_option autoImplicit false

namespace Entitlement

namespace PolicyName

def decode (j : Json) : Decoded PolicyName := do Decoded.ofOption (ofKey? (← j.asChoice false))

end PolicyName

namespace PolicyValue

def encode : PolicyValue → Json
  | .flag b => .bool b
  | .limit i => .int i.toInt
  | .factor x => .number x

def decode : Json → Decoded PolicyValue
  | .bool b => .ok (.flag b)
  | .int i =>
    if Int64.minValue.toInt ≤ i ∧ i ≤ Int64.maxValue.toInt then .ok (.limit (Int64.ofInt i))
    else .ok (.factor (Binary64.ofInt i))
  | .float x => .ok (.factor x)
  | _ => .error .malformed

end PolicyValue

namespace PolicyPriority

def encode (p : PolicyPriority) : Json := .int p.number

def decode (j : Json) : Decoded PolicyPriority := do
  Decoded.checked (ofNumber (← j.asBelow 256))

end PolicyPriority

namespace PolicyOverride

def encode (entry : PolicyOverride) : Json :=
  .object ([("useDefault", .bool entry.useDefault), ("priority", entry.priority.encode)] ++
    match entry.value with
    | some value => [("value", value.encode)]
    | none => [])

def shape : Shape PolicyOverride :=
  PolicyOverride.mk <$> .field "useDefault" Json.asBool
    <*> .fieldOr "priority" (.ok .low) PolicyPriority.decode
    <*> .optional "value" PolicyValue.decode

def decode : Json → Decoded PolicyOverride := shape.read

end PolicyOverride

def decodePolicyMap {β : Type} (read : Json → Decoded β) :
    (PolicyName → Option β) → List (String × Json) → Decoded (PolicyName → Option β)
  | given, [] => .ok given
  | given, (name, j) :: rest => do
    let policy ← Decoded.ofOption (PolicyName.ofKey? name)
    let value ← read j
    decodePolicyMap read (fun n => if n = policy then some value else given n) rest

namespace PolicyOverrides

def encode (overrides : PolicyOverrides) : Json :=
  .object (overrides.toList.map fun (n, entry) => (n.key, entry.encode))

def decode : Json → Decoded PolicyOverrides
  | .object members => do
    let given ← decodePolicyMap PolicyOverride.decode (fun _ => none) members
    Decoded.checked (ofEntries given)
  | _ => .error .malformed

end PolicyOverrides

namespace InstancePolicies

def encode (policies : InstancePolicies) : Json :=
  .object (policies.toList.map fun (n, value) => (n.key, value.encode))

def decodeValues : Json → Decoded (PolicyName → Option PolicyValue)
  | .object members => decodePolicyMap PolicyValue.decode (fun _ => none) members
  | _ => .error .malformed

def decode (j : Json) : Decoded InstancePolicies := do
  Decoded.checked (ofValues (← decodeValues j))

end InstancePolicies

namespace PolicyTable

def encode (table : PolicyTable) : Json :=
  .object [
    ("gtlAvailable", .bool table.gtlAvailable),
    ("ltlAvailable", .bool table.ltlAvailable),
    ("canPublicNote", .bool table.canPublicNote),
    ("mentionLimit", .int table.mentionLimit.toInt),
    ("canInvite", .bool table.canInvite),
    ("inviteLimit", .int table.inviteLimit.toInt),
    ("inviteLimitCycle", .int table.inviteLimitCycle.toInt),
    ("inviteExpirationTime", .int table.inviteExpirationTime.toInt),
    ("canManageCustomEmojis", .bool table.canManageCustomEmojis),
    ("canManageAvatarDecorations", .bool table.canManageAvatarDecorations),
    ("canSearchNotes", .bool table.canSearchNotes),
    ("canUseTranslator", .bool table.canUseTranslator),
    ("canHideAds", .bool table.canHideAds),
    ("driveCapacityMb", .int table.driveCapacityMb.toInt),
    ("alwaysMarkNsfw", .bool table.alwaysMarkNsfw),
    ("pinLimit", .int table.pinLimit.toInt),
    ("antennaLimit", .int table.antennaLimit.toInt),
    ("wordMuteLimit", .int table.wordMuteLimit.toInt),
    ("webhookLimit", .int table.webhookLimit.toInt),
    ("clipLimit", .int table.clipLimit.toInt),
    ("noteEachClipsLimit", .int table.noteEachClipsLimit.toInt),
    ("userListLimit", .int table.userListLimit.toInt),
    ("userEachUserListsLimit", .int table.userEachUserListsLimit.toInt),
    ("rateLimitFactor", .number table.rateLimitFactor),
    ("avatarDecorationLimit", .int table.avatarDecorationLimit.toInt)]

def shape : Shape PolicyTable :=
  PolicyTable.mk <$> .fieldOr "gtlAvailable" (.ok default.gtlAvailable) Json.asBool
    <*> .fieldOr "ltlAvailable" (.ok default.ltlAvailable) Json.asBool
    <*> .fieldOr "canPublicNote" (.ok default.canPublicNote) Json.asBool
    <*> .fieldOr "mentionLimit" (.ok default.mentionLimit) Json.asInt64
    <*> .fieldOr "canInvite" (.ok default.canInvite) Json.asBool
    <*> .fieldOr "inviteLimit" (.ok default.inviteLimit) Json.asInt64
    <*> .fieldOr "inviteLimitCycle" (.ok default.inviteLimitCycle) Json.asInt64
    <*> .fieldOr "inviteExpirationTime" (.ok default.inviteExpirationTime) Json.asInt64
    <*> .fieldOr "canManageCustomEmojis" (.ok default.canManageCustomEmojis) Json.asBool
    <*> .fieldOr "canManageAvatarDecorations" (.ok default.canManageAvatarDecorations) Json.asBool
    <*> .fieldOr "canSearchNotes" (.ok default.canSearchNotes) Json.asBool
    <*> .fieldOr "canUseTranslator" (.ok default.canUseTranslator) Json.asBool
    <*> .fieldOr "canHideAds" (.ok default.canHideAds) Json.asBool
    <*> .fieldOr "driveCapacityMb" (.ok default.driveCapacityMb) Json.asInt64
    <*> .fieldOr "alwaysMarkNsfw" (.ok default.alwaysMarkNsfw) Json.asBool
    <*> .fieldOr "pinLimit" (.ok default.pinLimit) Json.asInt64
    <*> .fieldOr "antennaLimit" (.ok default.antennaLimit) Json.asInt64
    <*> .fieldOr "wordMuteLimit" (.ok default.wordMuteLimit) Json.asInt64
    <*> .fieldOr "webhookLimit" (.ok default.webhookLimit) Json.asInt64
    <*> .fieldOr "clipLimit" (.ok default.clipLimit) Json.asInt64
    <*> .fieldOr "noteEachClipsLimit" (.ok default.noteEachClipsLimit) Json.asInt64
    <*> .fieldOr "userListLimit" (.ok default.userListLimit) Json.asInt64
    <*> .fieldOr "userEachUserListsLimit" (.ok default.userEachUserListsLimit) Json.asInt64
    <*> .fieldOr "rateLimitFactor" (.ok default.rateLimitFactor) Json.asFloat
    <*> .fieldOr "avatarDecorationLimit" (.ok default.avatarDecorationLimit) Json.asInt64

def decode : Json → Decoded PolicyTable := shape.read

end PolicyTable

end Entitlement
