import Entitlement.Condition.Node
import Entitlement.Json.Decode

/-!
# The written form of conditions

Each node is an object with a kind under `type` and the fields of that kind. A node is
decoded after its children and checked for its depth, so that the innermost node that
is too deep is the one reported. All parts of a condition must be legible before any
of it is looked at, those without a meaning too.
-/

set_option autoImplicit false

namespace Entitlement

namespace ConditionNode

def written (kind : String) (fields : List (String × Json)) : Json :=
  .object (("type", .text kind) :: fields)

def write : ConditionNode Json → Json
  | .and values => written "and" [("values", .array values)]
  | .or values => written "or" [("values", .array values)]
  | .not value => written "not" [("value", value)]
  | .roleAssignedTo roleId => written "roleAssignedTo" [("roleId", .text roleId.toText)]
  | .isLocal => written "isLocal" []
  | .isRemote => written "isRemote" []
  | .isBot => written "isBot" []
  | .isSuspended => written "isSuspended" []
  | .isCat => written "isCat" []
  | .hasSecurityKey => written "hasSecurityKey" []
  | .hasTwoFactorAuth => written "hasTwoFactorAuth" []
  | .hasEmailVerified => written "hasEmailVerified" []
  | .hasPasswordLessLogin => written "hasPasswordLessLogin" []
  | .birthday => written "birthday" []
  | .createdLessThan sec => written "createdLessThan" [("sec", .int sec.toNat)]
  | .createdMoreThan sec => written "createdMoreThan" [("sec", .int sec.toNat)]
  | .userInfoUpdatedLessThan sec => written "userInfoUpdatedLessThan" [("sec", .int sec.toNat)]
  | .userInfoUpdatedMoreThan sec => written "userInfoUpdatedMoreThan" [("sec", .int sec.toNat)]
  | .loginDaysLessThanOrEq day => written "loginDaysLessThanOrEq" [("day", .int day.toNat)]
  | .loginDaysMoreThanOrEq day => written "loginDaysMoreThanOrEq" [("day", .int day.toNat)]
  | .driveUsageLessThanOrEq usageSize =>
    written "driveUsageLessThanOrEq" [("usageSize", .int usageSize.toNat)]
  | .driveUsageMoreThanOrEq usageSize =>
    written "driveUsageMoreThanOrEq" [("usageSize", .int usageSize.toNat)]
  | .followersLessThanOrEq count => written "followersLessThanOrEq" [("count", .int count.toNat)]
  | .followersMoreThanOrEq count => written "followersMoreThanOrEq" [("count", .int count.toNat)]
  | .followingLessThanOrEq count => written "followingLessThanOrEq" [("count", .int count.toNat)]
  | .followingMoreThanOrEq count => written "followingMoreThanOrEq" [("count", .int count.toNat)]
  | .notesLessThanOrEq count => written "notesLessThanOrEq" [("count", .int count.toNat)]
  | .notesMoreThanOrEq count => written "notesMoreThanOrEq" [("count", .int count.toNat)]
  | .reactionsLessThanOrEq count => written "reactionsLessThanOrEq" [("count", .int count.toNat)]
  | .reactionsMoreThanOrEq count => written "reactionsMoreThanOrEq" [("count", .int count.toNat)]
  | .reactionsReceivedLessThanOrEq count =>
    written "reactionsReceivedLessThanOrEq" [("count", .int count.toNat)]
  | .reactionsReceivedMoreThanOrEq count =>
    written "reactionsReceivedMoreThanOrEq" [("count", .int count.toNat)]
  | .renotesLessThanOrEq count => written "renotesLessThanOrEq" [("count", .int count.toNat)]
  | .renotesMoreThanOrEq count => written "renotesMoreThanOrEq" [("count", .int count.toNat)]
  | .renotesReceivedLessThanOrEq count =>
    written "renotesReceivedLessThanOrEq" [("count", .int count.toNat)]
  | .renotesReceivedMoreThanOrEq count =>
    written "renotesReceivedMoreThanOrEq" [("count", .int count.toNat)]
  | .repliesLessThanOrEq count => written "repliesLessThanOrEq" [("count", .int count.toNat)]
  | .repliesMoreThanOrEq count => written "repliesMoreThanOrEq" [("count", .int count.toNat)]
  | .repliesReceivedLessThanOrEq count =>
    written "repliesReceivedLessThanOrEq" [("count", .int count.toNat)]
  | .repliesReceivedMoreThanOrEq count =>
    written "repliesReceivedMoreThanOrEq" [("count", .int count.toNat)]
  | .votesLessThanOrEq count => written "votesLessThanOrEq" [("count", .int count.toNat)]
  | .votesMoreThanOrEq count => written "votesMoreThanOrEq" [("count", .int count.toNat)]
  | .votesReceivedLessThanOrEq count =>
    written "votesReceivedLessThanOrEq" [("count", .int count.toNat)]
  | .votesReceivedMoreThanOrEq count =>
    written "votesReceivedMoreThanOrEq" [("count", .int count.toNat)]

inductive Body where
  | nodes (field : String) (make : List Condition → ConditionNode Condition)
  | node (field : String) (make : Condition → ConditionNode Condition)
  | role (field : String) (make : RoleId → ConditionNode Condition)
  | count (field : String) (make : UInt64 → ConditionNode Condition)
  | nothing (node : ConditionNode Condition)

def variants : List (String × Body) :=
  [("and", .nodes "values" .and),
    ("or", .nodes "values" .or),
    ("not", .node "value" .not),
    ("roleAssignedTo", .role "roleId" .roleAssignedTo),
    ("isLocal", .nothing .isLocal),
    ("isRemote", .nothing .isRemote),
    ("isBot", .nothing .isBot),
    ("isSuspended", .nothing .isSuspended),
    ("isCat", .nothing .isCat),
    ("hasSecurityKey", .nothing .hasSecurityKey),
    ("hasTwoFactorAuth", .nothing .hasTwoFactorAuth),
    ("hasEmailVerified", .nothing .hasEmailVerified),
    ("hasPasswordLessLogin", .nothing .hasPasswordLessLogin),
    ("birthday", .nothing .birthday),
    ("createdLessThan", .count "sec" .createdLessThan),
    ("createdMoreThan", .count "sec" .createdMoreThan),
    ("userInfoUpdatedLessThan", .count "sec" .userInfoUpdatedLessThan),
    ("userInfoUpdatedMoreThan", .count "sec" .userInfoUpdatedMoreThan),
    ("loginDaysLessThanOrEq", .count "day" .loginDaysLessThanOrEq),
    ("loginDaysMoreThanOrEq", .count "day" .loginDaysMoreThanOrEq),
    ("driveUsageLessThanOrEq", .count "usageSize" .driveUsageLessThanOrEq),
    ("driveUsageMoreThanOrEq", .count "usageSize" .driveUsageMoreThanOrEq),
    ("followersLessThanOrEq", .count "count" .followersLessThanOrEq),
    ("followersMoreThanOrEq", .count "count" .followersMoreThanOrEq),
    ("followingLessThanOrEq", .count "count" .followingLessThanOrEq),
    ("followingMoreThanOrEq", .count "count" .followingMoreThanOrEq),
    ("notesLessThanOrEq", .count "count" .notesLessThanOrEq),
    ("notesMoreThanOrEq", .count "count" .notesMoreThanOrEq),
    ("reactionsLessThanOrEq", .count "count" .reactionsLessThanOrEq),
    ("reactionsMoreThanOrEq", .count "count" .reactionsMoreThanOrEq),
    ("reactionsReceivedLessThanOrEq", .count "count" .reactionsReceivedLessThanOrEq),
    ("reactionsReceivedMoreThanOrEq", .count "count" .reactionsReceivedMoreThanOrEq),
    ("renotesLessThanOrEq", .count "count" .renotesLessThanOrEq),
    ("renotesMoreThanOrEq", .count "count" .renotesMoreThanOrEq),
    ("renotesReceivedLessThanOrEq", .count "count" .renotesReceivedLessThanOrEq),
    ("renotesReceivedMoreThanOrEq", .count "count" .renotesReceivedMoreThanOrEq),
    ("repliesLessThanOrEq", .count "count" .repliesLessThanOrEq),
    ("repliesMoreThanOrEq", .count "count" .repliesMoreThanOrEq),
    ("repliesReceivedLessThanOrEq", .count "count" .repliesReceivedLessThanOrEq),
    ("repliesReceivedMoreThanOrEq", .count "count" .repliesReceivedMoreThanOrEq),
    ("votesLessThanOrEq", .count "count" .votesLessThanOrEq),
    ("votesMoreThanOrEq", .count "count" .votesMoreThanOrEq),
    ("votesReceivedLessThanOrEq", .count "count" .votesReceivedLessThanOrEq),
    ("votesReceivedMoreThanOrEq", .count "count" .votesReceivedMoreThanOrEq)]

namespace Body

def field : Body → Option String
  | .nodes field _ | .node field _ | .role field _ | .count field _ => some field
  | .nothing _ => none

def decode (held : Bool) : Json → Decoded Body
  | .text s => Decoded.ofOption (variants.lookup s)
  | .int i =>
    if held ∧ 0 ≤ i then Decoded.ofOption (variants[i.toNat]?.map (·.2)) else .error .malformed
  | _ => .error .malformed

def decodeLeaf : Body → Json → Decoded (ConditionNode Condition)
  | .role _ make, j => return make ⟨← j.asSpelled Uuid.ofText?⟩
  | .count _ make, j => return make (← j.asUInt64)
  | .nothing leaf, _ => .ok leaf
  | _, _ => .error .malformed

end Body

def bodyOf (held : Bool) : Option Body → List (String × Json) → Decoded Body
  | some b, [] => .ok b
  | none, [] => .error .malformed
  | found, (name, j) :: rest =>
    if name = "type" then
      match found with
      | some _ => .error .malformed
      | none => do bodyOf held (some (← Body.decode held j)) rest
    else bodyOf held found rest

end ConditionNode

namespace Condition

mutual

def encode : Condition → Json
  | .all values => (ConditionNode.and (encodes values)).write
  | .any values => (ConditionNode.or (encodes values)).write
  | .negation value => (ConditionNode.not value.encode).write
  | .leaf p => p.toNode.write

def encodes : List Condition → List Json
  | [] => []
  | c :: rest => c.encode :: encodes rest

end

mutual

def decodeNode (held : Bool) : Json → Decoded Condition
  | .object members => do
    let b ← ConditionNode.bodyOf held none members
    let node ← decodeBody b none members
    Decoded.checked node.toCondition.validated
  | _ => .error .malformed

def decodeBody (b : ConditionNode.Body) : Option (ConditionNode Condition) →
    List (String × Json) → Decoded (ConditionNode Condition)
  | some node, [] => .ok node
  | none, [] =>
    match b with
    | .nothing node => .ok node
    | _ => .error .malformed
  | found, (name, j) :: rest =>
    if b.field = some name then
      match found with
      | some _ => .error .malformed
      | none => do
        let node ← match b with
          | .nodes _ make => match j with
            | .array items => do pure (make (← decodeNodes items))
            | _ => .error .malformed
          | .node _ make => do pure (make (← decodeNode true j))
          | b => b.decodeLeaf j
        decodeBody b (some node) rest
    else decodeBody b found rest

def decodeNodes : List Json → Decoded (List Condition)
  | [] => .ok []
  | j :: rest => do
    let c ← decodeNode true j
    return c :: (← decodeNodes rest)

end

/-- Decodes a condition; `held` tells that the tree around it was read in full before. -/
def decode (held : Bool) (j : Json) : Decoded Condition :=
  if j.legible then decodeNode held j else .error .malformed

end Condition

end Entitlement
