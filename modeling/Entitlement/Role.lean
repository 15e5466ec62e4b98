import Entitlement.Policy.Wire
import Entitlement.Text.Blank
import Entitlement.User

/-!
# Roles and assignments

A role is held by the users it is assigned to, and a conditional role also by those
who meet its condition. An assignment may expire; at the very moment of its expiry it
is no longer active.
-/

set_option autoImplicit false

namespace Entitlement

open Text

structure Name where
  text : String
  not_blank : blank text = false
  deriving DecidableEq, Repr

namespace Name

def ofText (s : String) : Except Fault Name :=
  if h : blank s = false then .ok ⟨s, h⟩ else .error .blankText

def decode (j : Json) : Decoded Name := do Decoded.checked (ofText (← j.asText))

def encode (name : Name) : Json := .text name.text

theorem ofText_text (name : Name) : ofText name.text = .ok name := by
  simp [ofText, name.not_blank]

end Name

inductive RoleTarget where
  | manual
  | conditional (condition : Condition)
  deriving DecidableEq, Repr

namespace RoleTarget

def text : RoleTarget → String
  | .manual => "manual"
  | .conditional _ => "conditional"

def condition? : RoleTarget → Option Condition
  | .manual => none
  | .conditional c => some c

def encode : RoleTarget → Json
  | .manual => .object [("kind", .text "manual")]
  | .conditional c => .object [("kind", .text "conditional"), ("condition", c.encode)]

def kinds (held : Bool) (s : String) : Option (Bool → Option Json → Decoded RoleTarget) :=
  if s = "manual" then
    some fun _ content => match content with
      | none | some .null => .ok .manual
      | some _ => .error .malformed
  else if s = "conditional" then
    some fun early content => match content with
      | none => .error .malformed
      | some j => return .conditional (← Condition.decode (held || early) j)
  else none

def decode (held : Bool) : Json → Decoded RoleTarget
  | .object members => Json.asTagged held "kind" "condition" (kinds held) .neither members
  | _ => .error .malformed

end RoleTarget

structure Role where
  id : RoleId
  name : Name
  description : String
  color : Option String
  iconUrl : Option String
  target : RoleTarget
  isPublic : Bool
  isModerator : Bool
  isAdministrator : Bool
  isExplorable : Bool
  asBadge : Bool
  canEditMembersByModerator : Bool
  displayOrder : Int32
  policies : PolicyOverrides
  updatedAt : Instant
  lastUsedAt : Instant
  deriving DecidableEq

namespace Role

def isConditional (role : Role) : Bool := role.target.condition?.isSome

def grantsModeration (role : Role) : Bool := role.isModerator || role.isAdministrator

def encode (role : Role) : Json :=
  .object [
    ("id", role.id.encode),
    ("name", role.name.encode),
    ("description", .text role.description),
    ("color", .ofOption .text role.color),
    ("iconUrl", .ofOption .text role.iconUrl),
    ("target", role.target.encode),
    ("isPublic", .bool role.isPublic),
    ("isModerator", .bool role.isModerator),
    ("isAdministrator", .bool role.isAdministrator),
    ("isExplorable", .bool role.isExplorable),
    ("asBadge", .bool role.asBadge),
    ("canEditMembersByModerator", .bool role.canEditMembersByModerator),
    ("displayOrder", .int role.displayOrder.toInt),
    ("policies", role.policies.encode),
    ("updatedAt", role.updatedAt.encode),
    ("lastUsedAt", role.lastUsedAt.encode)]

def shape (held : Bool) : Shape Role :=
  Role.mk <$> .field "id" RoleId.decode
    <*> .field "name" Name.decode
    <*> .field "description" Json.asText
    <*> .optional "color" Json.asText
    <*> .optional "iconUrl" Json.asText
    <*> .field "target" (RoleTarget.decode held)
    <*> .field "isPublic" Json.asBool
    <*> .field "isModerator" Json.asBool
    <*> .field "isAdministrator" Json.asBool
    <*> .field "isExplorable" Json.asBool
    <*> .field "asBadge" Json.asBool
    <*> .field "canEditMembersByModerator" Json.asBool
    <*> .field "displayOrder" Json.asInt32
    <*> .field "policies" PolicyOverrides.decode
    <*> .field "updatedAt" Instant.decode
    <*> .field "lastUsedAt" Instant.decode

def decode (held : Bool) : Json → Decoded Role := (shape held).read

end Role

structure Assignment where
  id : AssignmentId
  roleId : RoleId
  userId : UserId
  expiresAt : Option Instant
  createdAt : Instant
  deriving DecidableEq, Repr

namespace Assignment

def isExpiredAt (a : Assignment) (now : Instant) : Bool :=
  match a.expiresAt with
  | some t => t ≤ now
  | none => false

def isActiveAt (a : Assignment) (now : Instant) : Bool := !a.isExpiredAt now

def encode (a : Assignment) : Json :=
  .object [
    ("id", a.id.encode),
    ("roleId", a.roleId.encode),
    ("userId", a.userId.encode),
    ("expiresAt", .ofOption Instant.encode a.expiresAt),
    ("createdAt", a.createdAt.encode)]

def shape : Shape Assignment :=
  Assignment.mk <$> .field "id" AssignmentId.decode
    <*> .field "roleId" RoleId.decode
    <*> .field "userId" UserId.decode
    <*> .optional "expiresAt" Instant.decode
    <*> .field "createdAt" Instant.decode

def decode : Json → Decoded Assignment := shape.read

end Assignment

end Entitlement
