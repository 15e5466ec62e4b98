import Entitlement.Json.Printer
import Entitlement.Role

/-!
# Events, notifications and the moderation log

A change of roles or assignments is announced as an event that carries the record it
is about. An event travels between processes as a JSON text.
-/

set_option autoImplicit false

namespace Entitlement

inductive RoleEvent where
  | roleCreated (role : Role)
  | roleUpdated (role : Role)
  | roleDeleted (role : Role)
  | userRoleAssigned (assignment : Assignment)
  | userRoleUnassigned (assignment : Assignment)
  deriving DecidableEq

namespace RoleEvent

def name : RoleEvent → String
  | .roleCreated _ => "roleCreated"
  | .roleUpdated _ => "roleUpdated"
  | .roleDeleted _ => "roleDeleted"
  | .userRoleAssigned _ => "userRoleAssigned"
  | .userRoleUnassigned _ => "userRoleUnassigned"

def body : RoleEvent → Json
  | .roleCreated role => role.encode
  | .roleUpdated role => role.encode
  | .roleDeleted role => role.encode
  | .userRoleAssigned a => a.encode
  | .userRoleUnassigned a => a.encode

def encode (event : RoleEvent) : Json :=
  .object [("type", .text event.name), ("body", event.body)]

def ofBody {α : Type} (make : α → RoleEvent) (read : Bool → Json → Decoded α) :
    Bool → Option Json → Decoded RoleEvent
  | held, some j => return make (← read held j)
  | _, none => .error .malformed

def kinds (s : String) : Option (Bool → Option Json → Decoded RoleEvent) :=
  if s = "roleCreated" then some (ofBody .roleCreated Role.decode)
  else if s = "roleUpdated" then some (ofBody .roleUpdated Role.decode)
  else if s = "roleDeleted" then some (ofBody .roleDeleted Role.decode)
  else if s = "userRoleAssigned" then some (ofBody .userRoleAssigned fun _ => Assignment.decode)
  else if s = "userRoleUnassigned" then
    some (ofBody .userRoleUnassigned fun _ => Assignment.decode)
  else none

def decode : Json → Decoded RoleEvent
  | .object members => Json.asTagged false "type" "body" kinds .neither members
  | _ => .error .malformed

def toText (event : RoleEvent) : String := event.encode.toText

def ofText (s : String) : Decoded RoleEvent := Json.decode decode s

end RoleEvent

inductive Notification where
  | roleAssigned (role : RoleId)
  deriving DecidableEq, Repr

namespace Notification

def kind : Notification → String
  | .roleAssigned _ => "roleAssigned"

def encode : Notification → Json
  | .roleAssigned role => .object [("type", .text "roleAssigned"), ("roleId", role.encode)]

def kindOf : Bool → List (String × Json) → Decoded Unit
  | true, [] => .ok ()
  | false, [] => .error .malformed
  | found, (name, j) :: rest =>
    if name = "type" then
      if found then .error .malformed
      else match j with
        | .text "roleAssigned" => kindOf true rest
        | _ => .error .malformed
    else kindOf found rest

def decode (j : Json) : Decoded Notification :=
  match j with
  | .object members =>
    if j.legible then do
      kindOf false members
      (Notification.roleAssigned <$> Shape.field "roleId" RoleId.decode).read j
    else .error .malformed
  | _ => .error .malformed

end Notification

inductive ModerationAction where
  | createRole
  | updateRole
  | deleteRole
  | assignRole
  | unassignRole
  deriving DecidableEq, Repr

namespace ModerationAction

def text : ModerationAction → String
  | .createRole => "createRole"
  | .updateRole => "updateRole"
  | .deleteRole => "deleteRole"
  | .assignRole => "assignRole"
  | .unassignRole => "unassignRole"

def every : List ModerationAction :=
  [.createRole, .updateRole, .deleteRole, .assignRole, .unassignRole]

def decode (j : Json) : Decoded ModerationAction := do
  let s ← j.asChoice false
  Decoded.ofOption (every.find? fun a => a.text == s)

end ModerationAction

structure ModerationEntry where
  actorId : UserId
  action : ModerationAction
  details : Json
  createdAt : Instant

end Entitlement
