import Entitlement.Service.Ports

/-!
# Defining roles

Roles are created, changed and deleted. A change names the fields it sets and leaves
the others as it found them; the record never seems older than the one it replaces.
-/

set_option autoImplicit false

namespace Entitlement

structure RoleDraft where
  name : String
  description : String
  color : Option String
  iconUrl : Option String
  target : RoleTarget
  isPublic : Bool
  isModerator : Bool
  isAdministrator : Bool
  isExplorable : Bool
  asBadge : Bool
  canEditMembersByModerator : Bool
  displayOrder : Int32
  policies : PolicyOverrides
  deriving DecidableEq

def RoleDraft.manual (name : String) : RoleDraft :=
  ⟨name, "", none, none, .manual, false, false, false, false, false, false, 0, .empty⟩

structure RoleEdit where
  name : Option String
  description : Option String
  color : Option (Option String)
  iconUrl : Option (Option String)
  target : Option RoleTarget
  isPublic : Option Bool
  isModerator : Option Bool
  isAdministrator : Option Bool
  isExplorable : Option Bool
  asBadge : Option Bool
  canEditMembersByModerator : Option Bool
  displayOrder : Option Int32
  policies : Option PolicyOverrides
  deriving DecidableEq

def RoleDraft.role (draft : RoleDraft) (id : RoleId) (now : Instant) : Except Fault Role := do
  let name ← Name.ofText draft.name
  return {
    id, name
    description := draft.description
    color := draft.color
    iconUrl := draft.iconUrl
    target := draft.target
    isPublic := draft.isPublic
    isModerator := draft.isModerator
    isAdministrator := draft.isAdministrator
    isExplorable := draft.isExplorable
    asBadge := draft.asBadge
    canEditMembersByModerator := draft.canEditMembersByModerator
    displayOrder := draft.displayOrder
    policies := draft.policies
    updatedAt := now
    lastUsedAt := now }

def RoleEdit.apply (edit : RoleEdit) (role : Role) : Except Fault Role := do
  let name ← match edit.name with
    | some s => Name.ofText s
    | none => .ok role.name
  return { role with
    name
    description := edit.description.getD role.description
    color := edit.color.getD role.color
    iconUrl := edit.iconUrl.getD role.iconUrl
    target := edit.target.getD role.target
    isPublic := edit.isPublic.getD role.isPublic
    isModerator := edit.isModerator.getD role.isModerator
    isAdministrator := edit.isAdministrator.getD role.isAdministrator
    isExplorable := edit.isExplorable.getD role.isExplorable
    asBadge := edit.asBadge.getD role.asBadge
    canEditMembersByModerator :=
      edit.canEditMembersByModerator.getD role.canEditMembersByModerator
    displayOrder := edit.displayOrder.getD role.displayOrder
    policies := edit.policies.getD role.policies }

namespace Service

def createRole (draft : RoleDraft) (actor : Option Actor) : Service Role := do
  let createdAt ← now
  let id ← newId
  let role ← ofExcept (draft.role ⟨id⟩ createdAt)
  insertRole role
  emit (.roleCreated role)
  record actor .createRole (.object [("roleId", role.id.encode), ("role", role.encode)])
  return role

def updateRole (id : RoleId) (edit : RoleEdit) (actor : Option Actor) : Service Role := do
  let before ← require (.roleNotFound id) (← findRole id)
  let edited ← ofExcept (edit.apply before)
  let changedAt ← now
  let after := { edited with updatedAt := max changedAt before.updatedAt }
  storeRole after
  emit (.roleUpdated after)
  record actor .updateRole
    (.object [("roleId", id.encode), ("before", before.encode), ("after", after.encode)])
  return after

def deleteRole (id : RoleId) (actor : Option Actor) : Service Unit := do
  let role ← require (.roleNotFound id) (← findRole id)
  removeRole id
  emit (.roleDeleted role)
  record actor .deleteRole (.object [("roleId", id.encode), ("role", role.encode)])

end Service

end Entitlement
