import Entitlement.Proofs.News
import Entitlement.Proofs.Store
import Entitlement.Service.Definitions
import Entitlement.World

/-!
# What last uses are not part of

The last use of a role may be noted or not. Here is what there is of roles, events, caches, feeds
and entries without it: whatever is done to them does the same to what there is without last uses.
-/

set_option autoImplicit false

namespace Entitlement

namespace Json

mutual

def without (name : String) : Json → Json
  | .array items => .array (withoutItems name items)
  | .object members => .object (withoutMembers name members)
  | j => j

def withoutItems (name : String) : List Json → List Json
  | [] => []
  | j :: rest => j.without name :: withoutItems name rest

def withoutMembers (name : String) : List (String × Json) → List (String × Json)
  | [] => []
  | (n, j) :: rest =>
    if n = name then withoutMembers name rest
    else (n, j.without name) :: withoutMembers name rest

end

end Json

def ModerationEntry.definition (entry : ModerationEntry) : ModerationEntry :=
  { entry with details := entry.details.without "lastUsedAt" }

def Role.Same (r s : Role) : Prop := r.definition = s.definition

namespace Role

@[simp] theorem definition_id (r : Role) : r.definition.id = r.id := rfl

@[simp] theorem definition_updatedAt (r : Role) : r.definition.updatedAt = r.updatedAt := rfl

theorem encode_definition (r : Role) :
    r.definition.encode.without "lastUsedAt" = r.encode.without "lastUsedAt" := by
  simp [definition, encode, Json.without, Json.withoutMembers]

namespace Same

variable {r s : Role}

theorem get {α : Type} (h : Same r s) (field : Role → α) :
    field r.definition = field s.definition := congrArg field h

theorem updatedAt (h : Same r s) : r.updatedAt = s.updatedAt := h.get Role.updatedAt

theorem name (h : Same r s) : r.name = s.name := h.get Role.name

theorem isPublic (h : Same r s) : r.isPublic = s.isPublic := h.get Role.isPublic

theorem encode (h : Same r s) : r.encode.without "lastUsedAt" = s.encode.without "lastUsedAt" := by
  rw [← encode_definition r, ← encode_definition s]
  exact h.get fun role => role.encode.without "lastUsedAt"

theorem dated (h : Same r s) (time : Instant) :
    Same { r with updatedAt := time } { s with updatedAt := time } :=
  h.get fun role : Role => ({ role with updatedAt := time } : Role)

end Same

end Role

theorem RoleEdit.apply_definition (edit : RoleEdit) (r : Role) :
    edit.apply r.definition = (edit.apply r).map Role.definition := by
  unfold RoleEdit.apply
  cases edit.name with
  | none => rfl
  | some text => cases h : Name.ofText text <;> simp [h, Role.definition, Except.map]

def RoleEvent.definition : RoleEvent → RoleEvent
  | .roleCreated role => .roleCreated role.definition
  | .roleUpdated role => .roleUpdated role.definition
  | .roleDeleted role => .roleDeleted role.definition
  | e => e

theorem Role.Same.updated {r s : Role} (h : Same r s) :
    (RoleEvent.roleUpdated r).definition = (RoleEvent.roleUpdated s).definition :=
  h.get RoleEvent.roleUpdated

theorem Role.Same.deleted {r s : Role} (h : Same r s) :
    (RoleEvent.roleDeleted r).definition = (RoleEvent.roleDeleted s).definition :=
  h.get RoleEvent.roleDeleted

namespace RoleSnapshot

def definitions (s : RoleSnapshot) : RoleSnapshot :=
  { s with entry := s.entry.map fun c => { c with value := c.value.map Role.definition } }

theorem replaceOlder_definition (role : Role) (roles : List Role) :
    (replaceOlder role roles).map Role.definition =
      replaceOlder role.definition (roles.map Role.definition) := by
  induction roles with
  | nil => rfl
  | cons r rest ih =>
    by_cases same : r.id = role.id
    · by_cases older : role.updatedAt < r.updatedAt <;> simp [replaceOlder, same, older]
    · simp [replaceOlder, same, ih]

theorem patch_definition (e : RoleEvent) (roles : List Role) :
    (patch e roles).map Role.definition = patch e.definition (roles.map Role.definition) := by
  cases e with
  | roleCreated role =>
    have known : (roles.map Role.definition).any (fun r => r.id = role.definition.id) =
        roles.any fun r => r.id = role.id := List.any_map
    rw [patch, RoleEvent.definition, patch, known]
    split
    · exact replaceOlder_definition role roles
    · rw [List.map_append, List.map_singleton]
  | roleUpdated role => exact replaceOlder_definition role roles
  | roleDeleted role => exact (List.filter_map (p := fun r : Role => r.id ≠ role.id)).symm
  | _ => rfl

theorem apply_definition (e : RoleEvent) (s : RoleSnapshot) :
    (s.apply e).definitions = s.definitions.apply e.definition := by
  simp only [apply, definitions, Option.map_map]
  congr 2
  funext c
  simp [patch_definition]

end RoleSnapshot

def Cache.definitions (c : Cache) : Cache := { c with roles := c.roles.definitions }

theorem Cache.apply_definition (e : RoleEvent) (c : Cache) :
    (c.apply e).definitions = c.definitions.apply e.definition := by
  cases e with
  | userRoleAssigned a => rfl
  | userRoleUnassigned a => rfl
  | _ => exact congrArg (Cache.mk · c.lists) (RoleSnapshot.apply_definition _ c.roles)

namespace Feed

variable {κ : Type}

def definitions (feed : Feed κ) : Feed κ := { feed with
  subscriptions := feed.subscriptions.map fun s =>
    { s with waiting := s.waiting.map RoleEvent.definition } }

theorem publish_definition (e : RoleEvent) (feed : Feed κ) :
    (feed.publish e).definitions = feed.definitions.publish e.definition := by
  simp [publish, definitions, List.filter_map, Function.comp_def]

end Feed

namespace Store

variable {s t : Store}

def definitions (s : Store) : Store := { s with roles := s.roles.map Role.definition }

theorem findRole_definitions (s : Store) (id : RoleId) :
    s.definitions.findRole id = (s.findRole id).map Role.definition :=
  List.find?_map ..

theorem hasRole_definitions (s : Store) (id : RoleId) :
    s.definitions.hasRole id = s.hasRole id := List.any_map

theorem insertRole_definitions (s : Store) (role : Role) :
    s.definitions.insertRole role.definition = (s.insertRole role).map definitions := by
  rw [insertRole, insertRole, Role.definition_id, hasRole_definitions]
  split
  · rfl
  · simp [Except.map, definitions]

theorem modifyFirst_definition (role : Role) (roles : List Role) :
    (modifyFirst role.id (fun _ => role) roles).map Role.definition =
      modifyFirst role.id (fun _ => role.definition) (roles.map Role.definition) := by
  induction roles with
  | nil => rfl
  | cons r rest ih => by_cases same : r.id = role.id <;> simp [modifyFirst, same, ih]

theorem updateRole_definitions (s : Store) (role : Role) :
    s.definitions.updateRole role.definition = (s.updateRole role).map definitions := by
  rw [updateRole, updateRole, Role.definition_id, hasRole_definitions]
  split
  · exact congrArg (fun roles => Except.ok (Store.mk roles s.rows))
      (modifyFirst_definition role s.roles).symm
  · rfl

theorem deleteRole_definitions (s : Store) (id : RoleId) :
    s.definitions.deleteRole id = (s.deleteRole id).map definitions := by
  rw [deleteRole, deleteRole, hasRole_definitions]
  split
  · exact congrArg (fun roles => Except.ok (Store.mk roles _)) List.filter_map
  · rfl

theorem touchRole_definitions (s : Store) (id : RoleId) (usedAt : Instant) :
    (s.touchRole id usedAt).definitions = s.definitions :=
  congrArg (Store.mk · s.rows) (map_modifyFirst _ Role.definition s.roles fun _ _ => rfl)

theorem insertAssignment_definitions (s : Store) (a : Assignment) :
    s.definitions.insertAssignment a = (s.insertAssignment a).map definitions := by
  unfold insertAssignment
  change (if (s.findAssignment a.userId a.roleId).isSome then _ else _) = _
  split <;> rfl

end Store

end Entitlement
