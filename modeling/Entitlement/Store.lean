import Entitlement.Role

/-!
# The store in memory

Roles are kept in the order in which they were added, and assignments as rows with
distinct identifiers, at most one for a pair of user and role. A change that fails
gives no new store.
-/

set_option autoImplicit false

namespace Entitlement

structure Store where
  roles : List Role
  rows : List Assignment
  deriving DecidableEq

namespace Store

def empty : Store := ⟨[], []⟩

instance : Inhabited Store := ⟨empty⟩

def findRole (s : Store) (id : RoleId) : Option Role := s.roles.find? fun r => r.id = id

def hasRole (s : Store) (id : RoleId) : Bool := s.roles.any fun r => r.id = id

def insertRole (s : Store) (role : Role) : Except Fault Store :=
  if s.hasRole role.id then .error (.roleExists role.id)
  else .ok { s with roles := s.roles ++ [role] }

def modifyFirst (id : RoleId) (f : Role → Role) : List Role → List Role
  | [] => []
  | r :: rest => if r.id = id then f r :: rest else r :: modifyFirst id f rest

def updateRole (s : Store) (role : Role) : Except Fault Store :=
  if s.hasRole role.id then
    .ok { s with roles := modifyFirst role.id (fun _ => role) s.roles }
  else .error (.roleNotFound role.id)

def deleteRole (s : Store) (id : RoleId) : Except Fault Store :=
  if s.hasRole id then
    .ok ⟨s.roles.filter fun r => r.id ≠ id, s.rows.filter fun a => a.roleId ≠ id⟩
  else .error (.roleNotFound id)

def touchRole (s : Store) (id : RoleId) (usedAt : Instant) : Store :=
  { s with roles := modifyFirst id (fun r => { r with lastUsedAt := usedAt }) s.roles }

def assignmentsOfUser (s : Store) (user : UserId) : List Assignment :=
  (s.rows.filter fun a => a.userId = user).mergeSort fun a b => a.createdAt ≤ b.createdAt

def findAssignment (s : Store) (user : UserId) (role : RoleId) : Option Assignment :=
  s.rows.find? fun a => a.userId = user ∧ a.roleId = role

def insertAssignment (s : Store) (a : Assignment) : Except Fault Store :=
  if (s.findAssignment a.userId a.roleId).isSome then
    .error (.alreadyAssigned a.roleId a.userId)
  else .ok { s with rows := (s.rows.filter fun b => b.id ≠ a.id) ++ [a] }

def deleteAssignment (s : Store) (id : AssignmentId) : Bool × Store :=
  (s.rows.any fun a => a.id = id, { s with rows := s.rows.filter fun a => a.id ≠ id })

def assignmentsOfRoles (s : Store) (ids : List RoleId) : List Assignment :=
  s.rows.filter fun a => a.roleId ∈ ids

def expiresBefore (a b : Assignment) : Bool :=
  match a.expiresAt, b.expiresAt with
  | some s, some t => s < t || (s = t && a.id.uuid ≤ b.id.uuid)
  | none, some _ => true
  | some _, none => false
  | none, none => a.id.uuid ≤ b.id.uuid

def expiredAssignments (s : Store) (now : Instant) (limit : Nat) : List Assignment :=
  ((s.rows.filter fun a => a.isExpiredAt now).mergeSort expiresBefore).take limit

end Store

end Entitlement
