import Entitlement.Condition.Evaluation
import Entitlement.Service.Ports

/-!
# The roles of a user

A user holds the roles that are actively assigned, and after them the conditional
roles whose condition holds. Conditions see only the assigned roles, so that the
result does not depend on the order of conditional roles. For badges the whole
resolution is restricted to badge roles.
-/

set_option autoImplicit false

namespace Entitlement.Service

def assignedRoles (roles : List Role) (rows : List Assignment) (now : Instant) : List Role :=
  let ids := (rows.filter fun a => a.isActiveAt now).map (·.roleId)
  roles.filter fun r => r.id ∈ ids

def candidates (roles assigned : List Role) : List (Role × Condition) :=
  (roles.filter fun r => r.id ∉ assigned.map (·.id)).filterMap fun r =>
    r.target.condition?.map fun c => (r, c)

def meeting (s : Subject) : List (Role × Condition) → Procedure (List Role)
  | [] => return []
  | (role, c) :: rest => do
    if ← c.evaluate s then return role :: (← meeting s rest) else meeting s rest

def resolveRoles (user : UserId) (time : Instant) (eligible : Role → Bool) :
    Service (List Role) := do
  let snapshot ← cachedRoles
  let rows ← cachedAssignments user
  let roles := snapshot.filter eligible
  let assigned := assignedRoles roles rows time
  let conditional := candidates roles assigned
  if conditional.isEmpty then return assigned
  else match ← findUser user with
    | none => return assigned
    | some found =>
      let met ← ofProcedure (meeting ⟨found, assigned.map (·.id), time⟩ conditional)
      return assigned ++ met

def userRoles (user : UserId) : Service (List Role) := do
  resolveRoles user (← now) fun _ => true

def badgeRoles (user : UserId) : Service (List Role) := do
  resolveRoles user (← now) (·.asBadge)

def userAssignments (user : UserId) : Service (List Assignment) := do
  let time ← now
  let rows ← cachedAssignments user
  return rows.filter fun a => a.isActiveAt time

def basePolicies : Service PolicyTable := return .ofInstance (← instancePolicies)

def userPolicies (user : Option UserId) : Service PolicyTable := do
  let base ← basePolicies
  match user with
  | none => return base
  | some user =>
    let roles ← userRoles user
    return .resolve base (roles.map (·.policies))

def hasPrivilege (actor : Option Actor) (privilege : Role → Bool) : Service Bool :=
  match actor with
  | none => return false
  | some actor =>
    if actor.isRoot then return true
    else do return (← userRoles actor.userId).any privilege

def isModerator (actor : Option Actor) : Service Bool := hasPrivilege actor (·.grantsModeration)

def isAdministrator (actor : Option Actor) : Service Bool := hasPrivilege actor (·.isAdministrator)

def isExplorable (role : RoleId) : Service Bool := do
  match ← findRole role with
  | some r => return r.isExplorable
  | none => return false

def dedup {α : Type} [DecidableEq α] : List α → List α
  | a :: b :: rest => if a = b then dedup (b :: rest) else a :: dedup (b :: rest)
  | few => few

def privilegedUsers (privilege : Role → Bool) : Service (List UserId) := do
  let roles ← cachedRoles
  let ids := (roles.filter privilege).map (·.id)
  if ids.isEmpty then return []
  else
    let time ← now
    let rows ← assignmentsOfRoles ids
    let users := (rows.filter fun a => a.isActiveAt time).map (·.userId)
    return dedup (users.mergeSort fun a b => a.uuid ≤ b.uuid)

def moderatorIds (includeAdministrators : Bool) : Service (List UserId) :=
  privilegedUsers fun r => r.isModerator || (includeAdministrators && r.isAdministrator)

def administratorIds : Service (List UserId) := privilegedUsers (·.isAdministrator)

def startSync : Service Unit := ofCall (.ask .subscribe)

def pruneCache : Procedure Nat := .ask .pruneCache

def clearCache : Procedure Unit := .ask .clearCache

end Entitlement.Service
