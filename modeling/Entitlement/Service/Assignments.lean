import Entitlement.Service.Ports

/-!
# Assigning roles

A role is assigned to a user and taken away again. A row that has expired stays until
someone comes across it: whoever removes it announces that. Sweeping removes expired
rows in batches.
-/

set_option autoImplicit false

namespace Entitlement.Service

def removeExpired (a : Assignment) : Service Unit := do
  if ← deleteAssignment a.id then emit (.userRoleUnassigned a)

def vacate (user : UserId) (role : RoleId) (time : Instant) : Service Unit := do
  match ← findAssignment user role with
  | some existing =>
    if existing.isActiveAt time then throw (.alreadyAssigned role user)
    else removeExpired existing
  | none => return

def assign (user : UserId) (role : RoleId) (expiresAt : Option Instant)
    (actor : Option Actor) : Service Assignment := do
  let startedAt ← now
  let definition ← require (.roleNotFound role) (← findRole role)
  vacate user role startedAt
  let id ← newId
  let row : Assignment := ⟨⟨id⟩, role, user, expiresAt, startedAt⟩
  insertAssignment row
  touch role startedAt
  emit (.userRoleAssigned row)
  if definition.isPublic then notify user (.roleAssigned role)
  record actor .assignRole
    (.object [("roleId", role.encode), ("roleName", definition.name.encode),
      ("userId", user.encode), ("expiresAt", .ofOption Instant.encode expiresAt)])
  return row

def unassign (user : UserId) (role : RoleId) (actor : Option Actor) : Service Unit := do
  let startedAt ← now
  let existing ← require (.notAssigned role user) (← findAssignment user role)
  if existing.isExpiredAt startedAt then
    removeExpired existing
    throw (.notAssigned role user)
  else
    let _ ← deleteAssignment existing.id
    touch role startedAt
    emit (.userRoleUnassigned existing)
    let found ← findRole role
    record actor .unassignRole
      (.object [("roleId", role.encode),
        ("roleName", .ofOption Name.encode (found.map (·.name))), ("userId", user.encode)])

inductive Sweep where
  | onward (removed : Nat)
  | ended (removed : Nat)
  deriving DecidableEq, Repr

def Sweep.total : Sweep → Nat
  | .onward removed | .ended removed => removed

def removeBatch : List Assignment → Nat → Service Nat
  | [], removed => return removed
  | a :: rest, removed => do
    if ← deleteAssignment a.id then
      emit (.userRoleUnassigned a)
      removeBatch rest (removed + 1)
    else removeBatch rest removed

def sweepRound (batchSize : Nat) (startedAt : Instant) (removed : Nat) : Service Sweep := do
  let batch ← expiredAssignments startedAt batchSize
  let total ← removeBatch batch removed
  if batch.length < batchSize ∨ total = removed then return .ended total
  else return .onward total

def sweepRounds (batchSize : Nat) (startedAt : Instant) : Nat → Nat → Service Nat
  | 0, removed => do return (← sweepRound batchSize startedAt removed).total
  | rounds + 1, removed => do
    match ← sweepRound batchSize startedAt removed with
    | .ended total => return total
    | .onward total => sweepRounds batchSize startedAt rounds total

def sweep (batchSize rounds : Nat) : Service Nat := do
  if batchSize = 0 then throw .emptyBatch
  else
    let startedAt ← now
    sweepRounds batchSize startedAt rounds 0

end Entitlement.Service
