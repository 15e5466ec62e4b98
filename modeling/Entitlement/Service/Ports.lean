import Entitlement.Call

/-!
# What requests are made of

One-call requests, reading through the cache, and announcing a change. Telling a user,
recording an act and noting the last use of a role are courtesies: when one of them
fails, the request goes on.
-/

set_option autoImplicit false

namespace Entitlement.Service

def listRoles : Service (List Role) := ofCall (.ask .listRoles)

def findRole (role : RoleId) : Service (Option Role) := ofCall (.ask (.findRole role))

def insertRole (role : Role) : Service Unit := ofCall (.ask (.insertRole role))

def storeRole (role : Role) : Service Unit := ofCall (.ask (.updateRole role))

def removeRole (role : RoleId) : Service Unit := ofCall (.ask (.deleteRole role))

def assignmentsOfUser (user : UserId) : Service (List Assignment) :=
  ofCall (.ask (.assignmentsOfUser user))

def findAssignment (user : UserId) (role : RoleId) : Service (Option Assignment) :=
  ofCall (.ask (.findAssignment user role))

def insertAssignment (a : Assignment) : Service Unit := ofCall (.ask (.insertAssignment a))

def deleteAssignment (a : AssignmentId) : Service Bool := ofCall (.ask (.deleteAssignment a))

def assignmentsOfRoles (roles : List RoleId) : Service (List Assignment) :=
  ofCall (.ask (.assignmentsOfRoles roles))

def expiredAssignments (now : Instant) (limit : Nat) : Service (List Assignment) :=
  ofCall (.ask (.expiredAssignments now limit))

def findUser (user : UserId) : Service (Option User) := ofCall (.ask (.findUser user))

def instancePolicies : Service InstancePolicies := ofCall (.ask .instancePolicies)

def now : Service Instant := ofProcedure (.ask .now)

def newId : Service Uuid := ofProcedure (.ask .newId)

def cachedRoles : Service (List Role) := do
  match ← ofProcedure (.ask .lookupRoles) with
  | .fresh roles => return roles
  | .missing version =>
    let loaded ← listRoles
    ofProcedure (.ask (.installRoles version loaded))

def cachedAssignments (user : UserId) : Service (List Assignment) := do
  match ← ofProcedure (.ask (.lookupAssignments user)) with
  | .fresh rows => return rows
  | .missing version =>
    let loaded ← assignmentsOfUser user
    ofProcedure (.ask (.installAssignments user version loaded))

def emit (event : RoleEvent) : Service Unit := do
  ofProcedure (.ask (.applyEvent event))
  ofCall (.ask (.publish event))

def courtesy (p : Procedure (Except Fault Unit)) : Service Unit := do
  let _ ← ofProcedure p

def touch (role : RoleId) (usedAt : Instant) : Service Unit :=
  courtesy (.ask (.touchRole role usedAt))

def notify (user : UserId) (notification : Notification) : Service Unit :=
  courtesy (.ask (.notify user notification))

def record (actor : Option Actor) (action : ModerationAction) (details : Json) :
    Service Unit :=
  match actor with
  | none => return
  | some actor => do
    let createdAt ← now
    courtesy (.ask (.record ⟨actor.userId, action, details, createdAt⟩))

end Entitlement.Service
