import Entitlement.Cache

/-!
# Calls and procedures

A procedure is a tree: it is finished, or it makes one call of its surroundings and
goes on with the answer. What a service does is a procedure, so the same definition
runs on a store in memory or in a database, and step by step beside other procedures.
-/

set_option autoImplicit false

namespace Entitlement

inductive Call where
  | listRoles
  | findRole (role : RoleId)
  | insertRole (role : Role)
  | updateRole (role : Role)
  | deleteRole (role : RoleId)
  | touchRole (role : RoleId) (usedAt : Instant)
  | assignmentsOfUser (user : UserId)
  | findAssignment (user : UserId) (role : RoleId)
  | insertAssignment (assignment : Assignment)
  | deleteAssignment (assignment : AssignmentId)
  | assignmentsOfRoles (roles : List RoleId)
  | expiredAssignments (now : Instant) (limit : Nat)
  | findUser (user : UserId)
  | findProfile (user : UserId)
  | countSecurityKeys (user : UserId)
  | measure (user : UserId) (metric : UserMetric)
  | instancePolicies
  | publish (event : RoleEvent)
  | subscribe
  | notify (user : UserId) (notification : Notification)
  | record (entry : ModerationEntry)
  | lookupRoles
  | installRoles (version : Nat) (loaded : List Role)
  | lookupAssignments (user : UserId)
  | installAssignments (user : UserId) (version : Nat) (loaded : List Assignment)
  | applyEvent (event : RoleEvent)
  | pruneCache
  | clearCache
  | now
  | newId

@[reducible] def Call.Answer : Call → Type
  | .listRoles => Except Fault (List Role)
  | .findRole _ => Except Fault (Option Role)
  | .insertRole _ => Except Fault Unit
  | .updateRole _ => Except Fault Unit
  | .deleteRole _ => Except Fault Unit
  | .touchRole _ _ => Except Fault Unit
  | .assignmentsOfUser _ => Except Fault (List Assignment)
  | .findAssignment _ _ => Except Fault (Option Assignment)
  | .insertAssignment _ => Except Fault Unit
  | .deleteAssignment _ => Except Fault Bool
  | .assignmentsOfRoles _ => Except Fault (List Assignment)
  | .expiredAssignments _ _ => Except Fault (List Assignment)
  | .findUser _ => Except Fault (Option User)
  | .findProfile _ => Except Fault (Option Profile)
  | .countSecurityKeys _ => Except Fault UInt64
  | .measure _ _ => Except Fault UInt64
  | .instancePolicies => Except Fault InstancePolicies
  | .publish _ => Except Fault Unit
  | .subscribe => Except Fault Unit
  | .notify _ _ => Except Fault Unit
  | .record _ => Except Fault Unit
  | .lookupRoles => Lookup (List Role)
  | .installRoles _ _ => List Role
  | .lookupAssignments _ => Lookup (List Assignment)
  | .installAssignments _ _ _ => List Assignment
  | .applyEvent _ => Unit
  | .pruneCache => Nat
  | .clearCache => Unit
  | .now => Instant
  | .newId => Uuid

def Call.failed? : (c : Call) → Fault → Option c.Answer
  | .listRoles, f => some (.error f)
  | .findRole _, f => some (.error f)
  | .insertRole _, f => some (.error f)
  | .updateRole _, f => some (.error f)
  | .deleteRole _, f => some (.error f)
  | .touchRole _ _, f => some (.error f)
  | .assignmentsOfUser _, f => some (.error f)
  | .findAssignment _ _, f => some (.error f)
  | .insertAssignment _, f => some (.error f)
  | .deleteAssignment _, f => some (.error f)
  | .assignmentsOfRoles _, f => some (.error f)
  | .expiredAssignments _ _, f => some (.error f)
  | .findUser _, f => some (.error f)
  | .findProfile _, f => some (.error f)
  | .countSecurityKeys _, f => some (.error f)
  | .measure _ _, f => some (.error f)
  | .instancePolicies, f => some (.error f)
  | .publish _, f => some (.error f)
  | .subscribe, f => some (.error f)
  | .notify _ _, f => some (.error f)
  | .record _, f => some (.error f)
  | _, _ => none

inductive Procedure (α : Type) where
  | done (value : α)
  | call (c : Call) (next : c.Answer → Procedure α)

namespace Procedure

variable {α β : Type}

def andThen : Procedure α → (α → Procedure β) → Procedure β
  | .done a, f => f a
  | .call c next, f => .call c fun answer => (next answer).andThen f

instance : Monad Procedure where
  pure := .done
  bind := andThen

def ask (c : Call) : Procedure c.Answer := .call c .done

def runOn {σ : Type} (answer : (c : Call) → σ → c.Answer × σ) : Procedure α → σ → α × σ
  | .done a, s => (a, s)
  | .call c next, s =>
    let (r, s) := answer c s
    (next r).runOn answer s

theorem andThen_done (p : Procedure α) : p.andThen .done = p := by
  induction p with
  | done a => rfl
  | call c next ih => simp [andThen, ih]

/-- A procedure that goes on with the value of another runs on the state it left. -/
theorem runOn_andThen {σ : Type} (answer : (c : Call) → σ → c.Answer × σ) (p : Procedure α)
    (f : α → Procedure β) (s : σ) :
    (p.andThen f).runOn answer s =
      (f (p.runOn answer s).1).runOn answer (p.runOn answer s).2 := by
  induction p generalizing s with
  | done a => rfl
  | call c next ih => simp [andThen, runOn, ih]

end Procedure

abbrev Service (α : Type) := ExceptT Fault Procedure α

namespace Service

variable {α : Type}

def ofCall (p : Procedure (Except Fault α)) : Service α := ExceptT.mk p

def ofProcedure (p : Procedure α) : Service α := ExceptT.lift p

def require (fault : Fault) : Option α → Service α
  | some a => pure a
  | none => throw fault

def ofExcept (e : Except Fault α) : Service α := ExceptT.mk (.done e)

end Service

end Entitlement
