import Entitlement.Policy.Coercion

/-!
# Policy overrides

What a role says about the policies: for each policy at most one entry, which either
refers to the instance value or carries a value that fits the policy. Entries also
have a priority. The instance itself has a second, plainer set of values.
-/

set_option autoImplicit false

namespace Entitlement

inductive PolicyPriority where
  | low
  | medium
  | high
  deriving DecidableEq, Repr

namespace PolicyPriority

def number : PolicyPriority → Nat
  | .low => 0
  | .medium => 1
  | .high => 2

def ofNumber : Nat → Except Fault PolicyPriority
  | 0 => .ok .low
  | 1 => .ok .medium
  | 2 => .ok .high
  | n => .error (.unknownPriority n)

theorem ofNumber_number (p : PolicyPriority) : ofNumber p.number = .ok p := by
  cases p <;> rfl

end PolicyPriority

structure PolicyOverride where
  useDefault : Bool
  priority : PolicyPriority
  value : Option PolicyValue
  deriving DecidableEq, Repr

namespace PolicyOverride

def inherited : PolicyOverride := ⟨true, .low, none⟩

def resolve (entry : PolicyOverride) (base : PolicyValue) : PolicyValue :=
  match entry.value with
  | some value => if entry.useDefault then base else value
  | none => base

def validatedFor (entry : PolicyOverride) (policy : PolicyName) : Except Fault PolicyOverride :=
  match entry.value with
  | some value => return { entry with value := some (← value.coerceFor policy) }
  | none => if entry.useDefault then .ok entry else .error (.valueMissing policy)

end PolicyOverride

structure PolicyOverrides where
  entry : PolicyName → Option PolicyOverride

namespace PolicyOverrides

def empty : PolicyOverrides := ⟨fun _ => none⟩

instance : Inhabited PolicyOverrides := ⟨empty⟩

def isEmpty (overrides : PolicyOverrides) : Bool :=
  PolicyName.all.all fun n => (overrides.entry n).isNone

def effective (overrides : PolicyOverrides) (policy : PolicyName) : PolicyOverride :=
  (overrides.entry policy).getD .inherited

def toList (overrides : PolicyOverrides) : List (PolicyName × PolicyOverride) :=
  PolicyName.all.filterMap fun n => (overrides.entry n).map fun e => (n, e)

def put (overrides : PolicyOverrides) (policy : PolicyName) (entry : PolicyOverride) :
    PolicyOverrides :=
  ⟨fun n => if n = policy then some entry else overrides.entry n⟩

def insert (policy : PolicyName) (entry : PolicyOverride) : EStateM Fault PolicyOverrides Unit := do
  let valid ← liftExcept (entry.validatedFor policy)
  modify fun overrides => overrides.put policy valid

def insertAll (given : PolicyName → Option PolicyOverride) (names : List PolicyName) :
    EStateM Fault PolicyOverrides Unit :=
  names.forM fun n =>
    match given n with
    | some entry => insert n entry
    | none => pure ()

def ofEntries (given : PolicyName → Option PolicyOverride) : Except Fault PolicyOverrides :=
  match (insertAll given PolicyName.all).run empty with
  | .ok _ overrides => .ok overrides
  | .error fault _ => .error fault

instance : DecidableEq PolicyOverrides := fun a b =>
  if h : ∀ n ∈ PolicyName.all, a.entry n = b.entry n then
    .isTrue (by
      cases a
      cases b
      congr
      funext n
      exact h n (PolicyName.mem_all n))
  else .isFalse (fun e => h (fun _ _ => by rw [e]))

theorem put_entry (overrides : PolicyOverrides) (policy n : PolicyName) (entry : PolicyOverride) :
    (overrides.put policy entry).entry n = if n = policy then some entry else overrides.entry n :=
  rfl

end PolicyOverrides

structure InstancePolicies where
  value : PolicyName → Option PolicyValue

namespace InstancePolicies

def empty : InstancePolicies := ⟨fun _ => none⟩

instance : Inhabited InstancePolicies := ⟨empty⟩

def toList (policies : InstancePolicies) : List (PolicyName × PolicyValue) :=
  PolicyName.all.filterMap fun n => (policies.value n).map fun v => (n, v)

def put (policies : InstancePolicies) (policy : PolicyName) (value : PolicyValue) :
    InstancePolicies :=
  ⟨fun n => if n = policy then some value else policies.value n⟩

def ofValues (given : PolicyName → Option PolicyValue) : Except Fault InstancePolicies :=
  PolicyName.all.foldlM (fun policies n =>
    match given n with
    | some value => return policies.put n (← value.coerceFor n)
    | none => .ok policies) empty

end InstancePolicies

end Entitlement
