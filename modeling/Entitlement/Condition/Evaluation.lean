import Entitlement.Call

/-!
# Evaluating conditions

A condition is evaluated for one user from left to right, and no further than its value
is open. The profile is looked up when a leaf first needs it and kept once a lookup
has succeeded; a leaf whose lookup fails, or whose profile does not exist, does not
hold.
-/

set_option autoImplicit false

namespace Entitlement

structure Subject where
  user : User
  roles : List RoleId
  now : Instant

abbrev ProfileMemo := Option (Option Profile)

def Instant.elapsedMillis (since now : Instant) : Int := (since.nanosUntil now).tdiv 1000000

def AgeBound.holds (bound : AgeBound) (since now : Instant) (seconds : UInt64) : Bool :=
  let threshold : Int := seconds.toNat * 1000
  match bound with
  | .lessThan => since.elapsedMillis now < threshold
  | .moreThan => threshold < since.elapsedMillis now

namespace Predicate

def profile (user : UserId) : ProfileMemo → Procedure (Option (Option Profile) × ProfileMemo)
  | some known => .done (some known, some known)
  | none => .call (.findProfile user) fun answer =>
    match answer with
    | .ok found => .done (some found, some found)
    | .error _ => .done (none, none)

def onProfile (user : UserId) (memo : ProfileMemo) (value : Profile → Procedure Bool) :
    Procedure (Bool × ProfileMemo) := do
  let (found, memo) ← profile user memo
  match found with
  | some (some p) => return (← value p, memo)
  | _ => return (false, memo)

def hasKey (user : UserId) (p : Profile) : Procedure Bool :=
  if p.twoFactorEnabled then
    .call (.countSecurityKeys user) fun answer =>
      match answer with
      | .ok count => .done (0 < count)
      | .error _ => .done false
  else .done false

def evaluateFlag (s : Subject) (memo : ProfileMemo) : UserFlag → Procedure (Bool × ProfileMemo)
  | .isLocal => .done (s.user.isLocal, memo)
  | .isRemote => .done (s.user.isRemote, memo)
  | .isBot => .done (s.user.isBot, memo)
  | .isSuspended => .done (s.user.isSuspended, memo)
  | .isCat => .done (s.user.isCat, memo)
  | .hasSecurityKey => onProfile s.user.id memo (hasKey s.user.id)
  | .hasTwoFactorAuth => onProfile s.user.id memo fun p => .done p.twoFactorEnabled
  | .hasEmailVerified => onProfile s.user.id memo fun p => .done p.emailVerified
  | .hasPasswordLessLogin => onProfile s.user.id memo fun p => .done p.usePasswordLessLogin
  | .birthday => onProfile s.user.id memo fun p => .done (p.isBirthday s.now.date)

def evaluateThreshold (s : Subject) (memo : ProfileMemo) (metric : UserMetric)
    (holds : UInt64 → Bool) : Procedure (Bool × ProfileMemo) :=
  match metric with
  | .followers => .done (holds s.user.followersCount, memo)
  | .following => .done (holds s.user.followingCount, memo)
  | .notes => .done (holds s.user.notesCount, memo)
  | .loginDays => onProfile s.user.id memo fun p => .done (holds p.loginDays)
  | metric => .call (.measure s.user.id metric) fun answer =>
    match answer with
    | .ok actual => .done (holds actual, memo)
    | .error _ => .done (false, memo)

def evaluate (s : Subject) (memo : ProfileMemo) : Predicate → Procedure (Bool × ProfileMemo)
  | .roleAssignedTo role => .done (role ∈ s.roles, memo)
  | .flag f => evaluateFlag s memo f
  | .age .accountCreated bound seconds =>
    .done (bound.holds s.user.createdAt s.now seconds, memo)
  | .age .profileUpdated bound seconds =>
    match s.user.updatedAt with
    | some t => .done (bound.holds t s.now seconds, memo)
    | none => .done (false, memo)
  | .threshold metric comparison value =>
    evaluateThreshold s memo metric fun actual => comparison.holds actual value

end Predicate

namespace Condition

mutual

def evaluateNode (s : Subject) : Condition → ProfileMemo → Procedure (Bool × ProfileMemo)
  | .all children, memo => evaluateAll s children memo
  | .any children, memo => evaluateAny s children memo
  | .negation child, memo => do
    let (value, memo) ← evaluateNode s child memo
    return (!value, memo)
  | .leaf p, memo => p.evaluate s memo

def evaluateAll (s : Subject) : List Condition → ProfileMemo → Procedure (Bool × ProfileMemo)
  | [], memo => .done (true, memo)
  | c :: rest, memo => do
    let (value, memo) ← evaluateNode s c memo
    if value then evaluateAll s rest memo else return (false, memo)

def evaluateAny (s : Subject) : List Condition → ProfileMemo → Procedure (Bool × ProfileMemo)
  | [], memo => .done (false, memo)
  | c :: rest, memo => do
    let (value, memo) ← evaluateNode s c memo
    if value then return (true, memo) else evaluateAny s rest memo

end

def evaluate (s : Subject) (c : Condition) : Procedure Bool := do
  let (value, _) ← evaluateNode s c none
  return value

end Condition

end Entitlement
