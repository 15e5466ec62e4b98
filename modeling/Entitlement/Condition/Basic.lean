import Entitlement.Fault

/-!
# Role conditions

A condition is a tree of predicates about one user. Trees are built from the leaves
up; each step checks that the tree stays within the greatest depth.
-/

set_option autoImplicit false

namespace Entitlement

inductive UserFlag where
  | isLocal
  | isRemote
  | isBot
  | isSuspended
  | isCat
  | hasSecurityKey
  | hasTwoFactorAuth
  | hasEmailVerified
  | hasPasswordLessLogin
  | birthday
  deriving DecidableEq, Repr

inductive AgeSubject where
  | accountCreated
  | profileUpdated
  deriving DecidableEq, Repr

inductive AgeBound where
  | lessThan
  | moreThan
  deriving DecidableEq, Repr

inductive UserMetric where
  | driveUsage
  | loginDays
  | followers
  | following
  | notes
  | reactionsSent
  | reactionsReceived
  | renotesSent
  | renotesReceived
  | repliesSent
  | repliesReceived
  | votesSent
  | votesReceived
  deriving DecidableEq, Repr

namespace UserMetric

def every : List UserMetric :=
  [.loginDays, .driveUsage, .followers, .following, .notes, .reactionsSent,
    .reactionsReceived, .renotesSent, .renotesReceived, .repliesSent, .repliesReceived,
    .votesSent, .votesReceived]

def text : UserMetric → String
  | .driveUsage => "driveUsage"
  | .loginDays => "loginDays"
  | .followers => "followers"
  | .following => "following"
  | .notes => "notes"
  | .reactionsSent => "reactionsSent"
  | .reactionsReceived => "reactionsReceived"
  | .renotesSent => "renotesSent"
  | .renotesReceived => "renotesReceived"
  | .repliesSent => "repliesSent"
  | .repliesReceived => "repliesReceived"
  | .votesSent => "votesSent"
  | .votesReceived => "votesReceived"

def ofText? (s : String) : Option UserMetric :=
  every.find? fun m => m.text == s

end UserMetric

inductive Comparison where
  | lessThanOrEq
  | moreThanOrEq
  deriving DecidableEq, Repr

def Comparison.holds : Comparison → UInt64 → UInt64 → Bool
  | .lessThanOrEq, actual, threshold => actual ≤ threshold
  | .moreThanOrEq, actual, threshold => threshold ≤ actual

inductive Predicate where
  | roleAssignedTo (role : RoleId)
  | flag (flag : UserFlag)
  | age (subject : AgeSubject) (bound : AgeBound) (seconds : UInt64)
  | threshold (metric : UserMetric) (comparison : Comparison) (value : UInt64)
  deriving DecidableEq, Repr

inductive Condition where
  | all (children : List Condition)
  | any (children : List Condition)
  | negation (child : Condition)
  | leaf (predicate : Predicate)
  deriving Repr

namespace Condition

instance : Inhabited Condition := ⟨.all []⟩

def greatestDepth : Nat := 64

mutual

def depth : Condition → Nat
  | .all children => depths children + 1
  | .any children => depths children + 1
  | .negation child => child.depth + 1
  | .leaf _ => 1

def depths : List Condition → Nat
  | [] => 0
  | c :: rest => max c.depth (depths rest)

end

mutual

def decEq : (a b : Condition) → Decidable (a = b)
  | .all cs, .all ds =>
    match decEqs cs ds with
    | .isTrue h => .isTrue (by rw [h])
    | .isFalse h => .isFalse (by simpa using h)
  | .any cs, .any ds =>
    match decEqs cs ds with
    | .isTrue h => .isTrue (by rw [h])
    | .isFalse h => .isFalse (by simpa using h)
  | .negation c, .negation d =>
    match decEq c d with
    | .isTrue h => .isTrue (by rw [h])
    | .isFalse h => .isFalse (by simpa using h)
  | .leaf p, .leaf q =>
    if h : p = q then .isTrue (by rw [h]) else .isFalse (by simpa using h)
  | .all _, .any _ | .all _, .negation _ | .all _, .leaf _
  | .any _, .all _ | .any _, .negation _ | .any _, .leaf _
  | .negation _, .all _ | .negation _, .any _ | .negation _, .leaf _
  | .leaf _, .all _ | .leaf _, .any _ | .leaf _, .negation _ => .isFalse (by simp)

def decEqs : (cs ds : List Condition) → Decidable (cs = ds)
  | [], [] => .isTrue rfl
  | [], _ :: _ => .isFalse (by simp)
  | _ :: _, [] => .isFalse (by simp)
  | c :: cs, d :: ds =>
    match decEq c d, decEqs cs ds with
    | .isTrue h, .isTrue g => .isTrue (by rw [h, g])
    | .isFalse h, _ => .isFalse (by simp [h])
    | _, .isFalse g => .isFalse (by simp [g])

end

instance : DecidableEq Condition := decEq

def validated (c : Condition) : Except Fault Condition :=
  if c.depth ≤ greatestDepth then .ok c else .error (.conditionTooDeep c.depth)

def mkAll (children : List Condition) : Except Fault Condition := (all children).validated

def mkAny (children : List Condition) : Except Fault Condition := (any children).validated

def mkNegation (child : Condition) : Except Fault Condition := (negation child).validated

end Condition

end Entitlement
