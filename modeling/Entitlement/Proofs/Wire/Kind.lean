import Mathlib.Data.List.Forall2
import Entitlement.Condition.Wire
import Entitlement.Proofs.Json.Record
import Entitlement.Proofs.Keyed

/-!
# Kinds of nodes

The kind of a node is what it tests, without the data. The name of a kind and the field of its data
follow a rule, and every table of the written form keeps it: what is written of a condition is a
node of its kind, and what is read from a node of some kind is a condition of this kind with the
data of the node.
-/

set_option autoImplicit false

namespace Entitlement

def UserFlag.text : UserFlag → String
  | .isLocal => "isLocal"
  | .isRemote => "isRemote"
  | .isBot => "isBot"
  | .isSuspended => "isSuspended"
  | .isCat => "isCat"
  | .hasSecurityKey => "hasSecurityKey"
  | .hasTwoFactorAuth => "hasTwoFactorAuth"
  | .hasEmailVerified => "hasEmailVerified"
  | .hasPasswordLessLogin => "hasPasswordLessLogin"
  | .birthday => "birthday"

def UserMetric.stem : UserMetric → String
  | .driveUsage => "driveUsage"
  | .loginDays => "loginDays"
  | .followers => "followers"
  | .following => "following"
  | .notes => "notes"
  | .reactionsSent => "reactions"
  | .reactionsReceived => "reactionsReceived"
  | .renotesSent => "renotes"
  | .renotesReceived => "renotesReceived"
  | .repliesSent => "replies"
  | .repliesReceived => "repliesReceived"
  | .votesSent => "votes"
  | .votesReceived => "votesReceived"

def AgeSubject.stem : AgeSubject → String
  | .accountCreated => "created"
  | .profileUpdated => "userInfoUpdated"

def AgeBound.text : AgeBound → String
  | .lessThan => "LessThan"
  | .moreThan => "MoreThan"

def Comparison.text : Comparison → String
  | .lessThanOrEq => "LessThanOrEq"
  | .moreThanOrEq => "MoreThanOrEq"

namespace Condition

inductive Kind where
  | all
  | any
  | negation
  | roleAssignedTo
  | flag (flag : UserFlag)
  | age (subject : AgeSubject) (bound : AgeBound)
  | threshold (metric : UserMetric) (comparison : Comparison)
  deriving DecidableEq, Repr

namespace Kind

def text : Kind → String
  | .all => "and"
  | .any => "or"
  | .negation => "not"
  | .roleAssignedTo => "roleAssignedTo"
  | .flag f => f.text
  | .age subject bound => subject.stem ++ bound.text
  | .threshold metric comparison => metric.stem ++ comparison.text

def field : Kind → Option String
  | .all => some "values"
  | .any => some "values"
  | .negation => some "value"
  | .roleAssignedTo => some "roleId"
  | .flag _ => none
  | .age _ _ => some "sec"
  | .threshold .loginDays _ => some "day"
  | .threshold .driveUsage _ => some "usageSize"
  | .threshold _ _ => some "count"

def flags : List UserFlag :=
  [.isLocal, .isRemote, .isBot, .isSuspended, .isCat, .hasSecurityKey, .hasTwoFactorAuth,
    .hasEmailVerified, .hasPasswordLessLogin, .birthday]

def every : List Kind :=
  [.all, .any, .negation, .roleAssignedTo] ++ flags.map .flag ++
    [.age .accountCreated .lessThan, .age .accountCreated .moreThan,
      .age .profileUpdated .lessThan, .age .profileUpdated .moreThan] ++
    UserMetric.every.flatMap fun m => [.threshold m .lessThanOrEq, .threshold m .moreThanOrEq]

theorem texts_nodup : (every.map text).Nodup := by decide +kernel

theorem mem_every (k : Kind) : k ∈ every := by
  rcases k with _ | _ | _ | _ | flag | ⟨subject, bound⟩ | ⟨metric, comparison⟩
  · decide
  · decide
  · decide
  · decide
  · cases flag <;> decide
  · cases subject <;> cases bound <;> decide
  · cases metric <;> cases comparison <;> decide

theorem text_inj {k k' : Kind} (h : k.text = k'.text) : k = k' := by
  have find (k : Kind) : every.find? (fun x => text x = k.text) = some k :=
    (Keyed.find_iff text texts_nodup).mpr ⟨k.mem_every, rfl⟩
  exact Option.some.inj ((find k).symm.trans (h ▸ find k'))

theorem field_ne_type {k : Kind} {name : String} (h : k.field = some name) : name ≠ "type" := by
  cases k with
  | flag f => cases h
  | threshold metric _ => cases metric <;> cases h <;> decide
  | _ => cases h; decide

theorem eq_flag {k : Kind} (h : k.field = none) : ∃ f, k = .flag f := by
  cases k with
  | flag f => exact ⟨f, rfl⟩
  | threshold metric _ => cases metric <;> cases h
  | _ => cases h

end Kind

def kind : Condition → Kind
  | .all _ => .all
  | .any _ => .any
  | .negation _ => .negation
  | .leaf (.roleAssignedTo _) => .roleAssignedTo
  | .leaf (.flag f) => .flag f
  | .leaf (.age subject bound _) => .age subject bound
  | .leaf (.threshold metric comparison _) => .threshold metric comparison

def node (k : Kind) (data : Json) : Json :=
  match k.field with
  | some name => .object [("type", .text k.text), (name, data)]
  | none => .object [("type", .text k.text)]

def leafData : Predicate → Json
  | .roleAssignedTo role => .text role.toText
  | .flag _ => .null
  | .age _ _ seconds => .int seconds.toNat
  | .threshold _ _ value => .int value.toNat

theorem kindText_eq (c : Condition) : c.kindText = c.kind.text := by
  rcases c with _ | _ | _ | ⟨_ | f | ⟨subject, bound, _⟩ | ⟨metric, comparison, _⟩⟩
  case leaf.flag => cases f <;> rfl
  case leaf.age => cases subject <;> cases bound <;> rfl
  case leaf.threshold => cases metric <;> cases comparison <;> rfl
  all_goals rfl

theorem toCondition_toNode (c : Condition) : c.toNode.toCondition = c := by
  rcases c with _ | _ | _ | ⟨_ | f | ⟨subject, bound, _⟩ | ⟨metric, comparison, _⟩⟩
  case leaf.flag => cases f <;> rfl
  case leaf.age => cases subject <;> cases bound <;> rfl
  case leaf.threshold => cases metric <;> cases comparison <;> rfl
  all_goals rfl

theorem toNode_toCondition (node : ConditionNode Condition) : node.toCondition.toNode = node := by
  cases node <;> rfl

theorem write_toNode (p : Predicate) : p.toNode.write = node (leaf p).kind (leafData p) := by
  rcases p with _ | f | ⟨subject, bound, _⟩ | ⟨metric, comparison, _⟩
  case roleAssignedTo => rfl
  case flag => cases f <;> rfl
  case age => cases subject <;> cases bound <;> rfl
  case threshold => cases metric <;> cases comparison <;> rfl

theorem encode_leaf (p : Predicate) : encode (.leaf p) = node (leaf p).kind (leafData p) := by
  rw [encode, write_toNode]

theorem encode_all (children : List Condition) :
    encode (.all children) = node .all (.array (encodes children)) := by
  rw [encode]
  rfl

theorem encode_any (children : List Condition) :
    encode (.any children) = node .any (.array (encodes children)) := by
  rw [encode]
  rfl

theorem encode_negation (child : Condition) :
    encode (.negation child) = node .negation child.encode := by
  rw [encode]
  rfl

def leafOf : Kind → Json → Decoded Predicate
  | .roleAssignedTo, j => return .roleAssignedTo ⟨← j.asSpelled Uuid.ofText?⟩
  | .age subject bound, j => return .age subject bound (← j.asUInt64)
  | .threshold metric comparison, j => return .threshold metric comparison (← j.asUInt64)
  | _, _ => .error .malformed

def ofData : Kind → Json → Decoded Condition
  | .all, j => match j with
    | .array items => do pure (.all (← decodeNodes items))
    | _ => .error .malformed
  | .any, j => match j with
    | .array items => do pure (.any (← decodeNodes items))
    | _ => .error .malformed
  | .negation, j => do pure (.negation (← decodeNode true j))
  | .flag f, _ => .ok (.leaf (.flag f))
  | k, j => do pure (.leaf (← leafOf k j))

end Condition

namespace ConditionNode

open Condition

def Body.read : Body → Json → Decoded (ConditionNode Condition)
  | .nodes _ make, j => match j with
    | .array items => do pure (make (← decodeNodes items))
    | _ => .error .malformed
  | .node _ make, j => do pure (make (← decodeNode true j))
  | b, j => b.decodeLeaf j

structure Body.Reads (b : Body) (k : Kind) : Prop where
  field : b.field = k.field
  data : ∀ j, toCondition <$> b.read j = ofData k j

namespace Body.Reads

theorem all : (Body.nodes "values" and).Reads .all where
  field := rfl
  data j := by
    cases j with
    | array items => cases h : decodeNodes items <;> simp [read, ofData, h, toCondition]
    | _ => rfl

theorem any : (Body.nodes "values" or).Reads .any where
  field := rfl
  data j := by
    cases j with
    | array items => cases h : decodeNodes items <;> simp [read, ofData, h, toCondition]
    | _ => rfl

theorem negation : (Body.node "value" not).Reads .negation where
  field := rfl
  data j := by
    cases h : decodeNode true j <;> simp [read, ofData, h, toCondition]

theorem role : (Body.role "roleId" roleAssignedTo).Reads .roleAssignedTo where
  field := rfl
  data j := by
    cases h : j.asSpelled Uuid.ofText? <;>
      simp [read, decodeLeaf, ofData, leafOf, h, toCondition]

theorem count {k : Kind} {name : String} {make : UInt64 → ConditionNode Condition}
    {predicate : UInt64 → Predicate} (field : some name = k.field)
    (made : ∀ n, (make n).toCondition = .leaf (predicate n))
    (data : ∀ j, ofData k j =
      (do pure (predicate (← j.asUInt64))) >>= fun p => pure (.leaf p)) :
    (Body.count name make).Reads k where
  field := field
  data j := by
    rw [data]
    cases h : j.asUInt64 <;> simp [read, decodeLeaf, h, made]

theorem nothing {k : Kind} {node : ConditionNode Condition} (field : none = k.field)
    (data : ∀ j, ofData k j = .ok node.toCondition) : (Body.nothing node).Reads k :=
  ⟨field, fun j => (data j).symm⟩

end Body.Reads

/-- The variants are the kinds, one by one, under the names and with the fields of these. -/
theorem variants_match :
    List.Forall₂ (fun v k => v.1 = Kind.text k ∧ v.2.Reads k) variants Kind.every := by
  unfold variants
  refine .cons ⟨rfl, .all⟩ (.cons ⟨rfl, .any⟩ (.cons ⟨rfl, .negation⟩ (.cons ⟨rfl, .role⟩ ?_)))
  iterate 10 refine .cons ⟨rfl, .nothing rfl fun _ => rfl⟩ ?_
  iterate 30 refine .cons ⟨rfl, .count rfl (fun _ => rfl) fun _ => rfl⟩ ?_
  exact .nil

variable {i : Nat} {s : String} {b : Body} {k : Kind}

theorem kind_of_variant (h : variants[i]? = some (s, b)) :
    ∃ k, Kind.every[i]? = some k ∧ k.text = s ∧ b.Reads k := by
  obtain ⟨hi, found⟩ := List.getElem?_eq_some_iff.mp h
  have hk : i < Kind.every.length := variants_match.length_eq ▸ hi
  have pair := variants_match.get hi hk
  rw [List.get_eq_getElem, found] at pair
  exact ⟨_, List.getElem?_eq_getElem hk, pair.1.symm, pair.2⟩

theorem variant_of_kind (h : Kind.every[i]? = some k) :
    ∃ b, variants[i]? = some (k.text, b) ∧ b.Reads k := by
  obtain ⟨hk, found⟩ := List.getElem?_eq_some_iff.mp h
  have hi : i < variants.length := variants_match.length_eq ▸ hk
  obtain ⟨text, reads⟩ := variants_match.get hi hk
  rw [List.get_eq_getElem, List.get_eq_getElem, found] at text reads
  have there : variants[i]? = some (k.text, variants[i].2) :=
    (List.getElem?_eq_getElem hi).trans (congrArg some (Prod.ext text rfl))
  exact ⟨_, there, reads⟩

theorem variants_distinct : (variants.map (·.1)).Nodup := by decide +kernel

theorem kind_of_lookup (h : variants.lookup s = some b) : ∃ k : Kind, k.text = s ∧ b.Reads k := by
  obtain ⟨before, after, split, -⟩ := List.lookup_eq_some_iff.mp h
  have mem : (s, b) ∈ variants := by
    rw [split]
    exact List.mem_append_right _ List.mem_cons_self
  obtain ⟨i, hi⟩ := List.mem_iff_getElem?.mp mem
  obtain ⟨k, -, named⟩ := kind_of_variant hi
  exact ⟨k, named⟩

theorem lookup_text (k : Kind) : ∃ b, variants.lookup k.text = some b ∧ b.Reads k := by
  obtain ⟨i, hi⟩ := List.mem_iff_getElem?.mp k.mem_every
  obtain ⟨b, hb, reads⟩ := variant_of_kind hi
  exact ⟨b, Shape.lookup_of_mem variants_distinct (List.mem_of_getElem? hb), reads⟩

end ConditionNode

end Entitlement
