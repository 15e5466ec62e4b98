import Entitlement.Proofs.Json.Reading
import Entitlement.Proofs.Wire.Kind

/-!
# The nesting of written conditions

The written form of a condition nests deeper than the condition: a conjunction is an
object that holds an array.
-/

set_option autoImplicit false

namespace Entitlement.Condition

mutual

def nesting : Condition → Nat
  | .all children => nestings children + 2
  | .any children => nestings children + 2
  | .negation child => child.nesting + 1
  | .leaf _ => 1

def nestings : List Condition → Nat
  | [] => 0
  | c :: rest => max c.nesting (nestings rest)

end

mutual

theorem nesting_le : ∀ c : Condition, c.nesting ≤ 2 * c.depth
  | .all children | .any children => by
    have h := nestings_le children
    rw [nesting, depth]
    omega
  | .negation child => by
    have h := nesting_le child
    rw [nesting, depth]
    omega
  | .leaf _ => by simp [nesting, depth]

theorem nestings_le : ∀ cs : List Condition, nestings cs ≤ 2 * depths cs
  | [] => Nat.le_refl _
  | c :: rest => by
    have hc := nesting_le c
    have hrest := nestings_le rest
    rw [nestings, depths]
    omega

end

def conjoined : Nat → Condition → Condition
  | 0, c => c
  | n + 1, c => .all [conjoined n c]

theorem depth_conjoined (n : Nat) (c : Condition) : (conjoined n c).depth = c.depth + n := by
  induction n with
  | zero => rfl
  | succ n ih =>
    have step : (conjoined (n + 1) c).depth = max (conjoined n c).depth 0 + 1 := rfl
    omega

/-- Every conjunction takes two levels of nesting. -/
theorem nesting_conjoined (n : Nat) (c : Condition) :
    (conjoined n c).nesting = c.nesting + 2 * n := by
  induction n with
  | zero => rfl
  | succ n ih =>
    have step : (conjoined (n + 1) c).nesting = max (conjoined n c).nesting 0 + 2 := rfl
    omega

theorem depth_node (k : Kind) (data : Json) :
    (node k data).depth = if k.field.isSome then data.depth + 1 else 1 := by
  unfold node
  cases k.field <;> simp [Json.depth, Json.depthMembers]

theorem plain_node (k : Kind) {data : Json} (h : data.Plain) : (node k data).Plain := by
  unfold node
  cases k.field with
  | none => exact ⟨trivial, trivial⟩
  | some name => exact ⟨trivial, h, trivial⟩

theorem fitsWord_toNat (n : UInt64) : Json.FitsWord n.toNat := by
  have hmin : Int64.minValue.toInt = -0x8000000000000000 := rfl
  exact ⟨by omega, Int.ofNat_lt.mpr n.toNat_lt⟩

theorem plain_leafData : ∀ p : Predicate, (leafData p).Plain
  | .roleAssignedTo _ => trivial
  | .flag _ => trivial
  | .age _ _ seconds => fitsWord_toNat seconds
  | .threshold _ _ value => fitsWord_toNat value

theorem depth_leaf (p : Predicate) : (encode (.leaf p)).depth = 1 := by
  rw [encode_leaf, depth_node]
  rcases p with _ | _ | ⟨_, _, _⟩ | ⟨_, _, _⟩ <;> simp [leafData, Json.depth]

mutual

theorem depth_encode : ∀ c : Condition, c.encode.depth = c.nesting
  | .all children => by
    rw [encode_all, depth_node, nesting, Json.depth, depth_encodes]
    rfl
  | .any children => by
    rw [encode_any, depth_node, nesting, Json.depth, depth_encodes]
    rfl
  | .negation child => by
    rw [encode_negation, depth_node, nesting, depth_encode]
    rfl
  | .leaf p => depth_leaf p

theorem depth_encodes : ∀ cs : List Condition, Json.depthItems (encodes cs) = nestings cs
  | [] => rfl
  | c :: rest => by rw [encodes, Json.depthItems, depth_encode, depth_encodes, nestings]

end

mutual

theorem plain_encode : ∀ c : Condition, c.encode.Plain
  | .all children => encode_all children ▸ plain_node _ (plain_encodes children)
  | .any children => encode_any children ▸ plain_node _ (plain_encodes children)
  | .negation child => encode_negation child ▸ plain_node _ (plain_encode child)
  | .leaf p => encode_leaf p ▸ plain_node _ (plain_leafData p)

theorem plain_encodes : ∀ cs : List Condition, Json.PlainItems (encodes cs)
  | [] => trivial
  | c :: rest => ⟨plain_encode c, plain_encodes rest⟩

end

end Entitlement.Condition
