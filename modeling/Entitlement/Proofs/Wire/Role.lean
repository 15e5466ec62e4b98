import Entitlement.Proofs.Wire.Spelling
import Entitlement.Proofs.Wire.Policy
import Entitlement.Role

/-!
# Roles read back

A role whose overrides are valid and whose condition is not too deep is decoded from its
written form as long as the form of its target is not cut: no other part of a role nests
deep.
-/

set_option autoImplicit false

namespace Entitlement

namespace RoleTarget

def nesting : RoleTarget → Nat
  | .manual => 1
  | .conditional c => c.nesting + 1

def WithinDepth (t : RoleTarget) : Prop := ∀ c ∈ t.condition?, c.depth ≤ Condition.greatestDepth

theorem plain_encode (t : RoleTarget) : t.encode.Plain := by
  cases t with
  | manual => exact ⟨trivial, trivial⟩
  | conditional c => exact ⟨trivial, c.plain_encode, trivial⟩

/-- A target is decoded from its form, cut or not, exactly if nothing was cut off. -/
theorem decode_cut_encode {t : RoleTarget} (h : t.WithinDepth) (held : Bool) (d : Nat) :
    decode held (t.encode.cut d) = .ok t ↔ t.nesting ≤ d := by
  rcases Nat.eq_zero_or_pos d with rfl | hd
  · cases t <;> simp [encode, Json.cut, decode, nesting]
  cases t with
  | manual =>
    have hcut : (encode .manual).cut d = encode .manual := Json.cut_eq_self _ _ hd
    have hdecode : decode held (encode .manual) = .ok .manual := by
      rw [encode, decode, Json.asTagged_single rfl]
    rw [hcut, hdecode]
    exact ⟨fun _ => hd, fun _ => rfl⟩
  | conditional c =>
    have hcut : (encode (.conditional c)).cut d =
        .object [("kind", .text "conditional"), ("condition", c.encode.cut (d - 1))] := by
      rw [encode, Json.cut, if_neg (by omega)]
      rfl
    have hdecode : decode held ((encode (.conditional c)).cut d) =
        conditional <$> Condition.decode (held || false) (c.encode.cut (d - 1)) := by
      rw [hcut, decode, Json.asTagged_pair (by decide) rfl]
      rfl
    have hcond := Condition.decode_cut_encode (h c rfl) (held || false) (d - 1)
    rw [hdecode, Decoded.map_eq_ok, nesting]
    constructor
    · rintro ⟨_, hok, heq⟩
      cases heq
      have := hcond.mp hok
      omega
    · intro hle
      exact ⟨c, hcond.mpr (by omega), rfl⟩

end RoleTarget

namespace Role

structure Valid (role : Role) : Prop where
  policies : role.policies.Valid
  target : role.target.WithinDepth

structure ReadsBack (role : Role) : Prop where
  factors : role.policies.FactorsReadBack
  updatedAt : Instant.ofText? role.updatedAt.toText = some role.updatedAt
  lastUsedAt : Instant.ofText? role.lastUsedAt.toText = some role.lastUsedAt

def members (role : Role) (target : Json) : List (String × Json) := [
    ("id", role.id.encode),
    ("name", role.name.encode),
    ("description", .text role.description),
    ("color", .ofOption .text role.color),
    ("iconUrl", .ofOption .text role.iconUrl),
    ("target", target),
    ("isPublic", .bool role.isPublic),
    ("isModerator", .bool role.isModerator),
    ("isAdministrator", .bool role.isAdministrator),
    ("isExplorable", .bool role.isExplorable),
    ("asBadge", .bool role.asBadge),
    ("canEditMembersByModerator", .bool role.canEditMembersByModerator),
    ("displayOrder", .int role.displayOrder.toInt),
    ("policies", role.policies.encode),
    ("updatedAt", role.updatedAt.encode),
    ("lastUsedAt", role.lastUsedAt.encode)]

theorem encode_eq (role : Role) : role.encode = .object (role.members role.target.encode) := rfl

variable {role : Role}

/-- Where three levels are left, only the target can be cut. -/
theorem cut_encode (role : Role) {d : Nat} (hd : 3 ≤ d) :
    role.encode.cut d = .object (role.members (role.target.encode.cut (d - 1))) := by
  have hopt (o : Option String) : (Json.ofOption .text o).cut (d - 1) = .ofOption .text o := by
    cases o <;> rfl
  have hpolicies : role.policies.encode.cut (d - 1) = role.policies.encode :=
    Json.cut_eq_self _ _ (role.policies.depth_encode_le.trans (by omega))
  rw [encode_eq, Json.cut, if_neg (by omega)]
  simp only [members, Json.cutMembers, hopt, hpolicies]
  rfl

theorem plain_encode (valid : role.Valid) (readsBack : role.ReadsBack) : role.encode.Plain := by
  have hopt (o : Option String) : (Json.ofOption .text o).Plain := by cases o <;> trivial
  have horder : Json.FitsWord role.displayOrder.toInt := by
    have hlow := Int32.minValue_le_toInt role.displayOrder
    have hhigh := Int32.toInt_le role.displayOrder
    have hmin : Int32.minValue.toInt = -0x80000000 := rfl
    have hmax : Int32.maxValue.toInt = 0x7FFFFFFF := rfl
    have hword : Int64.minValue.toInt = -0x8000000000000000 := rfl
    have hsize : (UInt64.size : Int) = 0x10000000000000000 := rfl
    exact ⟨by omega, by omega⟩
  exact ⟨trivial, trivial, trivial, hopt _, hopt _, role.target.plain_encode, trivial, trivial,
    trivial, trivial, trivial, trivial, horder,
    PolicyOverrides.plain_encode valid.policies readsBack.factors, trivial, trivial, trivial⟩

theorem judges_shape (held : Bool) : (shape held).Judges := by
  unfold shape
  repeat' first
    | refine Shape.Judges.map ?_ _
    | refine Shape.Judges.seq ?_ ?_
    | exact Shape.judges_fieldOr _ _ _

theorem build_members (valid : role.Valid) (readsBack : role.ReadsBack) (held : Bool) (j : Json) :
    (shape held).build (role.members j) =
      (fun t => { role with target := t }) <$> RoleTarget.decode held j := by
  have hid : RoleId.decode role.id.encode = .ok role.id := by
    rw [RoleId.decode, RoleId.encode, RoleId.toText, Json.asSpelled_text (Uuid.ofText?_toText _)]
    rfl
  have hname : Name.decode role.name.encode = .ok role.name := by
    rw [Name.encode, Name.decode, Json.asText, Decoded.ok_bind, Name.ofText_text]
    rfl
  have hopt (o : Option String) : Json.asOption Json.asText (.ofOption .text o) = .ok o := by
    cases o <;> rfl
  have hpolicies := PolicyOverrides.decode_encode valid.policies
  have hupdated : Instant.decode role.updatedAt.encode = .ok role.updatedAt :=
    Json.asSpelled_text readsBack.updatedAt
  have hused : Instant.decode role.lastUsedAt.encode = .ok role.lastUsedAt :=
    Json.asSpelled_text readsBack.lastUsedAt
  simp [shape, members, Shape.field, Shape.optional, Shape.fieldOr, List.lookup_cons, hid, hname,
    hopt, hpolicies, hupdated, hused, Json.asText, Json.asBool]
  cases RoleTarget.decode held j <;> rfl

theorem decode_members (valid : role.Valid) (readsBack : role.ReadsBack) (held : Bool) (j : Json) :
    decode held (.object (role.members j)) = .ok role ↔
      RoleTarget.decode held j = .ok role.target := by
  have hbuild := build_members valid readsBack held j
  constructor
  · intro h
    rw [Shape.build_of_read h, eq_comm, Decoded.map_eq_ok] at hbuild
    obtain ⟨t, ht, heq⟩ := hbuild
    exact heq ▸ ht
  · intro h
    rw [h] at hbuild
    refine Shape.read_of_build (judges_shape held) ?_ ?_ hbuild
    · simp [members]
    · simp [members, shape, Shape.field, Shape.optional]

/-- A role is decoded from its form, where three levels are left, exactly if its target
was not cut. -/
theorem decode_cut_encode (valid : role.Valid) (readsBack : role.ReadsBack) (held : Bool) {d : Nat}
    (hd : 3 ≤ d) : decode held (role.encode.cut d) = .ok role ↔ role.target.nesting < d := by
  rw [cut_encode role hd, decode_members valid readsBack,
    RoleTarget.decode_cut_encode valid.target]
  omega

end Role

end Entitlement
