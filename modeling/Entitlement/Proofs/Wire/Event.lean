import Entitlement.Event
import Entitlement.Proofs.Wire.Role
import Entitlement.Sql.Plan

/-!
# Announced and stored roles read back

An event about a role is read back from its text, and the target of a stored role from
its column, as long as their forms do not nest too deep. The greatest depth of a
condition does not ensure that.
-/

set_option autoImplicit false

namespace Entitlement

def Sql.Plan.parameters {α : Type} : Sql.Plan α → List Sql.Value
  | .known _ => []
  | .query statement _ => statement.parameters

namespace Role

variable {role : Role}

inductive Tells : (Role → RoleEvent) → Prop
  | created : Tells .roleCreated
  | updated : Tells .roleUpdated
  | deleted : Tells .roleDeleted

theorem tells_of_mem {tell : Role → RoleEvent}
    (h : tell ∈ [RoleEvent.roleCreated, .roleUpdated, .roleDeleted]) : Tells tell := by
  simp only [List.mem_cons, List.not_mem_nil, or_false] at h
  rcases h with rfl | rfl | rfl
  · exact .created
  · exact .updated
  · exact .deleted

theorem Tells.injective {tell : Role → RoleEvent} (h : Tells tell) {a b : Role}
    (heq : tell a = tell b) : a = b := by
  cases h <;> exact (by injection heq)

theorem Tells.encode {tell : Role → RoleEvent} (h : Tells tell) (role : Role) :
    (tell role).encode = .object [("type", .text (tell role).name), ("body", role.encode)] := by
  cases h <;> rfl

theorem Tells.kinds {tell : Role → RoleEvent} (h : Tells tell) (role : Role) :
    RoleEvent.kinds (tell role).name = some (RoleEvent.ofBody tell Role.decode) := by
  cases h <;> rfl

theorem plain_event {tell : Role → RoleEvent} (h : Tells tell) (valid : role.Valid)
    (readsBack : role.ReadsBack) : (tell role).encode.Plain := by
  rw [h.encode]
  exact ⟨trivial, role.plain_encode valid readsBack, trivial⟩

theorem decode_cut_event {tell : Role → RoleEvent} (h : Tells tell) (d : Nat) :
    RoleEvent.decode ((tell role).encode.cut (d + 1)) =
      tell <$> Role.decode false (role.encode.cut d) := by
  have hcut : (tell role).encode.cut (d + 1) =
      .object [("type", .text (tell role).name), ("body", role.encode.cut d)] := by
    rw [h.encode, Json.cut, if_neg (by omega)]
    rfl
  rw [hcut, RoleEvent.decode, Json.asTagged_pair (by decide) (h.kinds role)]
  rfl

/-- An event is read back exactly if its role's target leaves two levels of nesting. -/
theorem ofText_event {tell : Role → RoleEvent} (h : Tells tell) (valid : role.Valid)
    (readsBack : role.ReadsBack) : RoleEvent.ofText (tell role).toText = .ok (tell role) ↔
      role.target.nesting + 2 ≤ Json.greatestDepth := by
  have hrole := role.decode_cut_encode valid readsBack false (show 3 ≤ 126 by omega)
  have hdepth : Json.greatestDepth = 126 + 1 := rfl
  rw [RoleEvent.ofText, RoleEvent.toText, Json.decode_toText (plain_event h valid readsBack),
    hdepth, decode_cut_event h, Decoded.map_eq_ok]
  constructor
  · rintro ⟨r, hr, heq⟩
    obtain rfl := h.injective heq
    have := hrole.mp hr
    omega
  · intro hle
    exact ⟨role, hrole.mpr (by omega), rfl⟩

/-- The column of a target gives it back exactly if it does not nest too deep. -/
theorem insertRole_target (valid : role.Valid) :
    (Sql.Plan.insertRole role).parameters[5]?.bind (Sql.Value.asJson? (RoleTarget.decode false)) =
        some role.target ↔ role.target.nesting ≤ Json.greatestDepth := by
  have column : (Sql.Plan.insertRole role).parameters[5]? = some (.ofJson role.target.encode) := rfl
  rw [column, Option.bind_some, Sql.Value.ofJson, Sql.Value.asJson?,
    Json.decode_toText role.target.plain_encode,
    ← RoleTarget.decode_cut_encode valid.target false Json.greatestDepth]
  cases RoleTarget.decode false (role.target.encode.cut Json.greatestDepth) <;>
    simp [Except.toOption]

/-- Two levels less than the greatest depth keep every condition within reach. -/
theorem nesting_le_of_shallow
    (h : ∀ c ∈ role.target.condition?, c.depth + 2 ≤ Condition.greatestDepth) :
    role.target.nesting + 2 ≤ Json.greatestDepth := by
  have hdepth : Condition.greatestDepth = 64 := rfl
  have hlevels : Json.greatestDepth = 127 := rfl
  cases htarget : role.target with
  | manual =>
    rw [RoleTarget.nesting]
    omega
  | conditional c =>
    have hc := h c (by rw [htarget]; rfl)
    have hnesting := c.nesting_le
    rw [RoleTarget.nesting]
    omega

/-- An event about a role whose condition is not nearly too deep is read back. -/
theorem ofText_event_of_shallow {tell : Role → RoleEvent} (tells : Tells tell) (valid : role.Valid)
    (readsBack : role.ReadsBack)
    (shallow : ∀ c ∈ role.target.condition?, c.depth + 2 ≤ Condition.greatestDepth) :
    RoleEvent.ofText (tell role).toText = .ok (tell role) :=
  (ofText_event tells valid readsBack).mpr (nesting_le_of_shallow shallow)

def bare (target : RoleTarget) : Role where
  id := ⟨.generated 0⟩
  name := ⟨"r", rfl⟩
  description := ""
  color := none
  iconUrl := none
  target
  isPublic := false
  isModerator := false
  isAdministrator := false
  isExplorable := false
  asBadge := false
  canEditMembersByModerator := false
  displayOrder := 0
  policies := .put .empty .rateLimitFactor ⟨false, .low, some (.factor (.ofInt 2))⟩
  updatedAt := default
  lastUsedAt := default

theorem valid_bare {target : RoleTarget} (h : target.WithinDepth) : (bare target).Valid where
  policies := by
    have fits : (PolicyValue.factor (.ofInt 2)).fit? .factor = some (.factor (.ofInt 2)) := rfl
    exact PolicyOverrides.valid_empty.put (PolicyOverride.validatedFor_of_fit? fits)
  target := h

theorem withinDepth_conjoined {flag : UserFlag} (n : Nat) (h : 1 + n ≤ Condition.greatestDepth) :
    (RoleTarget.conditional (.conjoined n (.leaf (.flag flag)))).WithinDepth := by
  rintro c hc
  obtain rfl := Option.some.inj hc
  exact (Condition.depth_conjoined n _).trans_le h

theorem ofText?_default : Instant.ofText? (default : Instant).toText = some default := rfl

theorem readsBack_bare (target : RoleTarget) : (bare target).ReadsBack where
  factors n e x he hx := by
    have hn : n = .rateLimitFactor := by
      by_contra hn
      simp [bare, PolicyOverrides.put_entry, hn, PolicyOverrides.empty] at he
    subst hn
    cases he
    cases hx
    refine ⟨⟨false, [2], [0], none⟩, by decide +kernel, ?_⟩
    have hvalue : Json.Literal.magnitude? ⟨false, [2], [0], none⟩ = some (.ofInt 2) := rfl
    rw [Json.Literal.value, hvalue]
    rfl
  updatedAt := ofText?_default
  lastUsedAt := ofText?_default

/-- An event about a valid role is read back from its text exactly if the form of the
role's target leaves two levels of nesting; and the column of the target is, exactly if
that form does not nest too deep by itself. -/
theorem reads_back_iff_nesting (valid : role.Valid) (readsBack : role.ReadsBack) :
    (∀ tell ∈ [RoleEvent.roleCreated, .roleUpdated, .roleDeleted],
      RoleEvent.ofText (tell role).toText = .ok (tell role) ↔
        role.target.nesting + 2 ≤ Json.greatestDepth) ∧
    ((Sql.Plan.insertRole role).parameters[5]?.bind
        (Sql.Value.asJson? (RoleTarget.decode false)) = some role.target ↔
      role.target.nesting ≤ Json.greatestDepth) := by
  refine ⟨fun tell htell => ?_, insertRole_target valid⟩
  exact ofText_event (tells_of_mem htell) valid readsBack

/-- Within 61 conjunctions a leaf is read back with its role; within one more its target
still is, the events about its role are not. -/
theorem reads_back_below_limit :
    let target : Nat → RoleTarget := fun n => .conditional (.conjoined n (.leaf (.flag .isBot)))
    let event : Nat → RoleEvent := fun n => .roleCreated (bare (target n))
    RoleEvent.ofText (event 61).toText = .ok (event 61) ∧
      RoleEvent.ofText (event 62).toText ≠ .ok (event 62) ∧
      (Sql.Plan.insertRole (bare (target 62))).parameters[5]?.bind
        (Sql.Value.asJson? (RoleTarget.decode false)) = some (target 62) := by
  intro target event
  have valid (n : Nat) (h : 1 + n ≤ Condition.greatestDepth) : (bare (target n)).Valid :=
    valid_bare (withinDepth_conjoined n h)
  have hnesting (n : Nat) : (bare (target n)).target.nesting = 1 + 2 * n + 1 :=
    congrArg (· + 1) (Condition.nesting_conjoined n _)
  have nested := reads_back_iff_nesting (valid 61 (by decide)) (readsBack_bare _)
  have deeper := reads_back_iff_nesting (valid 62 (by decide)) (readsBack_bare _)
  rw [hnesting] at nested deeper
  refine ⟨?_, ?_, ?_⟩
  · exact (nested.1 _ (by simp)).mpr (by decide)
  · exact mt (deeper.1 _ (by simp)).mp (by decide)
  · exact deeper.2.mpr (by decide)

/-- A condition of the greatest depth, conjunctions around a leaf: neither the events about
its role nor its stored target are read back. -/
theorem deepest_conjunctions_not_read_back :
    let condition := Condition.conjoined 63 (.leaf (.flag .isBot))
    let role := bare (.conditional condition)
    (condition.depth = 64 ∧ role.Valid ∧ role.ReadsBack) ∧
      (∀ tell ∈ [RoleEvent.roleCreated, .roleUpdated, .roleDeleted],
        RoleEvent.ofText (tell role).toText ≠ .ok (tell role)) ∧
      (Sql.Plan.insertRole role).parameters[5]?.bind
        (Sql.Value.asJson? (RoleTarget.decode false)) ≠ some role.target := by
  intro condition role
  have depth : condition.depth = 64 := Condition.depth_conjoined 63 _
  have valid : role.Valid := valid_bare (withinDepth_conjoined 63 (by decide))
  have readsBack : role.ReadsBack := readsBack_bare _
  have hnesting : role.target.nesting = 128 :=
    congrArg (· + 1) (Condition.nesting_conjoined 63 _)
  refine ⟨⟨depth, valid, readsBack⟩, fun tell htell => ?_, mt (insertRole_target valid).mp ?_⟩
  · apply mt (ofText_event (tells_of_mem htell) valid readsBack).mp
    rw [hnesting]
    decide
  · rw [hnesting]
    decide

end Role

end Entitlement
