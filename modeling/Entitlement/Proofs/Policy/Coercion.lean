import Entitlement.Proofs.Number.Nearest
import Entitlement.Proofs.Policy.Resolution

/-!
# What fitting a value keeps

A value that is made to fit a policy stays the same switch or the same number wherever the kind of
the policy has a value for it. The multiplier has none for most integers beyond 53 bits: such a
limit becomes the nearest multiplier.
-/

set_option autoImplicit false

namespace Entitlement

theorem toInt_clampLimit (i : Int) :
    (clampLimit i).toInt = max Int64.minValue.toInt (min i Int64.maxValue.toInt) := by
  have hmin : Int64.minValue.toInt = -2 ^ 63 := rfl
  have hmax : Int64.maxValue.toInt = 2 ^ 63 - 1 := rfl
  unfold clampLimit
  split
  · omega
  · next low =>
    split
    · omega
    · next high =>
      rw [Int64.toInt_ofInt_of_le (Int.not_lt.mp low) (by omega)]
      omega

theorem toInt_clampLimit_within {i : Int} (low : Int64.minValue.toInt ≤ i)
    (high : i ≤ Int64.maxValue.toInt) : (clampLimit i).toInt = i := by
  rw [toInt_clampLimit]
  omega

namespace PolicyValue

variable {value fitted other : PolicyValue} {kind : PolicyKind} {n : PolicyName}

def number? : PolicyValue → Option ℚ
  | .flag _ => none
  | .limit i => some i.toInt
  | .factor x => if x.isFinite then some x.toRat else none

def Same : PolicyValue → PolicyValue → Prop
  | .flag a, .flag b => a = b
  | value, other => ∃ q, value.number? = some q ∧ other.number? = some q

theorem number?_factor {x : Binary64} {q : ℚ} :
    (factor x).number? = some q ↔ x.isFinite = true ∧ x.toRat = q := by
  simp [number?]

/-- A value fits as it is, as a whole number, or as the nearest multiplier. -/
theorem fit?_cases (h : value.fit? kind = some fitted) :
    (value.kind = kind ∧ value.Same fitted) ∨
      (∃ x, value = .factor x ∧ kind = .limit ∧ x.isWhole = true ∧
        fitted = .limit (clampLimit x.truncate)) ∨
      ∃ i, value = .limit i ∧ kind = .factor ∧ fitted = .factor (Binary64.ofInt i.toInt) := by
  rcases kind with _ | _ | _ <;> rcases value with b | i | x
  case flag.flag =>
    cases h
    exact .inl ⟨rfl, rfl⟩
  case limit.limit =>
    cases h
    exact .inl ⟨rfl, _, rfl, rfl⟩
  case limit.factor =>
    simp only [fit?] at h
    split at h <;> cases h
    next whole => exact .inr (.inl ⟨x, rfl, rfl, (Bool.and_eq_true_iff.mp whole).2, rfl⟩)
  case factor.limit =>
    cases h
    exact .inr (.inr ⟨i, rfl, rfl, rfl⟩)
  case factor.factor =>
    simp only [fit?] at h
    split at h <;> cases h
    next finite =>
      exact .inl ⟨rfl, _, number?_factor.mpr ⟨finite, rfl⟩, number?_factor.mpr ⟨finite, rfl⟩⟩
  all_goals cases h

/-- Where the kind of a policy has a value for the same switch or number, a value fits and stays the
same. -/
theorem fit?_of_same (hkind : other.kind = kind) (same : value.Same other) :
    ∃ fitted, value.fit? kind = some fitted ∧ value.Same fitted := by
  subst hkind
  rcases value with b | i | x <;> rcases other with c | j | y
  case flag.flag => exact ⟨.flag b, rfl, rfl⟩
  case limit.limit => exact ⟨.limit i, rfl, _, rfl, rfl⟩
  case limit.factor =>
    obtain ⟨q, hi, hy⟩ := same
    obtain ⟨finite, hy⟩ := number?_factor.mp hy
    obtain rfl : (i.toInt : ℚ) = q := Option.some.inj hi
    have near := Binary64.nearest_ofInt (Binary64.natAbs_toInt_lt i)
    exact ⟨_, rfl, _, rfl,
      number?_factor.mpr ⟨near.isFinite, near.toRat_eq_iff.mpr ⟨y, finite, hy⟩⟩⟩
  case factor.limit =>
    obtain ⟨q, hx, hj⟩ := same
    obtain ⟨finite, hx⟩ := number?_factor.mp hx
    obtain rfl : (j.toInt : ℚ) = q := Option.some.inj hj
    have whole : x.isWhole = true := Binary64.isWhole_iff.mpr ⟨finite, _, hx⟩
    have integer : x.truncate = j.toInt := by
      exact_mod_cast (Binary64.toRat_eq_truncate whole).symm.trans hx
    refine ⟨.limit (clampLimit x.truncate), ?_, _, number?_factor.mpr ⟨finite, hx⟩, ?_⟩
    · simp [fit?, kind, finite, whole]
    · rw [number?, integer,
        toInt_clampLimit_within (Int64.minValue_le_toInt j) (Int64.toInt_le j)]
  case factor.factor =>
    obtain ⟨q, hx, -⟩ := same
    obtain ⟨finite, -⟩ := number?_factor.mp hx
    exact ⟨.factor x, by simp [fit?, kind, finite], q, hx, hx⟩
  case flag.limit => obtain ⟨_, h, -⟩ := same; cases h
  case flag.factor => obtain ⟨_, h, -⟩ := same; cases h
  case limit.flag => obtain ⟨_, -, h⟩ := same; cases h
  case factor.flag => obtain ⟨_, -, h⟩ := same; cases h

/-- A value that a policy takes stays the same switch or the same number wherever the kind of the
policy has a value for it, and it is taken there. A limit is always taken as the multiplier, and
becomes the nearest one. Nothing else is taken but whole numbers that no limit stands for. -/
theorem coerceFor_keeps (value : PolicyValue) (n : PolicyName) :
    (∀ other : PolicyValue, other.kind = n.kind → value.Same other →
      ∃ fitted, value.coerceFor n = .ok fitted ∧ fitted.kind = n.kind ∧ value.Same fitted) ∧
    (∀ i, value = .limit i → n.kind = .factor →
      ∃ x : Binary64, value.coerceFor n = .ok (.factor x) ∧ x.Nearest i.toInt ∧
        (i.toInt.natAbs ≤ 2 ^ 53 → value.Same (.factor x))) ∧
    ∀ fitted, value.coerceFor n = .ok fitted → fitted.kind = n.kind ∧
      (value.Same fitted ∨ (value.kind = .limit ∧ n.kind = .factor) ∨
        ∃ (x : Binary64) (z : Int), value = .factor x ∧ n.kind = .limit ∧ x.isFinite = true ∧
          x.toRat = z ∧ (z < Int64.minValue.toInt ∨ Int64.maxValue.toInt < z)) := by
  refine ⟨fun other hkind same => ?_, fun i hi hkind => ?_, fun fitted h => ?_⟩
  · obtain ⟨fitted, fits, kept⟩ := fit?_of_same hkind same
    exact ⟨fitted, coerceFor_eq_ok.mpr fits, kind_of_fit fits, kept⟩
  · subst hi
    have near := Binary64.nearest_ofInt (Binary64.natAbs_toInt_lt i)
    have fits : (PolicyValue.limit i).fit? n.kind = some (.factor (Binary64.ofInt i.toInt)) := by
      rw [hkind]
      rfl
    refine ⟨_, coerceFor_eq_ok.mpr fits, near, fun small => ?_⟩
    exact ⟨_, rfl, number?_factor.mpr ⟨near.isFinite, Binary64.toRat_ofInt small⟩⟩
  · have fits := coerceFor_eq_ok.mp h
    refine ⟨kind_of_fit fits, ?_⟩
    rcases fit?_cases fits with ⟨-, same⟩ | ⟨x, rfl, hkind, whole, rfl⟩ | ⟨i, rfl, hkind, -⟩
    · exact .inl same
    · obtain ⟨finite, -⟩ := Binary64.isWhole_iff.mp whole
      have integer := Binary64.toRat_eq_truncate whole
      by_cases range : Int64.minValue.toInt ≤ x.truncate ∧ x.truncate ≤ Int64.maxValue.toInt
      · refine .inl ⟨_, number?_factor.mpr ⟨finite, integer⟩, ?_⟩
        rw [number?, toInt_clampLimit_within range.1 range.2]
      · exact .inr (.inr ⟨x, x.truncate, rfl, hkind, finite, integer, by omega⟩)
    · exact .inr (.inl ⟨rfl, hkind⟩)

/-- The least limit, written as a multiplier, is taken as a limit and stays the same number; an odd
limit of 54 bits is taken as the multiplier. -/
theorem coerceFor_keeps_at_ends :
    let least : PolicyValue := .factor ⟨0xC3E0000000000000⟩
    let pins : PolicyName := .pinLimit
    (((PolicyValue.limit Int64.minValue).kind = pins.kind ∧
        least.Same (.limit Int64.minValue)) ∧
      ∃ fitted, least.coerceFor pins = .ok fitted ∧ fitted.kind = pins.kind ∧
        least.Same fitted) ∧
    (PolicyName.rateLimitFactor.kind = .factor ∧
      ∃ x : Binary64, (PolicyValue.limit 9007199254740993).coerceFor .rateLimitFactor =
        .ok (.factor x) ∧ x.Nearest (9007199254740993 : Int64).toInt) ∧
    ((PolicyValue.flag true).coerceFor .canInvite = .ok (.flag true) ∧
      (PolicyValue.flag true).Same (.flag true)) := by
  intro least pins
  have whole : (⟨0xC3E0000000000000⟩ : Binary64).isWhole = true := by decide
  have same : least.Same (.limit Int64.minValue) :=
    ⟨_, number?_factor.mpr ⟨by decide, Binary64.toRat_eq_truncate whole⟩, rfl⟩
  obtain ⟨x, taken, near, -⟩ :=
    (coerceFor_keeps (.limit 9007199254740993) .rateLimitFactor).2.1 _ rfl rfl
  have switch : (PolicyValue.flag true).coerceFor .canInvite = .ok (.flag true) := rfl
  refine ⟨⟨⟨rfl, same⟩, (coerceFor_keeps least pins).1 _ rfl same⟩, ⟨rfl, x, taken, near⟩,
    switch, ?_⟩
  rcases ((coerceFor_keeps _ _).2.2 _ switch).2 with same | ⟨h, -⟩ | ⟨_, _, h, -⟩
  · exact same
  · cases h
  · cases h

/-- Every whole multiplier is taken as a limit, and one beyond 64 bits becomes the limit at the end
of the range on its side. -/
theorem coerceFor_whole {x : Binary64} {z : Int} (hkind : n.kind = .limit)
    (finite : x.isFinite = true) (whole : x.toRat = z) :
    ∃ limit, (factor x).coerceFor n = .ok (.limit limit) ∧
      limit.toInt = max Int64.minValue.toInt (min z Int64.maxValue.toInt) := by
  have isWhole : x.isWhole = true := Binary64.isWhole_iff.mpr ⟨finite, z, whole⟩
  have integer : x.truncate = z := by
    exact_mod_cast (Binary64.toRat_eq_truncate isWhole).symm.trans whole
  refine ⟨clampLimit z, coerceFor_eq_ok.mpr ?_, toInt_clampLimit z⟩
  rw [hkind, fit?, finite, isWhole, integer]
  rfl

/-- Not every value that is taken stays the same number: an odd limit of 54 bits is taken as the
multiplier, and becomes an even one. -/
theorem odd_limit_made_even :
    let odd : PolicyValue := .limit 9007199254740993
    let even : PolicyValue := .factor ⟨0x4340000000000000⟩
    odd.coerceFor .rateLimitFactor = .ok even ∧ ¬ odd.Same even := by
  intro odd even
  refine ⟨by decide, ?_⟩
  rintro ⟨q, hodd, heven⟩
  have whole : (⟨0x4340000000000000⟩ : Binary64).isWhole = true := by decide
  obtain ⟨-, value⟩ := number?_factor.mp heven
  rw [Binary64.toRat_eq_truncate whole] at value
  obtain rfl := Option.some.inj hodd
  exact absurd (Int.cast_inj.mp value) (by decide)

end PolicyValue

end Entitlement
