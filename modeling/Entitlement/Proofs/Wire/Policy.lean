import Entitlement.Policy.Wire
import Entitlement.Proofs.Json.Reading
import Entitlement.Proofs.Json.Record
import Entitlement.Proofs.Keyed
import Entitlement.Proofs.Number.Binary64

/-!
# Policy overrides read back

Overrides whose entries pass their checks are decoded from their written form, and a
check lets an entry pass unchanged once it has passed.
-/

set_option autoImplicit false

namespace Entitlement

section

variable {σ α : Type} {check : Except Fault α} {write : α → σ → σ} {before after : σ}

theorem run_checked_eq_ok : EStateM.run
    (do let a ← liftExcept check; modify (write a) : EStateM Fault σ Unit) before = .ok () after ↔
      ∃ a, check = .ok a ∧ write a before = after := by
  cases check with
  | error fault => exact ⟨nofun, nofun⟩
  | ok a =>
    constructor
    · intro h
      cases h
      exact ⟨a, rfl, rfl⟩
    · rintro ⟨_, h, rfl⟩
      cases h
      rfl

/-- Nothing is written before the check has passed. -/
theorem run_checked_eq_error {fault : Fault} : EStateM.run
    (do let a ← liftExcept check; modify (write a) : EStateM Fault σ Unit) before =
      .error fault after ↔ check = .error fault ∧ after = before := by
  cases check with
  | error fault =>
    constructor
    · intro h
      cases h
      exact ⟨rfl, rfl⟩
    · rintro ⟨h, rfl⟩
      cases h
      rfl
  | ok a => exact ⟨nofun, nofun⟩

end

theorem PolicyValue.fit?_idem {kind : PolicyKind} {value fitted : PolicyValue}
    (h : value.fit? kind = some fitted) : fitted.fit? kind = some fitted := by
  rcases kind with _ | _ | _ <;> rcases value with b | i | x
  case flag.flag => cases h; rfl
  case limit.limit => cases h; rfl
  case limit.factor =>
    simp only [fit?] at h
    split at h <;> cases h
    rfl
  case factor.limit =>
    cases h
    simp [fit?, Binary64.isFinite_ofInt (Binary64.natAbs_toInt_lt i)]
  case factor.factor =>
    simp only [fit?] at h
    split at h <;> cases h
    rw [fit?, if_pos ‹_›]
  all_goals cases h

theorem PolicyValue.coerceFor_eq_ok {value fitted : PolicyValue} {n : PolicyName} :
    value.coerceFor n = .ok fitted ↔ value.fit? n.kind = some fitted := by
  unfold coerceFor
  cases value.fit? n.kind <;> simp

theorem PolicyOverride.validatedFor_idem {e fitted : PolicyOverride} {n : PolicyName}
    (h : e.validatedFor n = .ok fitted) : fitted.validatedFor n = .ok fitted := by
  obtain ⟨useDefault, priority, value⟩ := e
  cases value with
  | none =>
    have hsame : (⟨useDefault, priority, none⟩ : PolicyOverride) = fitted := by
      simp only [validatedFor] at h
      split at h <;> cases h
      rfl
    exact hsame ▸ h
  | some value =>
    simp only [validatedFor] at h
    cases hv : value.coerceFor n with
    | error fault => simp [hv] at h
    | ok w =>
      have hw := PolicyValue.coerceFor_eq_ok.mpr
        (PolicyValue.fit?_idem (PolicyValue.coerceFor_eq_ok.mp hv))
      rw [hv] at h
      cases h
      simp only [validatedFor, hw]
      rfl

def PolicyOverrides.Valid (overrides : PolicyOverrides) : Prop :=
  ∀ n e, overrides.entry n = some e → e.validatedFor n = .ok e

namespace PolicyOverrides

theorem valid_empty : empty.Valid := fun _ _ h => by cases h

theorem insert_eq_ok {overrides after : PolicyOverrides} {n : PolicyName} {e : PolicyOverride} :
    (insert n e).run overrides = .ok () after ↔
      ∃ fitted, e.validatedFor n = .ok fitted ∧ overrides.put n fitted = after :=
  run_checked_eq_ok

theorem insert_eq_error {overrides left : PolicyOverrides} {n : PolicyName} {e : PolicyOverride}
    {fault : Fault} : (insert n e).run overrides = .error fault left ↔
      e.validatedFor n = .error fault ∧ left = overrides :=
  run_checked_eq_error

theorem Valid.put {overrides : PolicyOverrides} {n : PolicyName} {e : PolicyOverride}
    (h : overrides.Valid) (passed : e.validatedFor n = .ok e) : (overrides.put n e).Valid := by
  intro m e' he
  rw [put_entry] at he
  split at he
  · subst m
    cases he
    exact passed
  · exact h m e' he

theorem Valid.insert {overrides after : PolicyOverrides} {n : PolicyName} {e : PolicyOverride}
    (h : overrides.Valid) (inserted : (insert n e).run overrides = .ok () after) : after.Valid := by
  obtain ⟨fitted, passed, rfl⟩ := insert_eq_ok.mp inserted
  exact h.put (PolicyOverride.validatedFor_idem passed)

section

variable {given : PolicyName → Option PolicyOverride} {names : List PolicyName}
  {overrides after : PolicyOverrides} {n : PolicyName} {e : PolicyOverride}

theorem insertAll_cons_none (h : given n = none) :
    insertAll given (n :: names) = insertAll given names := by
  simp [insertAll, h]

theorem insertAll_cons_some (h : given n = some e) :
    (insertAll given (n :: names)).run overrides = .ok () after ↔
      ∃ next, (insert n e).run overrides = .ok () next ∧
        (insertAll given names).run next = .ok () after := by
  have first : insertAll given (n :: names) = (do insert n e; insertAll given names) := by
    simp [insertAll, h]
  have run : (insertAll given (n :: names)).run overrides =
      EStateM.bind (insert n e) (fun _ => insertAll given names) overrides := by
    rw [first]
    rfl
  rw [run, EStateM.bind]
  show _ ↔ ∃ next, insert n e overrides = _ ∧ _
  cases insert n e overrides <;> simp [EStateM.run]

theorem Valid.insertAll (h : overrides.Valid)
    (entered : (PolicyOverrides.insertAll given names).run overrides = .ok () after) :
    after.Valid := by
  induction names generalizing overrides with
  | nil =>
    cases entered
    exact h
  | cons n names ih =>
    cases hn : given n with
    | none => exact ih h (insertAll_cons_none hn ▸ entered)
    | some e =>
      obtain ⟨next, inserted, rest⟩ := (insertAll_cons_some hn).mp entered
      exact ih (h.insert inserted) rest

theorem ofEntries_eq_ok : ofEntries given = .ok after ↔
    (insertAll given PolicyName.all).run empty = .ok () after := by
  unfold ofEntries
  cases (insertAll given PolicyName.all).run empty <;> simp

theorem valid_ofEntries (h : ofEntries given = .ok after) : after.Valid :=
  valid_empty.insertAll (ofEntries_eq_ok.mp h)

end

def FactorsReadBack (overrides : PolicyOverrides) : Prop :=
  ∀ n e x, overrides.entry n = some e → e.value = some (.factor x) →
    Json.Spells (Json.layout.text x) (.float x)

end PolicyOverrides

namespace PolicyName

theorem texts_nodup : (all.map text).Nodup := by decide +kernel

theorem ofText?_text (n : PolicyName) : ofText? n.text = some n :=
  (Keyed.find_iff text texts_nodup).mpr ⟨mem_all n, rfl⟩

theorem key_eq_text (n : PolicyName) : n.key = n.text := by
  cases n <;> rfl

theorem ofKey?_key (n : PolicyName) : ofKey? n.key = some n := by
  cases n <;> rfl

end PolicyName

namespace PolicyValue

variable {value : PolicyValue} {n : PolicyName}

theorem encode_factor {x : Binary64} (fits : (factor x).fit? n.kind = some (.factor x)) :
    (factor x).encode = .float x := by
  have hx : x.isFinite = true := by
    cases hk : n.kind with
    | flag => rw [hk] at fits; cases fits
    | limit =>
      rw [hk, fit?] at fits
      split at fits <;> cases fits
    | factor =>
      rw [hk, fit?] at fits
      split at fits <;> first | assumption | cases fits
  rw [encode, Json.number, if_pos hx]

theorem decode_encode (fits : value.fit? n.kind = some value) :
    decode value.encode = .ok value := by
  cases value with
  | flag b => rfl
  | limit i =>
    have h : Int64.minValue.toInt ≤ i.toInt ∧ i.toInt ≤ Int64.maxValue.toInt :=
      ⟨Int64.minValue_le_toInt i, Int64.toInt_le i⟩
    rw [encode, decode, if_pos h, Int64.ofInt_toInt]
  | factor x =>
    rw [encode_factor fits]
    rfl

theorem encode_ne_null (fits : value.fit? n.kind = some value) : value.encode ≠ .null := by
  cases value with
  | flag b => simp [encode]
  | limit i => simp [encode]
  | factor x => simp [encode_factor fits]

theorem depth_encode (value : PolicyValue) : value.encode.depth = 0 := by
  cases value with
  | flag b => rfl
  | limit i => rfl
  | factor x =>
    rw [encode, Json.number]
    split <;> rfl

theorem plain_encode (fits : value.fit? n.kind = some value)
    (readBack : ∀ x, value = .factor x → Json.Spells (Json.layout.text x) (.float x)) :
    value.encode.Plain := by
  cases value with
  | flag b => trivial
  | limit i =>
    have hlow := Int64.minValue_le_toInt i
    have hhigh := Int64.toInt_le i
    have hmax : Int64.maxValue.toInt = 0x7FFFFFFFFFFFFFFF := rfl
    have hsize : (UInt64.size : Int) = 0x10000000000000000 := rfl
    exact ⟨hlow, by omega⟩
  | factor x =>
    rw [encode_factor fits]
    exact readBack x rfl

end PolicyValue

namespace PolicyPriority

theorem decode_encode (p : PolicyPriority) : decode p.encode = .ok p := by
  cases p <;> rfl

theorem fitsWord_number (p : PolicyPriority) : Json.FitsWord p.number := by
  cases p <;> exact ⟨by decide, by decide⟩

end PolicyPriority

namespace PolicyOverride

variable {e : PolicyOverride} {n : PolicyName}

theorem fit?_of_validatedFor (h : e.validatedFor n = .ok e) {value : PolicyValue}
    (hv : e.value = some value) : value.fit? n.kind = some value := by
  rw [validatedFor, hv] at h
  cases hc : value.coerceFor n with
  | error fault => simp [hc] at h
  | ok fitted =>
    dsimp only at h
    rw [hc] at h
    have hsame : e.value = some fitted := congrArg PolicyOverride.value (Except.ok.inj h).symm
    obtain rfl : value = fitted := Option.some.inj (hv.symm.trans hsame)
    exact PolicyValue.coerceFor_eq_ok.mp hc

theorem validatedFor_of_fit? {useDefault : Bool} {priority : PolicyPriority} {value : PolicyValue}
    (h : value.fit? n.kind = some value) :
    validatedFor ⟨useDefault, priority, some value⟩ n = .ok ⟨useDefault, priority, some value⟩ := by
  simp only [validatedFor, PolicyValue.coerceFor_eq_ok.mpr h]
  rfl

theorem judges_shape : shape.Judges :=
  (((Shape.judges_fieldOr _ _ _).map _).seq (Shape.judges_fieldOr _ _ _)).seq
    (Shape.judges_fieldOr _ _ _)

theorem decode_encode (h : e.validatedFor n = .ok e) : decode e.encode = .ok e := by
  obtain ⟨useDefault, priority, value⟩ := e
  cases value with
  | none =>
    apply Shape.read_of_build judges_shape
    · simp
    · simp [shape, Shape.field, Shape.optional]
    · simp [shape, Shape.field, Shape.optional, Shape.fieldOr, List.lookup_cons,
        Json.asBool, PolicyPriority.decode_encode]
  | some value =>
    have fits := fit?_of_validatedFor h rfl
    apply Shape.read_of_build judges_shape
    · simp
    · simp [shape, Shape.field, Shape.optional]
    · have hvalue : Json.asOption PolicyValue.decode value.encode = .ok (some value) := by
        rw [Json.asOption_of_ne_null (PolicyValue.encode_ne_null fits),
          PolicyValue.decode_encode fits]
        rfl
      simp [shape, Shape.field, Shape.optional, Shape.fieldOr, List.lookup_cons,
        Json.asBool, PolicyPriority.decode_encode, hvalue]

theorem depth_encode_le (e : PolicyOverride) : e.encode.depth ≤ 1 := by
  obtain ⟨useDefault, priority, value⟩ := e
  cases value <;>
    simp [encode, Json.depth, Json.depthMembers, PolicyPriority.encode, PolicyValue.depth_encode]

theorem plain_encode (h : e.validatedFor n = .ok e)
    (readBack : ∀ x, e.value = some (.factor x) → Json.Spells (Json.layout.text x) (.float x)) :
    e.encode.Plain := by
  obtain ⟨useDefault, priority, value⟩ := e
  cases value with
  | none => exact ⟨trivial, PolicyPriority.fitsWord_number priority, trivial⟩
  | some value =>
    have hvalue := PolicyValue.plain_encode (fit?_of_validatedFor h rfl) fun x hx =>
      readBack x (congrArg some hx)
    exact ⟨trivial, PolicyPriority.fitsWord_number priority, hvalue, trivial⟩

end PolicyOverride

namespace PolicyOverrides

def overlay (names : List PolicyName) (upper given : PolicyName → Option PolicyOverride) :
    PolicyName → Option PolicyOverride :=
  fun n => if n ∈ names then (upper n).or (given n) else given n

variable {names : List PolicyName} {upper given : PolicyName → Option PolicyOverride}
  {n : PolicyName}

theorem overlay_nil : overlay [] upper given = given := by
  funext n
  simp [overlay]

theorem overlay_cons_none (h : upper n = none) :
    overlay (n :: names) upper given = overlay names upper given := by
  funext m
  by_cases hm : m = n
  · subst hm
    simp [overlay, h]
  · simp [overlay, hm]

theorem overlay_cons_some {e : PolicyOverride} (h : upper n = some e) :
    overlay (n :: names) upper given =
      overlay names upper (fun m => if m = n then some e else given m) := by
  funext m
  by_cases hm : m = n
  · subst hm
    simp [overlay, h]
  · simp [overlay, hm]

theorem overlay_all (given : PolicyName → Option PolicyOverride) (h : ∀ n, given n = none) :
    overlay PolicyName.all upper given = upper := by
  funext n
  simp [overlay, PolicyName.mem_all, h]

/-- Entries are decoded one after the other. -/
theorem decodePolicyMap_entries (given : PolicyName → Option PolicyOverride)
    (names : List PolicyName)
    (h : ∀ n e, upper n = some e → PolicyOverride.decode e.encode = .ok e) :
    decodePolicyMap PolicyOverride.decode given
      ((names.filterMap fun n => (upper n).map fun e => (n, e)).map
        fun (n, e) => (n.key, e.encode)) = .ok (overlay names upper given) := by
  induction names generalizing given with
  | nil => rw [overlay_nil]; rfl
  | cons n names ih =>
    cases hn : upper n with
    | none =>
      rw [List.filterMap_cons_none (by rw [hn]; rfl), ih given, overlay_cons_none hn]
    | some e =>
      rw [List.filterMap_cons_some (by rw [hn]; rfl), List.map_cons, decodePolicyMap,
        PolicyName.ofKey?_key, h n e hn, overlay_cons_some hn]
      exact ih _

theorem insertAll_valid (before : PolicyOverrides)
    (h : ∀ n e, upper n = some e → e.validatedFor n = .ok e) :
    (insertAll upper names).run before = .ok () ⟨overlay names upper before.entry⟩ := by
  induction names generalizing before with
  | nil => rw [overlay_nil]; rfl
  | cons n names ih =>
    cases hn : upper n with
    | none =>
      rw [insertAll_cons_none hn, overlay_cons_none hn]
      exact ih before
    | some e =>
      rw [overlay_cons_some hn]
      exact (insertAll_cons_some hn).mpr
        ⟨before.put n e, insert_eq_ok.mpr ⟨e, h n e hn, rfl⟩, ih (before.put n e)⟩

theorem decode_encode {overrides : PolicyOverrides} (h : overrides.Valid) :
    decode overrides.encode = .ok overrides := by
  have hmap := decodePolicyMap_entries (fun _ => none) PolicyName.all
    fun n e he => PolicyOverride.decode_encode (h n e he)
  rw [overlay_all _ fun _ => rfl] at hmap
  have hcheck : ofEntries overrides.entry = .ok overrides :=
    ofEntries_eq_ok.mpr ((insertAll_valid empty h).trans (by
      rw [overlay_all empty.entry fun _ => rfl]))
  rw [encode, decode, toList, hmap, Decoded.ok_bind, hcheck]
  rfl

theorem mem_toList {overrides : PolicyOverrides} {m : PolicyName × PolicyOverride}
    (h : m ∈ overrides.toList) : overrides.entry m.1 = some m.2 := by
  obtain ⟨n, -, hn⟩ := List.mem_filterMap.mp h
  obtain ⟨e, he, rfl⟩ := Option.map_eq_some_iff.mp hn
  exact he

theorem depth_encode_le (overrides : PolicyOverrides) : overrides.encode.depth ≤ 2 := by
  refine Nat.succ_le_succ (Json.depthMembers_le fun m hm => ?_)
  obtain ⟨m, -, rfl⟩ := List.mem_map.mp hm
  exact PolicyOverride.depth_encode_le m.2

theorem plain_encode {overrides : PolicyOverrides} (h : overrides.Valid)
    (readBack : overrides.FactorsReadBack) : overrides.encode.Plain := by
  apply Json.plainMembers_of_mem
  intro m hm
  obtain ⟨m, hmem, rfl⟩ := List.mem_map.mp hm
  have he := mem_toList hmem
  exact PolicyOverride.plain_encode (h m.1 m.2 he) fun x hx => readBack m.1 m.2 x he hx

end PolicyOverrides

end Entitlement
