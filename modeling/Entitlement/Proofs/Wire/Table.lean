import Entitlement.Proofs.Policy.Generosity

/-!
# Policy tables, one field for each policy

A policy has one place in a table, one field in the record that is written of it, and one member
in the map of an instance. The record is decoded field by field from literals of the policy's
kind; the map is decoded first and its values are made to fit. Where both accept the same members
they give the same table.
-/

set_option autoImplicit false

namespace Entitlement

namespace PolicyName

variable {n m : PolicyName} {s : String}

theorem text_inj : n.text = m.text ↔ n = m := by
  refine ⟨fun same => ?_, congrArg text⟩
  exact Option.some.inj ((ofText?_text n).symm.trans (same ▸ ofText?_text m))

theorem ofKey?_eq_some : ofKey? s = some n ↔ n.text = s := by
  constructor
  · intro known
    unfold ofKey? at known
    split at known <;> cases known <;> rfl
  · rintro rfl
    rw [← key_eq_text]
    exact ofKey?_key n

theorem ofOption_ofKey? : Decoded.ofOption (ofKey? s) = .ok n ↔ n.text = s :=
  Decoded.ofOption_eq_ok.trans ofKey?_eq_some

end PolicyName

def PolicyKind.literal (kind : PolicyKind) (j : Json) : Decoded PolicyValue :=
  match kind with
  | .flag => .flag <$> j.asBool
  | .limit => .limit <$> j.asInt64
  | .factor => .factor <$> j.asFloat

def PolicyKind.check (kind : PolicyKind) (j : Json) : Decoded Unit :=
  match kind with
  | .flag => do let _ ← j.asBool
  | .limit => do let _ ← j.asInt64
  | .factor => do let _ ← j.asFloat

theorem PolicyKind.check_eq_ok {kind : PolicyKind} {j : Json} :
    kind.check j = .ok () ↔ ∃ v, kind.literal j = .ok v := by
  unfold check literal
  cases kind
  · cases j.asBool <;> simp
  · cases j.asInt64 <;> simp
  · cases j.asFloat <;> simp

namespace PolicyValue

variable {kind : PolicyKind} {value untyped fitted : PolicyValue} {n : PolicyName} {j : Json}

theorem eq_of_fit? (hkind : value.kind = kind) (fits : value.fit? kind = some fitted) :
    fitted = value := by
  subst hkind
  cases value with
  | flag b => exact (Option.some.inj fits).symm
  | limit i => exact (Option.some.inj fits).symm
  | factor x =>
    simp only [PolicyValue.kind, fit?] at fits
    split at fits <;> cases fits
    rfl

/-- A literal of the kind is read as the value that is made of it without regard to kinds. -/
theorem fit?_decode (typed : kind.literal j = .ok value) (read : decode j = .ok untyped)
    (fits : untyped.fit? kind = some fitted) : fitted = value := by
  cases kind with
  | flag =>
    obtain ⟨b, hb, rfl⟩ := Decoded.map_eq_ok.mp typed
    cases j <;> cases hb
    cases read
    exact eq_of_fit? rfl fits
  | limit =>
    obtain ⟨i, hi, rfl⟩ := Decoded.map_eq_ok.mp typed
    cases j <;> simp only [Json.asInt64, reduceCtorEq] at hi
    split at hi <;> cases hi
    next within =>
      rw [decode, if_pos within] at read
      cases read
      exact eq_of_fit? rfl fits
  | factor =>
    obtain ⟨x, hx, rfl⟩ := Decoded.map_eq_ok.mp typed
    cases j with
    | int i =>
      cases hx
      simp only [decode] at read
      split at read <;> cases read
      -- an integer of 64 bits is a limit first, and then the multiplier of the same integer
      · next within =>
        have hmax : Int64.maxValue.toInt = 2 ^ 63 - 1 := rfl
        rw [fit?, Int64.toInt_ofInt_of_le within.1 (by omega)] at fits
        exact (Option.some.inj fits).symm
      · exact eq_of_fit? rfl fits
    | float x =>
      cases hx
      cases read
      exact eq_of_fit? rfl fits
    | _ => cases hx

theorem literal_encode (h : value.Fits n.kind) : n.kind.literal value.encode = .ok value := by
  have kind := kind_of_fit h
  rw [← kind]
  cases value with
  | flag b => rfl
  | limit i => exact congrArg (Functor.map limit) (Json.asInt64_toInt i)
  | factor x =>
    rw [encode_factor h]
    rfl

end PolicyValue

section Maps

variable {β : Type} {read : Json → Decoded β} {given found : PolicyName → Option β}
  {members : List (String × Json)}

/-- A map is refused for a single name that no policy has. -/
theorem decodePolicyMap_known (h : decodePolicyMap read given members = .ok found) :
    ∀ m ∈ members, ∃ n, m.1 = PolicyName.text n := by
  induction members generalizing given with
  | nil => simp
  | cons m members ih =>
    obtain ⟨n, named, h⟩ := Decoded.bind_eq_ok.mp h
    obtain ⟨b, -, h⟩ := Decoded.bind_eq_ok.mp h
    rw [List.forall_mem_cons]
    exact ⟨⟨n, (PolicyName.ofOption_ofKey?.mp named).symm⟩, ih h⟩

/-- With different names the member of a policy decides its value. -/
theorem decodePolicyMap_lookup (distinct : (members.map (·.1)).Nodup)
    (h : decodePolicyMap read given members = .ok found) (n : PolicyName) :
    (members.lookup n.text = none ∧ found n = given n) ∨
      ∃ j b, members.lookup n.text = some j ∧ read j = .ok b ∧ found n = some b := by
  induction members generalizing given with
  | nil =>
    cases h
    exact .inl ⟨rfl, rfl⟩
  | cons m members ih =>
    obtain ⟨name, j⟩ := m
    rw [List.map_cons, List.nodup_cons] at distinct
    obtain ⟨policy, named, tail⟩ := Decoded.bind_eq_ok.mp h
    obtain ⟨b, hb, tail⟩ := Decoded.bind_eq_ok.mp tail
    obtain rfl := PolicyName.ofOption_ofKey?.mp named
    have rest := ih distinct.2 tail
    by_cases hn : n = policy
    · subst hn
      -- the first member of a name is the last one too, so nothing behind it counts instead
      have absent : members.lookup n.text = none := List.lookup_eq_none_iff.mpr fun m hm =>
        bne_iff_ne.mpr fun same => distinct.1 (List.mem_map.mpr ⟨m, hm, same.symm⟩)
      rw [if_pos rfl, absent] at rest
      rcases rest with ⟨-, kept⟩ | ⟨_, _, again, -⟩
      · exact .inr ⟨j, b, List.lookup_cons_self, hb, kept⟩
      · cases again
    · rw [if_neg hn] at rest
      have other : (n.text == policy.text) = false :=
        beq_false_of_ne (mt PolicyName.text_inj.mp hn)
      rw [List.lookup_cons, other]
      exact rest

end Maps

namespace InstancePolicies

variable {given : PolicyName → Option PolicyValue} {policies : InstancePolicies} {n : PolicyName}

/-- A pass over some policies puts the values given for them, made to fit, over what was there. -/
theorem foldlM_fit {names : List PolicyName} {before : InstancePolicies}
    (h : names.foldlM (fun policies n =>
      match given n with
      | some value => return policies.put n (← value.coerceFor n)
      | none => .ok policies) before = .ok policies) (n : PolicyName) :
    ((n ∉ names ∨ given n = none) ∧ policies.value n = before.value n) ∨
      ∃ value fitted, given n = some value ∧ value.fit? n.kind = some fitted ∧
        policies.value n = some fitted := by
  induction names generalizing before with
  | nil =>
    cases h
    exact .inl ⟨.inl List.not_mem_nil, rfl⟩
  | cons m names ih =>
    rw [List.foldlM_cons] at h
    cases hm : given m with
    | none =>
      rw [hm] at h
      rcases ih h with ⟨left | none, kept⟩ | fits
      · by_cases hn : n = m
        · exact .inl ⟨.inr (hn ▸ hm), kept⟩
        · exact .inl ⟨.inl (List.not_mem_cons_of_ne_of_not_mem hn left), kept⟩
      · exact .inl ⟨.inr none, kept⟩
      · exact .inr fits
    | some value =>
      rw [hm] at h
      cases hfit : value.coerceFor m with
      | error fault =>
        simp only [hfit] at h
        cases h
      | ok fitted =>
        simp only [hfit] at h
        rcases ih h with ⟨left, kept⟩ | fits
        · by_cases hn : n = m
          · subst hn
            exact .inr ⟨value, fitted, hm, PolicyValue.coerceFor_eq_ok.mp hfit,
              kept.trans (if_pos rfl)⟩
          · exact .inl ⟨left.imp_left (List.not_mem_cons_of_ne_of_not_mem hn),
              kept.trans (if_neg hn)⟩
        · exact .inr fits

theorem ofValues_value (h : ofValues given = .ok policies) (n : PolicyName) :
    (given n = none ∧ policies.value n = none) ∨
      ∃ value fitted, given n = some value ∧ value.fit? n.kind = some fitted ∧
        policies.value n = some fitted := by
  rcases foldlM_fit h n with ⟨left | none, kept⟩ | fits
  · exact absurd (PolicyName.mem_all n) left
  · exact .inl ⟨none, kept⟩
  · exact .inr fits

end InstancePolicies

namespace PolicyTable

variable {table other : PolicyTable} {n : PolicyName} {value : PolicyValue}

theorem ext_get (h : ∀ n, table.get n = other.get n) : table = other := by
  obtain ⟨⟩ := table
  obtain ⟨⟩ := other
  congr
  · exact PolicyValue.flag.inj (h .gtlAvailable)
  · exact PolicyValue.flag.inj (h .ltlAvailable)
  · exact PolicyValue.flag.inj (h .canPublicNote)
  · exact PolicyValue.limit.inj (h .mentionLimit)
  · exact PolicyValue.flag.inj (h .canInvite)
  · exact PolicyValue.limit.inj (h .inviteLimit)
  · exact PolicyValue.limit.inj (h .inviteLimitCycle)
  · exact PolicyValue.limit.inj (h .inviteExpirationTime)
  · exact PolicyValue.flag.inj (h .canManageCustomEmojis)
  · exact PolicyValue.flag.inj (h .canManageAvatarDecorations)
  · exact PolicyValue.flag.inj (h .canSearchNotes)
  · exact PolicyValue.flag.inj (h .canUseTranslator)
  · exact PolicyValue.flag.inj (h .canHideAds)
  · exact PolicyValue.limit.inj (h .driveCapacityMb)
  · exact PolicyValue.flag.inj (h .alwaysMarkNsfw)
  · exact PolicyValue.limit.inj (h .pinLimit)
  · exact PolicyValue.limit.inj (h .antennaLimit)
  · exact PolicyValue.limit.inj (h .wordMuteLimit)
  · exact PolicyValue.limit.inj (h .webhookLimit)
  · exact PolicyValue.limit.inj (h .clipLimit)
  · exact PolicyValue.limit.inj (h .noteEachClipsLimit)
  · exact PolicyValue.limit.inj (h .userListLimit)
  · exact PolicyValue.limit.inj (h .userEachUserListsLimit)
  · exact PolicyValue.factor.inj (h .rateLimitFactor)
  · exact PolicyValue.limit.inj (h .avatarDecorationLimit)

theorem set_eq_ok {next : PolicyTable} : (set n value).run table = .ok () next ↔
    ∃ fitted, value.coerceFor n = .ok fitted ∧ table.store n fitted = next :=
  run_checked_eq_ok

theorem set_eq_error {fault : Fault} {left : PolicyTable} :
    (set n value).run table = .error fault left ↔
      value.coerceFor n = .error fault ∧ left = table :=
  run_checked_eq_error

theorem get_of_set {next : PolicyTable} (h : (set n value).run table = .ok () next) :
    value.coerceFor n = .ok (next.get n) ∧ ∀ m, m ≠ n → next.get m = table.get m := by
  obtain ⟨fitted, fits, rfl⟩ := set_eq_ok.mp h
  have kind := PolicyValue.kind_of_fit (PolicyValue.coerceFor_eq_ok.mp fits)
  exact ⟨(get_store_self kind).symm ▸ fits, fun m hm => get_store_of_ne table fitted hm⟩

def fields (table : PolicyTable) : List (String × Json) :=
  PolicyName.all.map fun n => (n.text, (table.get n).encode)

theorem encode_eq (table : PolicyTable) : table.encode = .object table.fields := rfl

/-- The fields that are read are those of the policies, by their names and kinds. -/
theorem fields_shape : shape.fields = PolicyName.all.map fun n => (n.text, n.kind.check) := rfl

theorem map_fields (table : PolicyTable) :
    table.fields.map (·.1) = PolicyName.all.map PolicyName.text := List.map_map

theorem map_fields_shape : shape.fields.map (·.1) = PolicyName.all.map PolicyName.text := rfl

theorem fields_distinct (table : PolicyTable) : (table.fields.map (·.1)).Nodup :=
  table.map_fields ▸ PolicyName.texts_nodup

theorem lookup_fields (table : PolicyTable) (n : PolicyName) :
    table.fields.lookup n.text = some (table.get n).encode :=
  Shape.lookup_of_mem table.fields_distinct
    (List.mem_map.mpr ⟨n, PolicyName.mem_all n, rfl⟩)

variable {members : List (String × Json)}

def stated (members : List (String × Json)) (n : PolicyName) : Decoded PolicyValue :=
  match members.lookup n.text with
  | some j => n.kind.literal j
  | none => .ok (default.get n)

theorem stated_of_field {α : Type} (make : α → PolicyValue) {read : Json → Decoded α}
    (literal : ∀ j, n.kind.literal j = make <$> read j) {absent a : α}
    (base : default.get n = make absent)
    (built : (Shape.fieldOr n.text (.ok absent) read).build members = .ok a) :
    stated members n = .ok (make a) := by
  unfold stated
  cases found : members.lookup n.text with
  | none =>
    simp only [Shape.fieldOr, found, Except.ok.injEq] at built
    rw [base, built]
  | some j =>
    rw [Shape.build_fieldOr found] at built
    exact (literal j).trans (Decoded.map_eq_ok.mpr ⟨a, built, rfl⟩)

/-- The field under the name of a policy is the one that is looked up under the policy, and its
value in its absence is the built-in one. -/
theorem stated_of_build (built : shape.build members = .ok table) (n : PolicyName) :
    stated members n = .ok (table.get n) := by
  unfold shape at built
  iterate 24
    replace built := Shape.build_seq_eq_ok.mp built
    obtain ⟨_, _, built, _, rfl⟩ := built
  obtain ⟨_, _, rfl⟩ := Shape.build_map_eq_ok.mp built
  cases n <;> first
    | exact stated_of_field .flag (fun _ => rfl) rfl (by assumption)
    | exact stated_of_field .limit (fun _ => rfl) rfl (by assumption)
    | exact stated_of_field .factor (fun _ => rfl) rfl (by assumption)

theorem get_of_absent (record : decode (.object members) = .ok table)
    (absent : members.lookup n.text = none) : table.get n = default.get n := by
  obtain ⟨_, -, built⟩ := Decoded.bind_eq_ok.mp record
  have states := stated_of_build built n
  rw [stated, absent] at states
  exact (Except.ok.inj states).symm

theorem judges_shape : shape.Judges := by
  unfold shape
  iterate 24 refine Shape.Judges.seq ?_ (Shape.judges_fieldOr _ _ _)
  exact (Shape.judges_fieldOr _ _ _).map _

theorem completes_shape : shape.Completes := by
  unfold shape
  iterate 24 refine Shape.Completes.seq ?_ (Shape.completes_fieldOr _ _ _)
  exact (Shape.completes_fieldOr _ _ _).map _

theorem decode_encode (finite : table.rateLimitFactor.isFinite = true) :
    decode table.encode = .ok table := by
  have typed (n : PolicyName) : n.kind.literal (table.get n).encode = .ok (table.get n) :=
    PolicyValue.literal_encode (fits_get finite n)
  have pass (name : String) (check : Json → Decoded Unit) (known : (name, check) ∈ shape.fields)
      (j : Json) (found : table.fields.lookup name = some j) : check j = .ok () := by
    rw [fields_shape] at known
    obtain ⟨n, -, same⟩ := List.mem_map.mp known
    obtain ⟨rfl, rfl⟩ := Prod.mk.inj same
    obtain rfl := Option.some.inj ((lookup_fields table n).symm.trans found)
    exact PolicyKind.check_eq_ok.mpr ⟨_, typed n⟩
  obtain ⟨made, built⟩ := completes_shape table.fields pass
  have same : made = table := ext_get fun n => by
    have states := stated_of_build built n
    rw [stated, lookup_fields] at states
    exact Except.ok.inj (states.symm.trans (typed n))
  have known : table.fields.map (·.1) ⊆ shape.fields.map (·.1) := by
    rw [map_fields, map_fields_shape]
    exact List.Subset.refl _
  exact Shape.read_of_build judges_shape table.fields_distinct known (same ▸ built)

/-- Values that are there are stored one after the other, and those of other policies stay. -/
theorem get_foldl_store_some {policies : InstancePolicies}
    (kinds : ∀ n v, policies.value n = some v → v.kind = n.kind) (names : List PolicyName)
    (table : PolicyTable) (n : PolicyName) :
    ((names.filterMap fun n => (policies.value n).map fun v => (n, v)).foldl
      (fun table (n, value) => table.store n value) table).get n =
      if n ∈ names then (policies.value n).getD (table.get n) else table.get n := by
  induction names generalizing table with
  | nil => rfl
  | cons m names ih =>
    cases hm : policies.value m with
    | none =>
      rw [List.filterMap_cons_none (by rw [hm]; rfl), ih]
      by_cases hn : n = m
      · simp [hn, hm]
      · simp [hn]
    | some v =>
      rw [List.filterMap_cons_some (by rw [hm]; rfl), List.foldl_cons, ih]
      by_cases hn : n = m
      · simp [hn, hm, get_store_self (kinds m v hm)]
      · simp [hn, get_store_of_ne table v hn]

theorem get_ofInstance {policies : InstancePolicies}
    (kinds : ∀ n v, policies.value n = some v → v.kind = n.kind) (n : PolicyName) :
    (ofInstance policies).get n = (policies.value n).getD (default.get n) := by
  unfold ofInstance InstancePolicies.toList
  rw [get_foldl_store_some kinds, if_pos (PolicyName.mem_all n)]

/-- A record of a table and a map of an instance that are one object mean the same table. -/
theorem ofInstance_of_decode {policies : InstancePolicies} {members : List (String × Json)}
    (record : decode (.object members) = .ok table)
    (map : InstancePolicies.decode (.object members) = .ok policies) :
    ofInstance policies = table := by
  obtain ⟨_, scanned, built⟩ := Decoded.bind_eq_ok.mp record
  obtain ⟨given, hgiven, checked⟩ := Decoded.bind_eq_ok.mp map
  have fitted := InstancePolicies.ofValues_value (Decoded.checked_eq_ok.mp checked)
  have known := decodePolicyMap_known hgiven
  obtain ⟨distinct, -, -⟩ := Shape.of_scan_ok (fun m hm => by
    obtain ⟨n, hn⟩ := known m hm
    have field : m.1 ∈ shape.fields.map (·.1) := by
      rw [map_fields_shape, hn]
      exact List.mem_map_of_mem (PolicyName.mem_all n)
    obtain ⟨check, found, -⟩ := Shape.exists_lookup field
    exact ⟨check, found⟩) scanned
  have kinds (n : PolicyName) (v : PolicyValue) (hv : policies.value n = some v) :
      v.kind = n.kind := by
    rcases fitted n with ⟨-, none⟩ | ⟨_, _, -, fits, some⟩
    · cases none.symm.trans hv
    · obtain rfl := Option.some.inj (some.symm.trans hv)
      exact PolicyValue.kind_of_fit fits
  refine ext_get fun n => ?_
  rw [get_ofInstance kinds]
  rcases decodePolicyMap_lookup distinct hgiven n with
    ⟨absent, none⟩ | ⟨j, untyped, present, read, some⟩
  · rcases fitted n with ⟨-, unset⟩ | ⟨_, _, other, -⟩
    · rw [unset]
      exact (get_of_absent record absent).symm
    · cases none.symm.trans other
  · have states := stated_of_build built n
    rw [stated, present] at states
    rcases fitted n with ⟨none, -⟩ | ⟨value, fits, other, hfit, stored⟩
    · cases some.symm.trans none
    · obtain rfl := Option.some.inj (some.symm.trans other)
      rw [stored]
      exact PolicyValue.fit?_decode states read hfit

/-- A policy has one place in a table and one field in its record, under one name in every table
of names and of one kind in every table of places. A value that is set changes what is found under
its policy and nothing else, and one that does not fit changes nothing. The record has a field for
each policy and no others, and is read back; a field that it lacks has the built-in value; and
where it is also the map of an instance, it is the table of that instance. -/
theorem one_field_each (table : PolicyTable) :
    (∀ n : PolicyName, n.key = n.text ∧ (table.get n).kind = n.kind ∧
      (table.writeFlag? n).isSome = decide (n.kind = .flag) ∧
      (table.writeLimit? n).isSome = decide (n.kind = .limit)) ∧
    (∀ n value next, (set n value).run table = .ok () next →
      value.coerceFor n = .ok (next.get n) ∧ ∀ m, m ≠ n → next.get m = table.get m) ∧
    (∀ n value fault left, (set n value).run table = .error fault left →
      value.coerceFor n = .error fault ∧ left = table) ∧
    (∃ fields : List (String × Json), table.encode = .object fields ∧
      fields.map (·.1) = PolicyName.all.map PolicyName.text ∧ (fields.map (·.1)).Nodup ∧
      ∀ n : PolicyName, fields.lookup n.text = some (table.get n).encode) ∧
    (table.rateLimitFactor.isFinite = true → decode table.encode = .ok table) ∧
    ∀ members, decode (.object members) = .ok table →
      (∀ n : PolicyName, members.lookup n.text = none → table.get n = default.get n) ∧
      ∀ policies, InstancePolicies.decode (.object members) = .ok policies →
        ofInstance policies = table :=
  ⟨fun n => ⟨n.key_eq_text, kind_get table n, isSome_writeFlag? table n,
      isSome_writeLimit? table n⟩,
    fun _ _ _ => get_of_set, fun _ _ _ _ => set_eq_error.mp,
    ⟨table.fields, table.encode_eq, table.map_fields, table.fields_distinct, table.lookup_fields⟩,
    decode_encode, fun _ record => ⟨fun _ => get_of_absent record,
      fun _ => ofInstance_of_decode record⟩⟩

/-- Pins are set by a whole multiplier, but not by a switch; an object with a single integer is a
record and a map, in which the integer stands for a multiplier. -/
theorem one_field_each_doubled :
    let seven : PolicyTable := { default with pinLimit := 7 }
    let doubled : PolicyTable := { default with rateLimitFactor := Binary64.ofNat 2 }
    let members : List (String × Json) := [("rateLimitFactor", .int 2)]
    let policies : InstancePolicies :=
      InstancePolicies.empty.put .rateLimitFactor (.factor (Binary64.ofNat 2))
    ((set .pinLimit (.factor (Binary64.ofNat 7))).run default = .ok () seven ∧
      (set .pinLimit (.flag true)).run default =
        .error (.valueMisfit (.flag true) .pinLimit) default ∧
      doubled.rateLimitFactor.isFinite = true ∧ decode (.object members) = .ok doubled ∧
      members.lookup (PolicyName.text .pinLimit) = none ∧
      InstancePolicies.decode (.object members) = .ok policies) ∧
    (∀ m, m ≠ .pinLimit → seven.get m = default.get m) ∧
    (PolicyValue.flag true).coerceFor .pinLimit = .error (.valueMisfit (.flag true) .pinLimit) ∧
    decode doubled.encode = .ok doubled ∧ doubled.get .pinLimit = default.get .pinLimit ∧
    ofInstance policies = doubled := by
  intro seven doubled members policies
  have set_seven : (set .pinLimit (.factor (Binary64.ofNat 7))).run default = .ok () seven := by
    rfl
  have refused : (set .pinLimit (.flag true)).run default =
      .error (.valueMisfit (.flag true) .pinLimit) default := rfl
  have finite : doubled.rateLimitFactor.isFinite = true := by decide
  have record : decode (.object members) = .ok doubled := by rfl
  have absent : members.lookup (PolicyName.text .pinLimit) = none := by decide
  have map : InstancePolicies.decode (.object members) = .ok policies := by rfl
  obtain ⟨-, sets, fails, -, -, -⟩ := one_field_each default
  obtain ⟨-, -, -, -, readBack, reads⟩ := one_field_each doubled
  obtain ⟨builtIn, maps⟩ := reads _ record
  exact ⟨⟨set_seven, refused, finite, record, absent, map⟩, (sets _ _ _ set_seven).2,
    (fails _ _ _ _ refused).1, readBack finite, builtIn _ absent, maps _ map⟩

end PolicyTable

end Entitlement
