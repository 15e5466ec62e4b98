import Entitlement.Proofs.Policy.Generosity

/-!
# The course of overrides

Overrides begin empty, are made of given entries, are read from a text and take further entries
one by one. In all this the entries stay of the type of their policies: each has a value or refers
to the instance, and a value is of the kind of its policy. So entries can be moved and overrides
written and read back without a change, and merging passes over no value.
-/

set_option autoImplicit false

namespace Entitlement

namespace PolicyValue

theorem fits_iff {value : PolicyValue} {kind : PolicyKind} : value.Fits kind ↔
    value.kind = kind ∧ ∀ x, value = .factor x → x.isFinite = true := by
  constructor
  · intro fits
    refine ⟨kind_of_fit fits, fun x hx => ?_⟩
    subst hx
    obtain rfl : PolicyKind.factor = kind := kind_of_fit fits
    exact fits.isFinite
  · rintro ⟨rfl, finite⟩
    cases value with
    | flag b => rfl
    | limit i => rfl
    | factor x => simp [Fits, fit?, kind, finite x rfl]

end PolicyValue

namespace PolicyOverride

variable {e : PolicyOverride} {n m : PolicyName}

structure Typed (e : PolicyOverride) (n : PolicyName) : Prop where
  stated : e.value = none → e.useDefault = true
  kind : ∀ value, e.value = some value → value.kind = n.kind
  finite : ∀ x, e.value = some (.factor x) → x.isFinite = true

/-- The check lets exactly the entries of the type of the policy pass unchanged. -/
theorem validatedFor_self_iff : e.validatedFor n = .ok e ↔ e.Typed n := by
  obtain ⟨useDefault, priority, value⟩ := e
  cases value with
  | none =>
    cases useDefault with
    | true => exact ⟨fun _ => ⟨fun _ => rfl, nofun, nofun⟩, fun _ => rfl⟩
    | false => exact ⟨nofun, fun typed => nomatch typed.stated rfl⟩
  | some value =>
    constructor
    · intro passed
      obtain ⟨kind, finite⟩ := PolicyValue.fits_iff.mp (fit?_of_validatedFor passed rfl)
      exact ⟨nofun, fun v hv => Option.some.inj hv ▸ kind,
        fun x hx => finite x (Option.some.inj hx)⟩
    · intro typed
      exact validatedFor_of_fit? (PolicyValue.fits_iff.mpr
        ⟨typed.kind value rfl, fun x hx => typed.finite x (congrArg some hx)⟩)

/-- The type of an entry depends on the kind of the policy alone. -/
theorem Typed.of_kind (typed : e.Typed n) (same : m.kind = n.kind) : e.Typed m :=
  ⟨typed.stated, fun value hv => (typed.kind value hv).trans same.symm, typed.finite⟩

end PolicyOverride

namespace PolicyOverrides

variable {overrides : PolicyOverrides} {n : PolicyName} {e : PolicyOverride}

theorem Valid.typed (h : overrides.Valid) (he : overrides.entry n = some e) : e.Typed n :=
  PolicyOverride.validatedFor_self_iff.mp (h n e he)

theorem insert_typed (typed : e.Typed n) (overrides : PolicyOverrides) :
    (insert n e).run overrides = .ok () (overrides.put n e) :=
  insert_eq_ok.mpr ⟨e, PolicyOverride.validatedFor_self_iff.mpr typed, rfl⟩

inductive Edit where
  | reset
  | renew (given : PolicyName → Option PolicyOverride)
  | enter (policy : PolicyName) (entry : PolicyOverride)
  | read (j : Json)

def after (overrides : PolicyOverrides) : Edit → PolicyOverrides
  | .reset => empty
  | .renew given => (ofEntries given).toOption.getD overrides
  | .enter policy entry =>
    match (insert policy entry).run overrides with
    | .ok _ left | .error _ left => left
  | .read j => (decode j).toOption.getD overrides

def reached (edits : List Edit) : PolicyOverrides := edits.foldl after empty

theorem valid_decode {j : Json} (h : decode j = .ok overrides) : overrides.Valid := by
  unfold decode at h
  split at h
  · obtain ⟨given, -, checked⟩ := Decoded.bind_eq_ok.mp h
    exact valid_ofEntries (Decoded.checked_eq_ok.mp checked)
  · cases h

theorem Valid.after (h : overrides.Valid) (edit : Edit) : (overrides.after edit).Valid := by
  cases edit with
  | reset => exact valid_empty
  | renew given =>
    rw [PolicyOverrides.after]
    cases made : ofEntries given with
    | error fault => exact h
    | ok next => exact valid_ofEntries made
  | enter n e =>
    rw [PolicyOverrides.after]
    cases entered : (PolicyOverrides.insert n e).run overrides with
    | ok _ next => exact h.insert entered
    | error fault left => exact (insert_eq_error.mp entered).2 ▸ h
  | read j =>
    rw [PolicyOverrides.after]
    cases made : decode j with
    | error fault => exact h
    | ok next => exact valid_decode made

theorem Valid.run (h : overrides.Valid) (edits : List Edit) :
    (edits.foldl PolicyOverrides.after overrides).Valid := by
  induction edits generalizing overrides with
  | nil => exact h
  | cons edit edits ih => exact ih (h.after edit)

theorem valid_reached (edits : List Edit) : (reached edits).Valid := valid_empty.run edits

end PolicyOverrides

namespace PolicyTable

open PolicyOverrides

theorem kind_counted {base : PolicyTable} {roles : List PolicyOverrides} {n : PolicyName}
    {v : PolicyValue} (valid : ∀ r ∈ roles, r.Valid) (hv : v ∈ counted base roles n) :
    v.kind = n.kind := by
  obtain ⟨r, leads, rfl⟩ := mem_counted.mp hv
  exact (valid r leads.1).kind_resolve (kind_get base n)

/-- The overrides that edits lead to have entries of the type of their policies, keep what they
have when an insertion fails, give away entries that are stored elsewhere as they are, and are
read back from what is written of them. Merging such overrides passes over none of the values of
the entries that count, and stores what they combine to. -/
theorem reached_overrides_typed (histories : List (List Edit)) (base : PolicyTable) :
    let roles := histories.map reached
    (∀ overrides ∈ roles,
      (∀ n e, overrides.entry n = some e → e.Typed n ∧
        ∀ (m : PolicyName) (others : PolicyOverrides), m.kind = n.kind →
          (insert m e).run others = .ok () (others.put m e)) ∧
      (∀ n e fault left, (insert n e).run overrides = .error fault left → left = overrides) ∧
      PolicyOverrides.decode overrides.encode = .ok overrides) ∧
    (roles = [] → resolve base roles = base) ∧
    (roles ≠ [] → ∀ n, counted base roles n ≠ [] ∧
      (∀ v ∈ counted base roles n, v.kind = n.kind) ∧
      (resolve base roles).get n = merged n (counted base roles n) (base.get n) ∧
      Combines n (counted base roles n) ((resolve base roles).get n)) := by
  intro roles
  have valid : ∀ r ∈ roles, r.Valid := by
    intro r hr
    obtain ⟨edits, -, rfl⟩ := List.mem_map.mp hr
    exact valid_reached edits
  refine ⟨fun overrides mem => ⟨fun n e he => ?_, fun n e fault left failed => ?_, ?_⟩,
    fun none => by rw [none]; rfl, fun some n => ?_⟩
  · have typed := (valid overrides mem).typed he
    exact ⟨typed, fun m others same => insert_typed (typed.of_kind same) others⟩
  · exact (insert_eq_error.mp failed).2
  · exact PolicyOverrides.decode_encode (valid overrides mem)
  · have any : counted base roles n ≠ [] := counted_ne_nil some
    have kinds : ∀ v ∈ counted base roles n, v.kind = n.kind := fun v hv => kind_counted valid hv
    have merges : (resolve base roles).get n = merged n (counted base roles n) (base.get n) :=
      get_resolve base some n
    exact ⟨any, kinds, merges, merges ▸ combines_merged any kinds⟩

/-- A whole multiplier enters as the limit seven, and a switch is turned away. -/
theorem reached_overrides_typed_seven :
    let pins : PolicyName := .pinLimit
    let seven : PolicyOverride := ⟨false, .high, some (.limit 7)⟩
    let misfit : PolicyOverride := ⟨false, .high, some (.flag true)⟩
    let edits : List Edit := [.enter pins ⟨false, .high, some (.factor (Binary64.ofNat 7))⟩,
      .enter pins misfit]
    let roles := [reached edits, reached []]
    (roles ≠ [] ∧ (reached edits).entry pins = some seven ∧
      ∃ left, (insert pins misfit).run (reached edits) =
        .error (.valueMisfit (.flag true) pins) left ∧ left = reached edits) ∧
    seven.Typed pins ∧ (insert pins seven).run empty = .ok () (empty.put pins seven) ∧
    PolicyOverrides.decode (reached edits).encode = .ok (reached edits) ∧
    Combines pins (counted default roles pins) ((resolve default roles).get pins) := by
  intro pins seven misfit edits roles
  have entered : (reached edits).entry pins = some seven := by decide
  have some : roles ≠ [] := List.cons_ne_nil _ _
  obtain ⟨each, -, merges⟩ := reached_overrides_typed [edits, []] default
  obtain ⟨entries, kept, readBack⟩ := each (reached edits) List.mem_cons_self
  obtain ⟨typed, moved⟩ := entries pins seven entered
  obtain ⟨-, -, -, combined⟩ := merges some pins
  exact ⟨⟨some, entered, _, rfl, kept pins misfit _ _ rfl⟩, typed, moved pins empty rfl,
    readBack, combined⟩

end PolicyTable

end Entitlement
