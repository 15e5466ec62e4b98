import Entitlement.Proofs.Number.Order
import Entitlement.Proofs.Policy.Resolution

/-!
# The most generous value

Of two values of a policy one is at least as generous as the other: off is below on, limits and
multipliers are compared as numbers. What is merged from several roles is one of the values that
count, and no other of these is more generous. So it depends on which roles there are and not on
their order or number, and a further role takes something away only by a priority above all others.
-/

set_option autoImplicit false

namespace Entitlement

namespace PolicyValue

def AtMost : PolicyValue → PolicyValue → Prop
  | .flag a, .flag b => a = true → b = true
  | .limit i, .limit j => i ≤ j
  | .factor x, .factor y => x.isFinite = true ∧ y.isFinite = true ∧ x.toRat ≤ y.toRat
  | _, _ => False

def Fits (value : PolicyValue) (kind : PolicyKind) : Prop := value.fit? kind = some value

instance (value : PolicyValue) (kind : PolicyKind) : Decidable (value.Fits kind) :=
  inferInstanceAs (Decidable (_ = _))

theorem Fits.isFinite {x : Binary64} (h : (PolicyValue.factor x).Fits .factor) :
    x.isFinite = true := by
  by_contra infinite
  simp [Fits, fit?, infinite] at h

theorem eq_of_atMost {value other : PolicyValue} (up : value.AtMost other)
    (down : other.AtMost value) (number : value.kind ≠ .factor) : value = other := by
  rcases value with b | i | x <;> rcases other with c | j | y
  case flag.flag => exact congrArg flag (Bool.eq_iff_iff.mpr ⟨up, down⟩)
  case limit.limit => exact congrArg limit (Int64.le_antisymm up down)
  case factor.factor => exact absurd rfl number
  all_goals exact up.elim

theorem Fits.atMost_self {value : PolicyValue} {kind : PolicyKind} (h : value.Fits kind) :
    value.AtMost value := by
  cases value with
  | flag b => exact fun on => on
  | limit i => exact Int64.le_refl i
  | factor x =>
    obtain rfl : PolicyKind.factor = kind := PolicyValue.kind_of_fit h
    exact ⟨h.isFinite, h.isFinite, le_refl _⟩

end PolicyValue

theorem PolicyPriority.number_inj {p q : PolicyPriority} (h : p.number = q.number) : p = q :=
  Except.ok.inj ((ofNumber_number p).symm.trans (h ▸ ofNumber_number q))

theorem PolicyOverride.resolve_of_inherits {e : PolicyOverride} {base : PolicyValue}
    (h : e.useDefault = true ∨ e.value = none) : e.resolve base = base := by
  unfold resolve
  rcases h with h | h <;> rw [h]
  cases e.value <;> simp

theorem PolicyOverrides.valid_single {n : PolicyName} {useDefault : Bool}
    {priority : PolicyPriority} {value : PolicyValue} (h : value.Fits n.kind) :
    (empty.put n ⟨useDefault, priority, some value⟩).Valid :=
  valid_empty.put (PolicyOverride.validatedFor_of_fit? h)

namespace PolicyTable

variable {base : PolicyTable} {roles others : List PolicyOverrides} {n : PolicyName}
  {value v : PolicyValue} {values : List PolicyValue}

theorem fits_get (finite : base.rateLimitFactor.isFinite = true) (n : PolicyName) :
    (base.get n).Fits n.kind := by
  by_cases multiplier : n = .rateLimitFactor
  · subst multiplier
    simp [PolicyValue.Fits, get, PolicyName.kind, PolicyValue.fit?, finite]
  · cases n <;> first | rfl | exact absurd rfl multiplier

theorem any_greatest {flags : List Bool} (some : flags ≠ []) :
    flags.any id ∈ flags ∧ ∀ b ∈ flags, b = true → flags.any id = true := by
  refine ⟨?_, fun b hb on => List.any_eq_true.mpr ⟨b, hb, on⟩⟩
  cases h : flags.any id with
  | true =>
    obtain ⟨b, hb, on⟩ := List.any_eq_true.mp h
    obtain rfl : b = true := on
    exact hb
  | false =>
    obtain ⟨b, hb⟩ := List.exists_mem_of_ne_nil flags some
    obtain rfl : b = false := by simpa using List.any_eq_false.mp h b hb
    exact hb

theorem maximum_greatest {x : Binary64} {rest : List Binary64}
    (finite : ∀ y ∈ x :: rest, y.isFinite = true) :
    rest.foldl Binary64.maximum x ∈ x :: rest ∧
      ∀ y ∈ x :: rest, y.toRat ≤ (rest.foldl Binary64.maximum x).toRat :=
  foldl_greatest (fun x y => x.toRat ≤ y.toRat) (fun x => le_refl x.toRat) le_trans
    (fun _ _ => Binary64.maximum_finite) x rest finite

/-- Values that fit are merged to one of them, and no other is more generous. -/
theorem merged_greatest (some : values ≠ []) (fits : ∀ v ∈ values, v.Fits n.kind) :
    merged n values value ∈ values ∧ ∀ v ∈ values, v.AtMost (merged n values value) := by
  have combined : Combines n values (merged n values value) :=
    combines_merged some fun v hv => PolicyValue.kind_of_fit (fits v hv)
  generalize merged n values value = result at combined
  cases combined with
  | anyOn switch flags =>
    have some' : flags ≠ [] := by simpa using some
    obtain ⟨mem, above⟩ := any_greatest some'
    exact ⟨List.mem_map_of_mem mem, List.forall_mem_map.mpr above⟩
  | greatest number mem above =>
    exact ⟨List.mem_map_of_mem mem, List.forall_mem_map.mpr above⟩
  | reduced multiplier x rest =>
    have finite (y : Binary64) (hy : y ∈ x :: rest) : y.isFinite = true :=
      (multiplier ▸ fits _ (List.mem_map_of_mem hy)).isFinite
    obtain ⟨mem, above⟩ := maximum_greatest finite
    exact ⟨List.mem_map_of_mem mem,
      List.forall_mem_map.mpr fun y hy => ⟨finite y hy, finite _ mem, above y hy⟩⟩

/-- The entries that count are those that no other exceeds in priority. -/
theorem mem_selected {entries : List PolicyOverride} {e : PolicyOverride} :
    e ∈ selected entries ↔
      e ∈ entries ∧ ∀ e' ∈ entries, e'.priority.number ≤ e.priority.number := by
  by_cases h : entries = []
  · simp [h, selected]
  · obtain ⟨top, ⟨t, ht, rfl⟩, above, counted⟩ := selected_eq_filter h
    rw [counted, List.mem_filter, decide_eq_true_eq]
    constructor
    · rintro ⟨he, hp⟩
      exact ⟨he, hp ▸ above⟩
    · rintro ⟨he, highest⟩
      exact ⟨he, PolicyPriority.number_inj (Nat.le_antisymm (above e he) (highest t ht))⟩

def counted (base : PolicyTable) (roles : List PolicyOverrides) (n : PolicyName) :
    List PolicyValue :=
  (selected (roles.map fun r => r.effective n)).map fun e => e.resolve (base.get n)

def Leads (roles : List PolicyOverrides) (n : PolicyName) (r : PolicyOverrides) : Prop :=
  r ∈ roles ∧ ∀ s ∈ roles, (s.effective n).priority.number ≤ (r.effective n).priority.number

theorem mem_counted : v ∈ counted base roles n ↔
    ∃ r, Leads roles n r ∧ (r.effective n).resolve (base.get n) = v := by
  simp only [counted, List.mem_map, mem_selected, Leads]
  constructor
  · rintro ⟨e, ⟨⟨r, hr, rfl⟩, highest⟩, rfl⟩
    exact ⟨r, ⟨hr, fun s hs => highest _ ⟨s, hs, rfl⟩⟩, rfl⟩
  · rintro ⟨r, ⟨hr, highest⟩, rfl⟩
    exact ⟨r.effective n, ⟨⟨r, hr, rfl⟩, by rintro _ ⟨s, hs, rfl⟩; exact highest s hs⟩, rfl⟩

theorem counted_ne_nil (some : roles ≠ []) : counted base roles n ≠ [] := by
  have entries : (roles.map fun r => r.effective n) ≠ [] := by simpa using some
  obtain ⟨top, ⟨e, he, hp⟩, -, counts⟩ := selected_eq_filter entries
  have mem : e ∈ selected (roles.map fun r => r.effective n) := by
    rw [counts, List.mem_filter]
    exact ⟨he, by simpa using hp⟩
  exact List.ne_nil_of_mem (List.mem_map_of_mem mem)

theorem counted_fits (finite : base.rateLimitFactor.isFinite = true) (valid : ∀ r ∈ roles, r.Valid)
    (hv : v ∈ counted base roles n) : v.Fits n.kind := by
  obtain ⟨r, ⟨hr, -⟩, rfl⟩ := mem_counted.mp hv
  rcases (valid r hr).resolve_cases n (base.get n) with e | fits
  · rw [e]
    exact fits_get finite n
  · exact fits

theorem resolve_greatest (finite : base.rateLimitFactor.isFinite = true) (some : roles ≠ [])
    (valid : ∀ r ∈ roles, r.Valid) (n : PolicyName) :
    (resolve base roles).get n ∈ counted base roles n ∧
      ∀ v ∈ counted base roles n, v.AtMost ((resolve base roles).get n) := by
  rw [get_resolve base some n]
  exact merged_greatest (counted_ne_nil some) fun v => counted_fits finite valid

/-- Where more values count, the value of a policy is at least as generous. -/
theorem resolve_atMost (finite : base.rateLimitFactor.isFinite = true) (some : roles ≠ [])
    (valid : ∀ r ∈ roles, r.Valid) (valid' : ∀ r ∈ others, r.Valid)
    (more : ∀ r, Leads roles n r → Leads others n r) :
    ((resolve base roles).get n).AtMost ((resolve base others).get n) := by
  obtain ⟨r, leads, e⟩ := mem_counted.mp (resolve_greatest finite some valid n).1
  have some' : others ≠ [] := List.ne_nil_of_mem (more r leads).1
  exact (resolve_greatest finite some' valid' n).2 _ (mem_counted.mpr ⟨r, more r leads, e⟩)

/-- Roles without a value of their own leave the base value as it is. -/
theorem get_resolve_of_inherits (finite : base.rateLimitFactor.isFinite = true)
    (inherits : ∀ r ∈ roles, (r.effective n).useDefault = true ∨ (r.effective n).value = none) :
    (resolve base roles).get n = base.get n := by
  by_cases none : roles = []
  · rw [none]
    rfl
  · have same (v : PolicyValue) (hv : v ∈ counted base roles n) : v = base.get n := by
      obtain ⟨r, leads, rfl⟩ := mem_counted.mp hv
      exact PolicyOverride.resolve_of_inherits (inherits r leads.1)
    rw [get_resolve base none n]
    exact same _ (merged_greatest (counted_ne_nil none) fun v hv => same v hv ▸ fits_get finite n).1

/-- The values of all policies depend on which roles there are, not on their order or number; the
multiplier may differ in the sign of a zero. Where every entry refers to the base value, or there is
none, the base value stays. -/
theorem resolve_unordered (base : PolicyTable) (finite : base.rateLimitFactor.isFinite = true)
    (roles others : List PolicyOverrides) (valid : ∀ r ∈ roles, r.Valid)
    (same : ∀ r, r ∈ roles ↔ r ∈ others) :
    (∀ n, n ≠ .rateLimitFactor → (resolve base roles).get n = (resolve base others).get n) ∧
      ((resolve base roles).rateLimitFactor.isFinite = true ∧
        (resolve base others).rateLimitFactor.isFinite = true ∧
        (resolve base roles).rateLimitFactor.toRat = (resolve base others).rateLimitFactor.toRat) ∧
      ∀ (held : List PolicyOverrides) (n : PolicyName),
        (∀ r ∈ held, ∀ e, r.entry n = some e → e.useDefault = true) →
          (resolve base held).get n = base.get n ∧
            (resolve base held).get n = (resolve base []).get n := by
  have valid' (r : PolicyOverrides) (hr : r ∈ others) : r.Valid := valid r ((same r).mpr hr)
  have leads (n : PolicyName) (r : PolicyOverrides) : Leads roles n r ↔ Leads others n r := by
    simp only [Leads, same]
  have each (n : PolicyName) : ((resolve base roles).get n).AtMost ((resolve base others).get n) ∧
      ((resolve base others).get n).AtMost ((resolve base roles).get n) := by
    have nil_iff : roles = [] ↔ others = [] := by
      simp only [List.eq_nil_iff_forall_not_mem, same]
    by_cases none : roles = []
    · rw [none, nil_iff.mp none]
      exact ⟨(fits_get finite n).atMost_self, (fits_get finite n).atMost_self⟩
    · have none' : others ≠ [] := mt nil_iff.mpr none
      exact ⟨resolve_atMost finite none valid valid' fun r => (leads n r).mp,
        resolve_atMost finite none' valid' valid fun r => (leads n r).mpr⟩
  refine ⟨fun n other => ?_, ?_, fun held n inherits => ?_⟩
  · exact PolicyValue.eq_of_atMost (each n).1 (each n).2 fun factor =>
      other (PolicyName.kind_eq_factor.mp ((kind_get _ n).symm.trans factor))
  · obtain ⟨⟨hx, hy, up⟩, -, -, down⟩ := each .rateLimitFactor
    exact ⟨hx, hy, le_antisymm up down⟩
  · have kept : (resolve base held).get n = base.get n :=
      get_resolve_of_inherits finite fun r hr => .inl (by
        unfold PolicyOverrides.effective
        cases hentry : r.entry n with
        | none => rfl
        | some e => exact inherits r hr e hentry)
    exact ⟨kept, kept⟩

/-- Two roles set the multiplier to zero, with either sign; a third one only switches invitations
on. The last of the two zeros is kept, so the signs differ. -/
theorem resolve_unordered_zeros :
    let saying (n : PolicyName) (value : PolicyValue) : PolicyOverrides :=
      PolicyOverrides.empty.put n ⟨false, .medium, some value⟩
    let below := saying .rateLimitFactor (.factor (Binary64.zero true))
    let above := saying .rateLimitFactor (.factor (Binary64.zero false))
    let inviting := saying .canInvite (.flag true)
    let roles := [below, inviting, above]
    let others := [above, above, inviting, below]
    (default.rateLimitFactor.isFinite = true ∧ (∀ r ∈ roles, r.Valid) ∧
      ∀ r, r ∈ roles ↔ r ∈ others) ∧
      (resolve default roles).rateLimitFactor ≠ (resolve default others).rateLimitFactor ∧
      (resolve default roles).rateLimitFactor.toRat =
        (resolve default others).rateLimitFactor.toRat ∧
      (resolve default roles).get .canInvite = (resolve default others).get .canInvite := by
  intro saying below above inviting roles others
  have valid : ∀ r ∈ roles, r.Valid := by
    simp only [roles, List.forall_mem_cons]
    exact ⟨PolicyOverrides.valid_single (by decide), PolicyOverrides.valid_single (by decide),
      PolicyOverrides.valid_single (by decide), by simp⟩
  have same (r : PolicyOverrides) : r ∈ roles ↔ r ∈ others := by
    simp only [roles, others, List.mem_cons, List.not_mem_nil, or_false]
    tauto
  obtain ⟨equal, ⟨-, -, factor⟩, -⟩ := resolve_unordered default rfl roles others valid same
  exact ⟨⟨rfl, valid, same⟩, by decide, factor, equal .canInvite (by decide)⟩

/-- A further role, wherever it stands among the others, leaves the value of a policy at least as
generous, if its entry has no higher priority than all theirs, or if there are no others and it has
no value of its own. -/
theorem resolve_grows (base : PolicyTable) (finite : base.rateLimitFactor.isFinite = true)
    (before after : List PolicyOverrides) (further : PolicyOverrides)
    (valid : ∀ r ∈ before ++ after, r.Valid) (validFurther : further.Valid) (n : PolicyName)
    (modest : (∃ r ∈ before ++ after,
        (further.effective n).priority.number ≤ (r.effective n).priority.number) ∨
      (before ++ after = [] ∧
        ((further.effective n).useDefault = true ∨ (further.effective n).value = none))) :
    ((resolve base (before ++ after)).get n).AtMost
      ((resolve base (before ++ further :: after)).get n) := by
  have mem (r : PolicyOverrides) :
      r ∈ before ++ further :: after ↔ r = further ∨ r ∈ before ++ after := by
    simp only [List.mem_append, List.mem_cons]
    tauto
  rcases modest with ⟨s, hs, below⟩ | ⟨none, inherits⟩
  · have valid' (r : PolicyOverrides) (hr : r ∈ before ++ further :: after) : r.Valid := by
      rcases (mem r).mp hr with rfl | hr
      · exact validFurther
      · exact valid r hr
    refine resolve_atMost finite (List.ne_nil_of_mem hs) valid valid' fun r leads => ?_
    obtain ⟨hr, highest⟩ := leads
    refine ⟨(mem r).mpr (.inr hr), fun t ht => ?_⟩
    rcases (mem t).mp ht with rfl | ht
    · exact Nat.le_trans below (highest s hs)
    · exact highest t ht
  · have kept : (resolve base (before ++ further :: after)).get n = base.get n := by
      refine get_resolve_of_inherits finite fun r hr => ?_
      rcases (mem r).mp hr with rfl | hr
      · exact inherits
      · simp [none] at hr
    rw [kept, none]
    exact (fits_get finite n).atMost_self

/-- Two roles halve and quarter the multiplier; a further one between them that says nothing brings
the base value back. -/
theorem resolve_grows_silent :
    let half : Binary64 := ⟨0x3FE0000000000000⟩
    let quarter : Binary64 := ⟨0x3FD0000000000000⟩
    let saying (x : Binary64) : PolicyOverrides :=
      PolicyOverrides.empty.put .rateLimitFactor ⟨false, .low, some (.factor x)⟩
    let silent := PolicyOverrides.empty
    (default.rateLimitFactor.isFinite = true ∧ (∀ r ∈ [saying half] ++ [saying quarter], r.Valid) ∧
      silent.Valid ∧ ∃ r ∈ [saying half] ++ [saying quarter],
        (silent.effective .rateLimitFactor).priority.number ≤
          (r.effective .rateLimitFactor).priority.number) ∧
      (resolve default ([saying half] ++ [saying quarter])).get .rateLimitFactor = .factor half ∧
      (resolve default ([saying half] ++ silent :: [saying quarter])).get .rateLimitFactor =
        .factor (Binary64.ofNat 1) ∧
      ((resolve default ([saying half] ++ [saying quarter])).get .rateLimitFactor).AtMost
        ((resolve default ([saying half] ++ silent :: [saying quarter])).get .rateLimitFactor) := by
  intro half quarter saying silent
  have valid : ∀ r ∈ [saying half] ++ [saying quarter], r.Valid := by
    simp only [List.cons_append, List.nil_append, List.forall_mem_cons]
    exact ⟨PolicyOverrides.valid_single (by decide), PolicyOverrides.valid_single (by decide),
      by simp⟩
  have modest : ∃ r ∈ [saying half] ++ [saying quarter],
      (silent.effective .rateLimitFactor).priority.number ≤
        (r.effective .rateLimitFactor).priority.number := ⟨saying half, by simp, Nat.le_refl 0⟩
  exact ⟨⟨rfl, valid, PolicyOverrides.valid_empty, modest⟩, by decide, by decide,
    resolve_grows default rfl [saying half] [saying quarter] silent valid
      PolicyOverrides.valid_empty .rateLimitFactor (.inl modest)⟩

end PolicyTable

end Entitlement
