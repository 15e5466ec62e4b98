import Mathlib.Data.Set.List
import Entitlement.Proofs.Greatest
import Entitlement.Proofs.Wire.Policy

/-!
# Policies of several roles

For each policy the entries of the highest priority among all roles count, a role that says
nothing having the inherited entry. Each of them stands for its own value or for the base value,
and the result is whether any is on, the greatest, or what is left when they are compared from
left to right. Valid overrides have values of the kind of their policy, so none is passed over.
-/

set_option autoImplicit false

namespace Entitlement

namespace PolicyValue

def kind : PolicyValue → PolicyKind
  | .flag _ => .flag
  | .limit _ => .limit
  | .factor _ => .factor

theorem kind_of_fit {kind : PolicyKind} {value fitted : PolicyValue}
    (h : value.fit? kind = some fitted) : fitted.kind = kind := by
  unfold fit? at h
  split at h
  · exact Option.some.inj h ▸ rfl
  · exact Option.some.inj h ▸ rfl
  · split at h
    · exact Option.some.inj h ▸ rfl
    · simp at h
  · split at h
    · exact Option.some.inj h ▸ rfl
    · simp at h
  · exact Option.some.inj h ▸ rfl
  · simp at h

end PolicyValue

theorem PolicyName.kind_eq_factor {n : PolicyName} : n.kind = .factor ↔ n = .rateLimitFactor := by
  cases n <;> simp [kind]

theorem PolicyOverrides.Valid.resolve_cases {overrides : PolicyOverrides} (h : overrides.Valid)
    (n : PolicyName) (base : PolicyValue) : (overrides.effective n).resolve base = base ∨
      ((overrides.effective n).resolve base).fit? n.kind =
        some ((overrides.effective n).resolve base) := by
  unfold effective
  cases hentry : overrides.entry n with
  | none => exact .inl rfl
  | some e =>
    show e.resolve base = base ∨ (e.resolve base).fit? n.kind = some (e.resolve base)
    unfold PolicyOverride.resolve
    split
    · next value hvalue =>
      split
      · exact .inl rfl
      · exact .inr (PolicyOverride.fit?_of_validatedFor (h n e hentry) hvalue)
    · exact .inl rfl

theorem PolicyOverrides.Valid.kind_resolve {overrides : PolicyOverrides} {n : PolicyName}
    {base : PolicyValue} (h : overrides.Valid) (hbase : base.kind = n.kind) :
    ((overrides.effective n).resolve base).kind = n.kind := by
  rcases h.resolve_cases n base with e | fits
  · rw [e, hbase]
  · exact PolicyValue.kind_of_fit fits

namespace PolicyTable

variable {table base : PolicyTable} {n m : PolicyName} {value : PolicyValue}

theorem kind_get (table : PolicyTable) (n : PolicyName) : (table.get n).kind = n.kind := by
  cases n <;> rfl

theorem isSome_writeFlag? (table : PolicyTable) (n : PolicyName) :
    (table.writeFlag? n).isSome = decide (n.kind = .flag) := by
  cases n <;> rfl

theorem isSome_writeLimit? (table : PolicyTable) (n : PolicyName) :
    (table.writeLimit? n).isSome = decide (n.kind = .limit) := by
  cases n <;> rfl

theorem get_writeFlag_self {write : Bool → PolicyTable} (h : table.writeFlag? n = some write)
    (b : Bool) : (write b).get n = .flag b := by
  cases n <;> cases h <;> rfl

theorem get_writeFlag_of_ne {write : Bool → PolicyTable} (h : table.writeFlag? n = some write)
    (b : Bool) (other : m ≠ n) : (write b).get m = table.get m := by
  cases n <;> cases h <;> cases m <;> first | rfl | exact absurd rfl other

theorem get_writeLimit_self {write : Int64 → PolicyTable} (h : table.writeLimit? n = some write)
    (i : Int64) : (write i).get n = .limit i := by
  cases n <;> cases h <;> rfl

theorem get_writeLimit_of_ne {write : Int64 → PolicyTable} (h : table.writeLimit? n = some write)
    (i : Int64) (other : m ≠ n) : (write i).get m = table.get m := by
  cases n <;> cases h <;> cases m <;> first | rfl | exact absurd rfl other

/-- Where the kind of a policy asks for a switch or a limit there is one to be written, so no value
of the kind is lost. -/
theorem get_store_self (h : value.kind = n.kind) : (table.store n value).get n = value := by
  unfold store
  cases value with
  | flag b =>
    have kind : n.kind = .flag := h.symm
    obtain ⟨write, hw⟩ : ∃ write, table.writeFlag? n = some write :=
      Option.isSome_iff_exists.mp ((isSome_writeFlag? table n).trans (decide_eq_true kind))
    simp only [kind, PolicyValue.asFlag?, hw]
    exact get_writeFlag_self hw b
  | limit i =>
    have kind : n.kind = .limit := h.symm
    obtain ⟨write, hw⟩ : ∃ write, table.writeLimit? n = some write :=
      Option.isSome_iff_exists.mp ((isSome_writeLimit? table n).trans (decide_eq_true kind))
    simp only [kind, PolicyValue.asLimit?, hw]
    exact get_writeLimit_self hw i
  | factor x =>
    obtain rfl := PolicyName.kind_eq_factor.mp h.symm
    rfl

theorem get_store_of_ne (table : PolicyTable) (value : PolicyValue) (other : m ≠ n) :
    (table.store n value).get m = table.get m := by
  unfold store
  cases kind : n.kind with
  | flag =>
    dsimp only
    split
    · next b write _ hw => exact get_writeFlag_of_ne hw b other
    · rfl
  | limit =>
    dsimp only
    split
    · next i write _ hw => exact get_writeLimit_of_ne hw i other
    · rfl
  | factor =>
    obtain rfl := PolicyName.kind_eq_factor.mp kind
    dsimp only
    split
    · cases m <;> first | rfl | exact absurd rfl other
    · rfl

/-- Storing a value for each of some policies is seen by looking them up, and by no other
look-up. -/
theorem get_foldl_store (values : PolicyName → PolicyValue) (kinds : ∀ n, (values n).kind = n.kind)
    (names : List PolicyName) (table : PolicyTable) (n : PolicyName) :
    (names.foldl (fun table m => table.store m (values m)) table).get n =
      if n ∈ names then values n else table.get n := by
  induction names generalizing table with
  | nil => simp
  | cons m names ih =>
    rw [List.foldl_cons, ih]
    by_cases hrest : n ∈ names
    · rw [if_pos hrest, if_pos (List.mem_cons_of_mem _ hrest)]
    · rw [if_neg hrest]
      by_cases hm : n = m
      · subst hm
        rw [get_store_self (kinds n), if_pos List.mem_cons_self]
      · rw [get_store_of_ne table (values m) hm, if_neg (by simp [hm, hrest])]

variable {entries : List PolicyOverride}

/-- The entries that count are those of the highest priority there is. -/
theorem selected_eq_filter (h : entries ≠ []) :
    ∃ top, (∃ e ∈ entries, e.priority = top) ∧
      (∀ e ∈ entries, e.priority.number ≤ top.number) ∧
      selected entries = entries.filter fun e => e.priority = top := by
  by_cases high : ∃ e ∈ entries, e.priority = .high
  · refine ⟨.high, high, fun e _ => ?_, ?_⟩
    · cases e.priority <;> decide
    · simp [selected, high]
  · by_cases medium : ∃ e ∈ entries, e.priority = .medium
    · refine ⟨.medium, medium, fun e he => ?_, ?_⟩
      · cases hp : e.priority with
        | high => exact absurd ⟨e, he, hp⟩ high
        | _ => decide
      · simp [selected, high, medium]
    · have low : ∀ e ∈ entries, e.priority = .low := by
        intro e he
        cases hp : e.priority with
        | low => rfl
        | medium => exact absurd ⟨e, he, hp⟩ medium
        | high => exact absurd ⟨e, he, hp⟩ high
      obtain ⟨e, he⟩ := List.exists_mem_of_ne_nil entries h
      refine ⟨.low, ⟨e, he, low e he⟩, fun e he => by rw [low e he], ?_⟩
      rw [List.filter_eq_self.mpr fun e he => by simp [low e he]]
      simp [selected, high, medium]

inductive Combines (n : PolicyName) : List PolicyValue → PolicyValue → Prop
  | anyOn (switch : n.kind = .flag) (flags : List Bool) :
      Combines n (flags.map .flag) (.flag (flags.any id))
  | greatest (number : n.kind = .limit) {limits : List Int64} {limit : Int64}
      (mem : limit ∈ limits) (le : ∀ i ∈ limits, i ≤ limit) :
      Combines n (limits.map .limit) (.limit limit)
  | reduced (multiplier : n.kind = .factor) (x : Binary64) (rest : List Binary64) :
      Combines n ((x :: rest).map .factor) (.factor (rest.foldl Binary64.maximum x))

theorem limit_max (i j : Int64) : (max i j = i ∨ max i j = j) ∧ i ≤ max i j ∧ j ≤ max i j := by
  have hmax : max i j = if i ≤ j then j else i := rfl
  rw [hmax]
  split
  · next le => exact ⟨.inr rfl, le, Int64.le_refl j⟩
  · next lt => exact ⟨.inl rfl, Int64.le_refl i, (Int64.le_total i j).resolve_left lt⟩

theorem greatestLimit?_eq {limits : List Int64} (h : limits ≠ []) :
    ∃ limit, greatestLimit? limits = some limit ∧ limit ∈ limits ∧ ∀ i ∈ limits, i ≤ limit := by
  obtain ⟨i, rest, rfl⟩ := List.exists_cons_of_ne_nil h
  exact ⟨rest.foldl max i, rfl, foldl_greatest (· ≤ ·) Int64.le_refl Int64.le_trans
    (fun i j _ _ => limit_max i j) i rest fun _ _ => trivial⟩

theorem exists_map {α : Type} (make : α → PolicyValue) {values : List PolicyValue}
    (h : ∀ v ∈ values, ∃ x, make x = v) : ∃ xs : List α, xs.map make = values := by
  have range : values ∈ Set.range (List.map make) := by
    rw [Set.range_list_map]
    exact h
  exact range

theorem merged_flag {values : List PolicyValue} {base : PolicyValue} (kind : n.kind = .flag) :
    merged n values base = .flag (values.any fun v => v.asFlag? == some true) := by
  simp only [merged, PolicyName.combinator, kind]

theorem merged_limit {values : List PolicyValue} {base : PolicyValue} (kind : n.kind = .limit) :
    merged n values base =
      ((greatestLimit? (values.filterMap (·.asLimit?))).map .limit).getD base := by
  simp only [merged, PolicyName.combinator, kind]

theorem merged_factor {values : List PolicyValue} {base : PolicyValue} (kind : n.kind = .factor) :
    merged n values base =
      ((greatestFactor? (values.filterMap (·.asFactor?))).map .factor).getD base := by
  simp only [merged, PolicyName.combinator, kind]

/-- No value of the right kind is passed over when values are merged. -/
theorem combines_merged {values : List PolicyValue} {base : PolicyValue} (h : values ≠ [])
    (kinds : ∀ v ∈ values, v.kind = n.kind) : Combines n values (merged n values base) := by
  cases kind : n.kind with
  | flag =>
    obtain ⟨flags, rfl⟩ := exists_map .flag fun v hv => by
      cases v with
      | flag b => exact ⟨b, rfl⟩
      | _ => cases (kinds _ hv).trans kind
    have any : (flags.map PolicyValue.flag).any (fun v => v.asFlag? == some true) =
        flags.any id := by
      rw [List.any_map]
      congr 1
      funext b
      cases b <;> rfl
    rw [merged_flag kind, any]
    exact .anyOn kind flags
  | limit =>
    obtain ⟨limits, rfl⟩ := exists_map .limit fun v hv => by
      cases v with
      | limit i => exact ⟨i, rfl⟩
      | _ => cases (kinds _ hv).trans kind
    have all : (limits.map PolicyValue.limit).filterMap (·.asLimit?) = limits := by
      rw [List.filterMap_map]
      exact List.filterMap_some
    have some : limits ≠ [] := by simpa using h
    obtain ⟨limit, hlimit, mem, le⟩ := greatestLimit?_eq some
    rw [merged_limit kind, all, hlimit]
    exact .greatest kind mem le
  | factor =>
    obtain ⟨factors, rfl⟩ := exists_map .factor fun v hv => by
      cases v with
      | factor x => exact ⟨x, rfl⟩
      | _ => cases (kinds _ hv).trans kind
    have all : (factors.map PolicyValue.factor).filterMap (·.asFactor?) = factors := by
      rw [List.filterMap_map]
      exact List.filterMap_some
    obtain ⟨x, rest, rfl⟩ := List.exists_cons_of_ne_nil (l := factors) (by simpa using h)
    rw [merged_factor kind, all]
    exact .reduced kind x rest

theorem kind_merged {values : List PolicyValue} (h : value.kind = n.kind) :
    (merged n values value).kind = n.kind := by
  cases kind : n.kind with
  | flag => rw [merged_flag kind, PolicyValue.kind]
  | limit =>
    rw [merged_limit kind]
    cases greatestLimit? (values.filterMap (·.asLimit?)) with
    | none => exact h.trans kind
    | some limit => rfl
  | factor =>
    rw [merged_factor kind]
    cases greatestFactor? (values.filterMap (·.asFactor?)) with
    | none => exact h.trans kind
    | some x => rfl

variable {roles : List PolicyOverrides}

theorem get_resolve (base : PolicyTable) (h : roles ≠ []) (n : PolicyName) :
    (resolve base roles).get n = resolveOne base roles n := by
  rw [resolve, if_neg (by simpa using h),
    get_foldl_store (resolveOne base roles) fun n => kind_merged (kind_get base n),
    if_pos (PolicyName.mem_all n)]

/-- The value of a policy for some roles: the base value if there are none; else what the values
of the entries of the highest priority combine to, where an entry stands for the base value if it
refers to it or has no value of its own. -/
theorem resolve_combines (base : PolicyTable) (roles : List PolicyOverrides)
    (valid : ∀ r ∈ roles, r.Valid) (n : PolicyName) :
    (roles = [] → (resolve base roles).get n = base.get n) ∧
      (roles ≠ [] → ∃ top : PolicyPriority,
        let entries := roles.map fun r => (r.entry n).getD ⟨true, .low, none⟩
        (∃ e ∈ entries, e.priority = top) ∧ (∀ e ∈ entries, e.priority.number ≤ top.number) ∧
          Combines n ((entries.filter fun e => e.priority = top).map fun e =>
            if e.useDefault then base.get n else e.value.getD (base.get n))
            ((resolve base roles).get n)) := by
  refine ⟨fun none => by rw [none]; rfl, fun some => ?_⟩
  have entries : (roles.map fun r => r.effective n) ≠ [] := by simpa using some
  obtain ⟨top, taken, above, counted⟩ := selected_eq_filter entries
  refine ⟨top, taken, above, ?_⟩
  have stands (e : PolicyOverride) : e.resolve (base.get n) =
      if e.useDefault then base.get n else e.value.getD (base.get n) := by
    unfold PolicyOverride.resolve
    cases e.value <;> simp
  rw [get_resolve base some n, resolveOne, counted, List.map_congr_left fun e _ => stands e]
  refine combines_merged ?_ fun v hv => ?_
  · obtain ⟨e, he, hp⟩ := taken
    exact List.ne_nil_of_mem (List.mem_map_of_mem (List.mem_filter.mpr ⟨he, by simpa using hp⟩))
  · obtain ⟨e, he, rfl⟩ := List.mem_map.mp hv
    obtain ⟨r, hr, rfl⟩ := List.mem_map.mp (List.mem_of_mem_filter he)
    rw [← stands]
    exact (valid r hr).kind_resolve (kind_get base n)

/-- Two roles speak of a limit with medium priority, one of them by referring to the base value; a
third one asks for more, but with low priority. -/
theorem resolve_combines_below :
    let policy : PolicyName := .pinLimit
    let saying (e : PolicyOverride) : PolicyOverrides := PolicyOverrides.empty.put policy e
    let roles := [saying ⟨false, .medium, some (.limit 7)⟩, saying ⟨true, .medium, none⟩,
      saying ⟨false, .low, some (.limit 100)⟩]
    ((∀ r ∈ roles, r.Valid) ∧ roles ≠ []) ∧ (resolve default roles).get policy = .limit 7 ∧
      ∃ top : PolicyPriority,
        let entries := roles.map fun r => (r.entry policy).getD ⟨true, .low, none⟩
        (∃ e ∈ entries, e.priority = top) ∧ (∀ e ∈ entries, e.priority.number ≤ top.number) ∧
          Combines policy ((entries.filter fun e => e.priority = top).map fun e =>
            if e.useDefault then default.get policy else e.value.getD (default.get policy))
            ((resolve default roles).get policy) := by
  intro policy saying roles
  have saying_valid (e : PolicyOverride) (h : e.validatedFor policy = .ok e) : (saying e).Valid :=
    PolicyOverrides.valid_empty.put h
  have valid : ∀ r ∈ roles, r.Valid := by
    simp only [roles, List.forall_mem_cons]
    exact ⟨saying_valid _ rfl, saying_valid _ rfl, saying_valid _ rfl, by simp⟩
  have some : roles ≠ [] := by simp [roles]
  exact ⟨⟨valid, some⟩, rfl, (resolve_combines default roles valid policy).2 some⟩

end PolicyTable

end Entitlement
