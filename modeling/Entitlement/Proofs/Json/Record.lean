import Entitlement.Json.Decode

/-!
# Records read back

The members of a record are judged one after the other before the record is made of
them. Where their names differ and all are known, the record is read exactly if it can
be made.
-/

set_option autoImplicit false

namespace Entitlement

namespace Decoded

variable {α β : Type}

@[simp]
theorem ok_bind (a : α) (f : α → Decoded β) : ((.ok a : Decoded α) >>= f) = f a := rfl

@[simp]
theorem error_bind (e : Unreadable) (f : α → Decoded β) :
    ((.error e : Decoded α) >>= f) = .error e := rfl

@[simp]
theorem map_ok (f : α → β) (a : α) : f <$> (.ok a : Decoded α) = .ok (f a) := rfl

@[simp]
theorem map_error (f : α → β) (e : Unreadable) : f <$> (.error e : Decoded α) = .error e := rfl

theorem bind_eq_ok {x : Decoded α} {f : α → Decoded β} {b : β} :
    x >>= f = .ok b ↔ ∃ a, x = .ok a ∧ f a = .ok b := by
  cases x <;> simp

theorem map_eq_ok {x : Decoded α} {f : α → β} {b : β} :
    f <$> x = .ok b ↔ ∃ a, x = .ok a ∧ f a = b := by
  cases x <;> simp

theorem ofOption_eq_ok {o : Option α} {a : α} : ofOption o = .ok a ↔ o = some a := by
  cases o <;> simp [ofOption]

theorem checked_eq_ok {x : Except Fault α} {a : α} : checked x = .ok a ↔ x = .ok a := by
  cases x <;> simp [checked]

end Decoded

namespace Shape

variable {α β : Type} {members : List (String × Json)}

def Judges (shape : Shape α) : Prop :=
  ∀ members a, shape.build members = .ok a → ∀ name check, (name, check) ∈ shape.fields →
    ∀ j, members.lookup name = some j → check j = .ok ()

@[simp]
theorem build_pure (a : α) : (pure a : Shape α).build members = .ok a := rfl

@[simp]
theorem build_seq (f : Shape (α → β)) (x : Shape α) :
    (f <*> x).build members = do return (← f.build members) (← x.build members) := rfl

@[simp]
theorem build_map (f : α → β) (x : Shape α) :
    (f <$> x).build members = f <$> x.build members := by
  show (pure f <*> x : Shape β).build members = _
  cases h : x.build members with
  | error e => rw [build_seq, build_pure, h]; rfl
  | ok a => rw [build_seq, build_pure, h]; rfl

theorem build_seq_eq_ok {f : Shape (α → β)} {x : Shape α} {b : β} :
    (f <*> x).build members = .ok b ↔
      ∃ g a, f.build members = .ok g ∧ x.build members = .ok a ∧ g a = b := by
  rw [build_seq]
  cases f.build members <;> cases x.build members <;> simp

theorem build_map_eq_ok {f : α → β} {x : Shape α} {b : β} :
    (f <$> x).build members = .ok b ↔ ∃ a, x.build members = .ok a ∧ f a = b := by
  rw [build_map, Decoded.map_eq_ok]

@[simp]
theorem fields_seq (f : Shape (α → β)) (x : Shape α) :
    (f <*> x).fields = f.fields ++ x.fields := rfl

@[simp]
theorem fields_map (f : α → β) (x : Shape α) : (f <$> x).fields = x.fields := rfl

@[simp]
theorem fields_fieldOr (name : String) (absent : Decoded α) (read : Json → Decoded α) :
    (fieldOr name absent read).fields = [(name, fun j => do let _ ← read j)] := rfl

theorem build_fieldOr {name : String} {absent : Decoded α} {read : Json → Decoded α} {j : Json}
    (h : members.lookup name = some j) : (fieldOr name absent read).build members = read j := by
  simp only [fieldOr, h]

theorem judges_fieldOr (name : String) (absent : Decoded α) (read : Json → Decoded α) :
    (fieldOr name absent read).Judges := by
  intro members a built name' check hmem j hj
  obtain ⟨rfl, rfl⟩ := Prod.mk.inj (List.mem_singleton.mp hmem)
  rw [build_fieldOr hj] at built
  simp [built]

theorem Judges.seq {f : Shape (α → β)} {x : Shape α} (hf : f.Judges) (hx : x.Judges) :
    (f <*> x).Judges := by
  intro members b built name check hmem j hj
  obtain ⟨g, a, hg, ha, -⟩ := build_seq_eq_ok.mp built
  rcases List.mem_append.mp hmem with hmem | hmem
  · exact hf members g hg name check hmem j hj
  · exact hx members a ha name check hmem j hj

theorem Judges.map {x : Shape α} (h : x.Judges) (f : α → β) : (f <$> x).Judges := by
  intro members b built name check hmem j hj
  obtain ⟨a, ha, -⟩ := build_map_eq_ok.mp built
  exact h members a ha name check hmem j hj

def Completes (shape : Shape α) : Prop :=
  ∀ members, (∀ name check, (name, check) ∈ shape.fields →
    ∀ j, members.lookup name = some j → check j = .ok ()) → ∃ a, shape.build members = .ok a

theorem completes_fieldOr (name : String) (absent : α) (read : Json → Decoded α) :
    (fieldOr name (.ok absent) read).Completes := by
  intro members pass
  cases found : members.lookup name with
  | none => exact ⟨absent, by simp only [fieldOr, found]⟩
  | some j =>
    obtain ⟨a, ha, -⟩ := Decoded.bind_eq_ok.mp (pass name _ List.mem_cons_self j found)
    exact ⟨a, (build_fieldOr found).trans ha⟩

theorem Completes.seq {f : Shape (α → β)} {x : Shape α} (hf : f.Completes) (hx : x.Completes) :
    (f <*> x).Completes := by
  intro members pass
  obtain ⟨g, hg⟩ := hf members fun name check h => pass name check (List.mem_append_left _ h)
  obtain ⟨a, ha⟩ := hx members fun name check h => pass name check (List.mem_append_right _ h)
  exact ⟨g a, build_seq_eq_ok.mpr ⟨g, a, hg, ha, rfl⟩⟩

theorem Completes.map {x : Shape α} (h : x.Completes) (f : α → β) : (f <$> x).Completes := by
  intro members pass
  obtain ⟨a, ha⟩ := h members pass
  exact ⟨f a, build_map_eq_ok.mpr ⟨a, ha, rfl⟩⟩

theorem scan_ok {fields : List (String × (Json → Decoded Unit))} {seen : List String}
    (distinct : (members.map (·.1)).Nodup) (unseen : ∀ m ∈ members, m.1 ∉ seen)
    (pass : ∀ m ∈ members, ∃ check, fields.lookup m.1 = some check ∧ check m.2 = .ok ()) :
    scan fields seen members = .ok () := by
  induction members generalizing seen with
  | nil => rfl
  | cons m members ih =>
    obtain ⟨name, j⟩ := m
    obtain ⟨check, hlookup, hcheck⟩ := pass (name, j) (by simp)
    rw [List.map_cons, List.nodup_cons] at distinct
    rw [scan, hlookup]
    dsimp only at hcheck ⊢
    rw [if_neg (unseen (name, j) (by simp)), hcheck]
    refine ih distinct.2 (fun m hm => ?_) fun m hm => pass m (by simp [hm])
    rw [List.mem_cons, not_or]
    refine ⟨?_, unseen m (by simp [hm])⟩
    rintro rfl
    exact distinct.1 (List.mem_map.mpr ⟨m, hm, rfl⟩)

/-- Members that are known and pass the scan have different names and pass their checks. -/
theorem of_scan_ok {fields : List (String × (Json → Decoded Unit))} {seen : List String}
    (known : ∀ m ∈ members, ∃ check, fields.lookup m.1 = some check)
    (scanned : scan fields seen members = .ok ()) :
    (members.map (·.1)).Nodup ∧ (∀ m ∈ members, m.1 ∉ seen) ∧
      ∀ m ∈ members, ∀ check, fields.lookup m.1 = some check → check m.2 = .ok () := by
  induction members generalizing seen with
  | nil => simp
  | cons m members ih =>
    obtain ⟨name, j⟩ := m
    rw [List.forall_mem_cons] at known
    obtain ⟨⟨check, hlookup⟩, known⟩ := known
    rw [scan, hlookup] at scanned
    dsimp only at scanned hlookup
    split at scanned
    · cases scanned
    next fresh =>
      obtain ⟨_, passed, scanned⟩ := Decoded.bind_eq_ok.mp scanned
      obtain ⟨distinct, unseen, pass⟩ := ih known scanned
      rw [List.map_cons, List.nodup_cons, List.forall_mem_cons, List.forall_mem_cons]
      refine ⟨⟨fun again => ?_, distinct⟩,
        ⟨fresh, fun m hm => fun old => unseen m hm (List.mem_cons_of_mem _ old)⟩,
        fun check' h => ?_, pass⟩
      · obtain ⟨m, hm, same⟩ := List.mem_map.mp again
        exact unseen m hm (same ▸ List.mem_cons_self)
      · obtain rfl : check = check' := Option.some.inj (hlookup.symm.trans h)
        exact passed

theorem build_of_read {shape : Shape α} {a : α} (h : shape.read (.object members) = .ok a) :
    shape.build members = .ok a := by
  obtain ⟨_, -, built⟩ := Decoded.bind_eq_ok.mp h
  exact built

theorem exists_lookup {fields : List (String × (Json → Decoded Unit))} {name : String}
    (h : name ∈ fields.map (·.1)) :
    ∃ check, fields.lookup name = some check ∧ (name, check) ∈ fields := by
  induction fields with
  | nil => simp at h
  | cons f fields ih =>
    obtain ⟨known, check⟩ := f
    by_cases hname : name = known
    · subst hname
      exact ⟨check, by simp, by simp⟩
    · obtain ⟨check', hlookup, hmem⟩ := ih (by simpa [hname] using h)
      have hne : (name == known) = false := beq_false_of_ne hname
      exact ⟨check', by rw [List.lookup_cons, hne]; exact hlookup, List.mem_cons_of_mem _ hmem⟩

theorem lookup_of_mem {β : Type} {members : List (String × β)}
    (distinct : (members.map (·.1)).Nodup) {m : String × β} (h : m ∈ members) :
    members.lookup m.1 = some m.2 := by
  induction members with
  | nil => exact absurd h List.not_mem_nil
  | cons m' members ih =>
    rw [List.map_cons, List.nodup_cons] at distinct
    rcases List.mem_cons.mp h with rfl | h
    · exact List.lookup_cons_self
    · have hne : (m.1 == m'.1) = false :=
        beq_false_of_ne fun heq => distinct.1 (heq ▸ List.mem_map.mpr ⟨m, h, rfl⟩)
      rw [List.lookup_cons, hne]
      exact ih distinct.2 h

/-- A record is read if it can be made of members with distinct known names. -/
theorem read_of_build {shape : Shape α} {a : α} (judges : shape.Judges)
    (distinct : (members.map (·.1)).Nodup)
    (known : members.map (·.1) ⊆ shape.fields.map (·.1)) (built : shape.build members = .ok a) :
    shape.read (.object members) = .ok a := by
  have hscan : scan shape.fields [] members = .ok () := by
    apply scan_ok distinct (by simp)
    intro m hm
    obtain ⟨check, hlookup, hmem⟩ := exists_lookup (known (List.mem_map.mpr ⟨m, hm, rfl⟩))
    exact ⟨check, hlookup, judges members a built m.1 check hmem m.2 (lookup_of_mem distinct hm)⟩
  rw [read, hscan]
  exact built

end Shape

namespace Json

variable {α : Type} {held : Bool} {tag content s : String}
  {kinds : String → Option (Bool → Option Json → Decoded α)}
  {decode : Bool → Option Json → Decoded α}

@[simp]
theorem asUInt64_toNat (n : UInt64) : asUInt64 (.int n.toNat) = .ok n := by
  have h : 0 ≤ (n.toNat : Int) ∧ (n.toNat : Int) < UInt64.size :=
    ⟨Int.natCast_nonneg _, Int.ofNat_lt.mpr n.toNat_lt⟩
  rw [asUInt64, asBelow, if_pos h]
  simp

@[simp]
theorem asInt32_toInt (i : Int32) : asInt32 (.int i.toInt) = .ok i := by
  have h : Int32.minValue.toInt ≤ i.toInt ∧ i.toInt ≤ Int32.maxValue.toInt :=
    ⟨Int32.minValue_le_toInt i, Int32.toInt_le i⟩
  rw [asInt32, if_pos h, Int32.ofInt_toInt]

@[simp]
theorem asInt64_toInt (i : Int64) : asInt64 (.int i.toInt) = .ok i := by
  have h : Int64.minValue.toInt ≤ i.toInt ∧ i.toInt ≤ Int64.maxValue.toInt :=
    ⟨Int64.minValue_le_toInt i, Int64.toInt_le i⟩
  rw [asInt64, if_pos h, Int64.ofInt_toInt]

theorem asOption_of_ne_null {read : Json → Decoded α} {j : Json} (h : j ≠ .null) :
    asOption read j = some <$> read j := by
  unfold asOption
  split
  · exact absurd rfl h
  · rfl

theorem asSpelled_text {spelled : String → Option α} {a : α} (h : spelled s = some a) :
    asSpelled spelled (.text s) = .ok a := by
  simp [asSpelled, asText, h, Decoded.ofOption]

/-- A body behind its kind is decoded as the kind has it. -/
theorem asTagged_pair (differ : content ≠ tag) (known : kinds s = some decode) (j : Json) :
    asTagged held tag content kinds .neither [(tag, .text s), (content, j)] =
      decode false (some j) := by
  simp only [asTagged, asChoice, known, Decoded.ofOption, Decoded.ok_bind, if_true, if_neg differ]
  cases decode false (some j) <;> rfl

theorem asTagged_single (known : kinds s = some decode) :
    asTagged held tag content kinds .neither [(tag, .text s)] = decode false none := by
  simp only [asTagged, asChoice, known, Decoded.ofOption, Decoded.ok_bind, if_true]

end Json

end Entitlement
