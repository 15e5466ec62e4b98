import Entitlement.Json.Decode
import Entitlement.Proofs.Json.Literal
import Entitlement.Proofs.Json.Quoted

/-!
# Reading trees back

The text of a tree is read to the same tree, except that what nests too deep becomes
illegible. So a tree is read back exactly if it is not too deep.
-/

set_option autoImplicit false

namespace Entitlement.Json

mutual

def Plain : Json → Prop
  | .int i => FitsWord i
  | .float x => Spells (layout.text x) (.float x)
  | .array items => PlainItems items
  | .object members => PlainMembers members
  | .illegible | .nameless | .broken => False
  | .null | .bool _ | .text _ => True

def PlainItems : List Json → Prop
  | [] => True
  | v :: rest => v.Plain ∧ PlainItems rest

def PlainMembers : List (String × Json) → Prop
  | [] => True
  | (_, v) :: rest => v.Plain ∧ PlainMembers rest

end

mutual

def cut : Json → Nat → Json
  | .array items, depth =>
    if depth = 0 then .illegible else .array (cutItems items (depth - 1))
  | .object members, depth =>
    if depth = 0 then .illegible else .object (cutMembers members (depth - 1))
  | j, _ => j

def cutItems : List Json → Nat → List Json
  | [], _ => []
  | v :: rest, depth => v.cut depth :: cutItems rest depth

def cutMembers : List (String × Json) → Nat → List (String × Json)
  | [], _ => []
  | (name, v) :: rest, depth => (name, v.cut depth) :: cutMembers rest depth

end

mutual

theorem Plain.legible : ∀ {j : Json}, j.Plain → j.legible = true
  | .null, _ | .bool _, _ | .int _, _ | .float _, _ | .text _, _ => rfl
  | .array items, h => show legibleItems items = true from PlainItems.legible h
  | .object members, h => show legibleMembers members = true from PlainMembers.legible h

theorem PlainItems.legible : ∀ {items : List Json}, PlainItems items → legibleItems items = true
  | [], _ => rfl
  | _ :: _, ⟨hv, hrest⟩ => Bool.and_eq_true_iff.mpr ⟨hv.legible, hrest.legible⟩

theorem PlainMembers.legible : ∀ {members : List (String × Json)}, PlainMembers members →
    legibleMembers members = true
  | [], _ => rfl
  | (_, _) :: _, ⟨hv, hrest⟩ => Bool.and_eq_true_iff.mpr ⟨hv.legible, hrest.legible⟩

end

theorem plainMembers_of_mem {members : List (String × Json)} (h : ∀ m ∈ members, m.2.Plain) :
    PlainMembers members := by
  induction members with
  | nil => trivial
  | cons m members ih => exact ⟨h m (by simp), ih fun m hm => h m (by simp [hm])⟩

theorem depthMembers_le {members : List (String × Json)} {d : Nat}
    (h : ∀ m ∈ members, m.2.depth ≤ d) : depthMembers members ≤ d := by
  induction members with
  | nil => exact Nat.zero_le d
  | cons m members ih =>
    exact Nat.max_le.mpr ⟨h m (by simp), ih fun m hm => h m (by simp [hm])⟩

mutual

/-- A tree that is cut is legible exactly if nothing was cut off. -/
theorem legible_cut : ∀ (j : Json) (d : Nat), j.legible = true →
    ((j.cut d).legible = true ↔ j.depth ≤ d)
  | .null, _, _ | .bool _, _, _ | .int _, _, _ | .float _, _, _ | .text _, _, _ => by
    simp [cut, depth, Json.legible]
  | .array items, d, h => by
    rw [cut, depth]
    split
    · simp [*, Json.legible]
    · rw [Json.legible, legibleItems_cut items (d - 1) h]
      omega
  | .object members, d, h => by
    rw [cut, depth]
    split
    · simp [*, Json.legible]
    · rw [Json.legible, legibleMembers_cut members (d - 1) h]
      omega

theorem legibleItems_cut : ∀ (items : List Json) (d : Nat), legibleItems items = true →
    (legibleItems (cutItems items d) = true ↔ depthItems items ≤ d)
  | [], _, _ => by simp [cutItems, depthItems, legibleItems]
  | v :: rest, d, h => by
    obtain ⟨hv, hrest⟩ := Bool.and_eq_true_iff.mp h
    simp [cutItems, depthItems, legibleItems, legible_cut v d hv, legibleItems_cut rest d hrest]

theorem legibleMembers_cut : ∀ (members : List (String × Json)) (d : Nat),
    legibleMembers members = true →
      (legibleMembers (cutMembers members d) = true ↔ depthMembers members ≤ d)
  | [], _, _ => by simp [cutMembers, depthMembers, legibleMembers]
  | (_, v) :: rest, d, h => by
    obtain ⟨hv, hrest⟩ := Bool.and_eq_true_iff.mp h
    simp [cutMembers, depthMembers, legibleMembers, legible_cut v d hv,
      legibleMembers_cut rest d hrest]

end

mutual

theorem cut_eq_self : ∀ (j : Json) (d : Nat), j.depth ≤ d → j.cut d = j
  | .null, _, _ | .bool _, _, _ | .int _, _, _ | .float _, _, _ | .text _, _, _
  | .illegible, _, _ | .nameless, _, _ | .broken, _, _ => rfl
  | .array items, d, h => by
    rw [depth] at h
    rw [cut, if_neg (by omega), cutItems_eq_self items (d - 1) (by omega)]
  | .object members, d, h => by
    rw [depth] at h
    rw [cut, if_neg (by omega), cutMembers_eq_self members (d - 1) (by omega)]

theorem cutItems_eq_self : ∀ (items : List Json) (d : Nat), depthItems items ≤ d →
    cutItems items d = items
  | [], _, _ => rfl
  | v :: rest, d, h => by
    obtain ⟨hv, hrest⟩ := Nat.max_le.mp h
    rw [cutItems, cut_eq_self v d hv, cutItems_eq_self rest d hrest]

theorem cutMembers_eq_self : ∀ (members : List (String × Json)) (d : Nat),
    depthMembers members ≤ d → cutMembers members d = members
  | [], _, _ => rfl
  | (_, v) :: rest, d, h => by
    obtain ⟨hv, hrest⟩ := Nat.max_le.mp h
    rw [cutMembers, cut_eq_self v d hv, cutMembers_eq_self rest d hrest]

end

mutual

theorem torn_cut : ∀ (j : Json) (d : Nat), j.legible = true → (j.cut d).torn = false
  | .null, _, _ | .bool _, _, _ | .int _, _, _ | .float _, _, _ | .text _, _, _ => rfl
  | .array items, d, h => by
    rw [cut]
    split
    · rfl
    · exact tornItems_cut items (d - 1) h
  | .object members, d, h => by
    rw [cut]
    split
    · rfl
    · exact tornMembers_cut members (d - 1) h

theorem tornItems_cut : ∀ (items : List Json) (d : Nat), legibleItems items = true →
    tornItems (cutItems items d) = false
  | [], _, _ => rfl
  | v :: rest, d, h => by
    obtain ⟨hv, hrest⟩ := Bool.and_eq_true_iff.mp h
    simp [cutItems, tornItems, torn_cut v d hv, tornItems_cut rest d hrest]

theorem tornMembers_cut : ∀ (members : List (String × Json)) (d : Nat),
    legibleMembers members = true → tornMembers (cutMembers members d) = false
  | [], _, _ => rfl
  | (_, v) :: rest, d, h => by
    obtain ⟨hv, hrest⟩ := Bool.and_eq_true_iff.mp h
    simp [cutMembers, tornMembers, torn_cut v d hv, tornMembers_cut rest d hrest]

end

theorem Spells.not_opener {cs : List Char} {j : Json} (h : Spells cs j) :
    ∃ c tail, cs = c :: tail ∧ isSpace c = false ∧ c ≠ 'n' ∧ c ≠ 't' ∧ c ≠ 'f' ∧ c ≠ '"' ∧
      c ≠ '[' ∧ c ≠ ']' ∧ c ≠ '\x7b' := by
  obtain ⟨c, tail, rfl, hc⟩ := h.head
  refine ⟨c, tail, rfl, ?_⟩
  rcases hc with rfl | hc
  · decide
  · refine ⟨?_, ?_, ?_, ?_, ?_, ?_, ?_, ?_⟩
    · simp only [isSpace, Bool.or_eq_false_iff, beq_eq_false_iff_ne]
      refine ⟨⟨⟨?_, ?_⟩, ?_⟩, ?_⟩ <;> (rintro rfl; cases hc)
    all_goals
      rintro rfl
      cases hc

theorem skipSpace_cons {c : Char} (h : isSpace c = false) (cs : List Char) :
    skipSpace (c :: cs) = c :: cs := by
  simp [skipSpace, h]

theorem readValue_spelled {cs rest : List Char} {j : Json} (h : Spells cs j) (closes : Closes rest)
    (fuel depth : Nat) : readValue (fuel + 1) depth (cs ++ rest) = (j, rest) := by
  obtain ⟨c, tail, rfl, space, hn, ht, hf, hq, hb, -, hc⟩ := h.not_opener
  obtain ⟨l, scanned, rfl⟩ := h
  have hscan := scanLiteral_append closes scanned
  rw [List.cons_append, List.nil_append] at hscan
  rw [List.cons_append, readValue, skipSpace_cons space]
  split <;> simp_all

/-- The text of a value does not look like the end of an array. -/
theorem print_head {j : Json} (h : j.Plain) :
    ∃ c tail, j.print = c :: tail ∧ isSpace c = false ∧ c ≠ ']' := by
  cases j with
  | null => exact ⟨_, _, rfl, by decide, by decide⟩
  | bool b => cases b <;> exact ⟨_, _, rfl, by decide, by decide⟩
  | int i =>
    obtain ⟨c, tail, hc, space, -, -, -, -, -, hend, -⟩ := (spells_int h).not_opener
    exact ⟨c, tail, hc, space, hend⟩
  | float x =>
    obtain ⟨c, tail, hc, space, -, -, -, -, -, hend, -⟩ := Spells.not_opener h
    exact ⟨c, tail, hc, space, hend⟩
  | text s => exact ⟨_, _, rfl, by decide, by decide⟩
  | array items => exact ⟨_, _, rfl, by decide, by decide⟩
  | object members => exact ⟨_, _, rfl, by decide, by decide⟩
  | illegible | nameless | broken => exact h.elim

theorem printItems_head {v : Json} (items : List Json) (h : v.Plain) :
    ∃ c tail, printItems (v :: items) = c :: tail ∧ isSpace c = false ∧ c ≠ ']' := by
  obtain ⟨c, tail, hc, space, hend⟩ := print_head h
  cases items with
  | nil => exact ⟨c, tail ++ [']'], by simp [printItems, hc], space, hend⟩
  | cons w items => exact ⟨c, tail ++ ',' :: printItems (w :: items), by simp [printItems, hc],
      space, hend⟩

theorem printMembers_head (name : String) (v : Json) (members : List (String × Json)) :
    ∃ tail, printMembers ((name, v) :: members) = '"' :: tail := by
  cases members with
  | nil => exact ⟨_, rfl⟩
  | cons m members => exact ⟨_, rfl⟩

theorem readValue_array {cs : List Char} {c : Char} (space : isSpace c = false) (hend : c ≠ ']')
    (fuel depth : Nat) : readValue (fuel + 1) depth ('[' :: c :: cs) =
      (enclosed depth (.array (readItems fuel (depth - 1) (c :: cs)).1),
        (readItems fuel (depth - 1) (c :: cs)).2) := by
  rw [readValue, skipSpace_cons (by decide)]
  simp only [skipSpace_cons space]
  split
  · simp_all
  · rfl

theorem readValue_object (cs : List Char) (fuel depth : Nat) :
    readValue (fuel + 1) depth ('\x7b' :: '"' :: cs) =
      (enclosed depth (.object (readMembers fuel (depth - 1) ('"' :: cs)).1),
        (readMembers fuel (depth - 1) ('"' :: cs)).2) := by
  rw [readValue, skipSpace_cons (by decide)]
  simp only [skipSpace_cons (show isSpace '"' = false by decide)]
  rfl

/-- A pair of brackets around what was read cuts it off where no level is left. -/
theorem enclosed_items {items : List Json} (h : legibleItems items = true) (depth : Nat) :
    enclosed depth (.array (cutItems items (depth - 1))) = (Json.array items).cut depth := by
  have htorn : torn (.array (cutItems items (depth - 1))) = false := tornItems_cut items _ h
  rw [enclosed, htorn, cut]
  rfl

theorem enclosed_members {members : List (String × Json)} (h : legibleMembers members = true)
    (depth : Nat) :
    enclosed depth (.object (cutMembers members (depth - 1))) =
      (Json.object members).cut depth := by
  have htorn : torn (.object (cutMembers members (depth - 1))) = false :=
    tornMembers_cut members _ h
  rw [enclosed, htorn, cut]
  rfl

mutual

/-- A value is read back from its text, cut at the depth that is left. -/
theorem readValue_print : ∀ (j : Json) (fuel depth : Nat) (rest : List Char), j.Plain →
    j.print.length ≤ fuel → Closes rest →
      readValue fuel depth (j.print ++ rest) = (j.cut depth, rest)
  | j, 0, _, _, h, hfuel, _ => by
    obtain ⟨c, tail, hc, -⟩ := print_head h
    simp [hc] at hfuel
  | .null, _ + 1, _, _, _, _, _ => by simp [print, readValue, skipSpace, isSpace, cut]
  | .bool true, _ + 1, _, _, _, _, _ => by simp [print, readValue, skipSpace, isSpace, cut]
  | .bool false, _ + 1, _, _, _, _, _ => by
    simp [print, readValue, skipSpace, isSpace, cut]
  | .int i, fuel + 1, depth, rest, h, _, closes =>
    readValue_spelled (spells_int h) closes fuel depth
  | .float x, fuel + 1, depth, rest, h, _, closes => readValue_spelled h closes fuel depth
  | .text s, _ + 1, _, _, _, _, _ => by
    simp [print, printText, readValue, skipSpace, isSpace, scanQuoted_text, cut]
  | .array [], _ + 1, _, _, _, _, _ => by
    simp [print, printItems, readValue, skipSpace, isSpace, enclosed, cut, cutItems, torn,
      tornItems]
  | .array (v :: items), fuel + 1, depth, rest, h, hfuel, _ => by
    have hitems := readItems_print (v :: items) fuel (depth - 1) rest (by simp) h
      (Nat.le_of_succ_le_succ hfuel)
    obtain ⟨c, tail, hc, space, hend⟩ := printItems_head items h.1
    rw [hc] at hitems
    rw [print, hc, List.cons_append, List.cons_append, readValue_array space hend,
      ← List.cons_append, hitems, enclosed_items h.legible]
  | .object [], _ + 1, _, _, _, _, _ => by
    simp [print, printMembers, readValue, skipSpace, isSpace, enclosed, cut, cutMembers, torn,
      tornMembers]
  | .object ((name, v) :: members), fuel + 1, depth, rest, h, hfuel, _ => by
    have hmembers := readMembers_print ((name, v) :: members) fuel (depth - 1) rest (by simp) h
      (Nat.le_of_succ_le_succ hfuel)
    obtain ⟨tail, hc⟩ := printMembers_head name v members
    rw [hc] at hmembers
    rw [print, hc, List.cons_append, List.cons_append, readValue_object, ← List.cons_append,
      hmembers, enclosed_members h.legible]

theorem readItems_print : ∀ (items : List Json) (fuel depth : Nat) (rest : List Char),
    items ≠ [] → PlainItems items → (printItems items).length ≤ fuel →
      readItems fuel depth (printItems items ++ rest) = (cutItems items depth, rest)
  | [], _, _, _, h, _, _ => absurd rfl h
  | v :: items, 0, _, _, _, h, hfuel => by
    obtain ⟨c, tail, hc, -⟩ := printItems_head items h.1
    simp [hc] at hfuel
  | [v], fuel + 1, depth, rest, _, ⟨hv, _⟩, hfuel => by
    have hread := readValue_print v fuel depth (']' :: rest) hv
      (by simpa [printItems] using hfuel) (.inr (.inl rfl))
    simp [printItems, readItems, hread, skipSpace, isSpace, cutItems]
  | v :: w :: items, fuel + 1, depth, rest, _, ⟨hv, hrest⟩, hfuel => by
    simp only [printItems, List.length_append, List.length_cons] at hfuel
    have hread := readValue_print v fuel depth (',' :: (printItems (w :: items) ++ rest)) hv
      (by omega) (.inl rfl)
    have hitems := readItems_print (w :: items) fuel depth rest (by simp) hrest (by omega)
    simp [printItems, readItems, hread, hitems, skipSpace, isSpace, cutItems]

theorem readMembers_print : ∀ (members : List (String × Json)) (fuel depth : Nat)
    (rest : List Char), members ≠ [] → PlainMembers members →
      (printMembers members).length ≤ fuel →
        readMembers fuel depth (printMembers members ++ rest) = (cutMembers members depth, rest)
  | [], _, _, _, h, _, _ => absurd rfl h
  | (name, v) :: members, 0, _, _, _, _, hfuel => by
    obtain ⟨tail, hc⟩ := printMembers_head name v members
    simp [hc] at hfuel
  | [(name, v)], fuel + 1, depth, rest, _, ⟨hv, _⟩, hfuel => by
    simp only [printMembers, printText, List.length_append, List.length_cons] at hfuel
    have hread := readValue_print v fuel depth ('\x7d' :: rest) hv
      (by omega) (.inr (.inr rfl))
    simp [printMembers, printText, readMembers, scanQuoted_text, hread, skipSpace, isSpace, member,
      cutMembers]
  | (name, v) :: m :: members, fuel + 1, depth, rest, _, ⟨hv, hrest⟩, hfuel => by
    simp only [printMembers, printText, List.length_append, List.length_cons] at hfuel
    have hread := readValue_print v fuel depth (',' :: (printMembers (m :: members) ++ rest)) hv
      (by omega) (.inl rfl)
    have hmembers := readMembers_print (m :: members) fuel depth rest (by simp) hrest (by omega)
    simp [printMembers, printText, readMembers, scanQuoted_text, hread, hmembers, skipSpace,
      isSpace, member, cutMembers]

end

/-- A text that was written is read to the end, and what nests too deep is illegible. -/
theorem read_print {j : Json} (h : j.Plain) : read j.print = (j.cut greatestDepth, []) := by
  have hread := readValue_print j (2 * j.print.length + 2) greatestDepth [] h (by omega) trivial
  rwa [List.append_nil] at hread

variable {α : Type}

theorem decode_toText {j : Json} (h : j.Plain) (decoder : Json → Decoded α) :
    Json.decode decoder j.toText = decoder (j.cut greatestDepth) := by
  rw [Json.decode, toText, String.toList_ofList, read_print h]
  dsimp only
  cases decoder (j.cut greatestDepth) <;> rfl

end Entitlement.Json
