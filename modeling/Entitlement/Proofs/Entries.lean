import Entitlement.Proofs.World.Reads

/-!
# Entries under keys

The lists of a cache stand under their users. What is found under a key of a list that was mapped,
filtered or added to is found without looking through it, as long as no key comes twice.
-/

set_option autoImplicit false

namespace Entitlement

section

variable {κ α β : Type} [BEq κ] [LawfulBEq κ]

theorem lookup_map_snd (f : κ → α → β) (k : κ) (entries : List (κ × α)) :
    (entries.map fun entry => (entry.1, f entry.1 entry.2)).lookup k =
      (entries.lookup k).map (f k) := by
  induction entries with
  | nil => rfl
  | cons entry rest ih =>
    obtain ⟨j, x⟩ := entry
    by_cases h : k = j
    · simp [h]
    · simp [List.lookup_cons, beq_false_of_ne h, ih]

/-- An entry that does not pass hides no other one under its key. -/
theorem lookup_filter_snd (p : α → Bool) (k : κ) {entries : List (κ × α)}
    (distinct : (entries.map (·.1)).Nodup) :
    (entries.filter fun entry => p entry.2).lookup k = (entries.lookup k).filter p := by
  induction entries with
  | nil => rfl
  | cons entry rest ih =>
    obtain ⟨j, x⟩ := entry
    obtain ⟨new, distinct⟩ := List.nodup_cons.mp distinct
    have rest := ih distinct
    by_cases h : k = j
    · subst h
      cases hx : p x with
      | true => simp [hx, Option.filter_some]
      | false =>
        have absent : List.lookup k _ = none :=
          List.lookup_eq_none_iff.mpr fun entry mem => by
            simpa using fun e : k = entry.1 => new (List.mem_map.mpr ⟨entry, mem, e.symm⟩)
        rw [List.filter_cons_of_neg (by simpa using hx), rest, absent]
        simp [Option.filter_some, hx]
    · cases hx : p x <;> simp [hx, List.lookup_cons, beq_false_of_ne h, rest]

theorem lookup_eq_some_iff_mem {k : κ} {x : α} {entries : List (κ × α)}
    (distinct : (entries.map (·.1)).Nodup) : entries.lookup k = some x ↔ (k, x) ∈ entries := by
  rw [List.lookup_eq_some_iff]
  constructor
  · rintro ⟨before, after, rfl, -⟩
    simp
  · intro mem
    obtain ⟨before, after, rfl⟩ := List.append_of_mem mem
    refine ⟨before, after, rfl, fun entry hentry => ?_⟩
    rw [List.map_append] at distinct
    have apart := (List.nodup_append.mp distinct).2.2
    exact bne_iff_ne.mpr (apart entry.1 (List.mem_map_of_mem hentry) k (by simp)).symm

end

namespace UserLists

variable {user u : UserId} {c : Cached (List Assignment)}
  {entries : List (UserId × Cached (List Assignment))}

theorem lookup_put : (put user c entries).lookup u =
    if u = user then some c else entries.lookup u := by
  induction entries with
  | nil => by_cases h : u = user <;> simp [put, List.lookup_cons, h, beq_false_of_ne]
  | cons entry rest ih =>
    obtain ⟨j, d⟩ := entry
    unfold put
    by_cases hj : j = user
    · subst hj
      by_cases h : u = j <;> simp [List.lookup_cons, h, beq_false_of_ne]
    · rw [if_neg hj, List.lookup_cons, List.lookup_cons, ih]
      by_cases h : u = user
      · have other : u ≠ j := fun e => hj (e.symm.trans h)
        simp [h, beq_false_of_ne (h ▸ other)]
      · simp [h]

theorem mem_keys_put (h : u ∈ (put user c entries).map (·.1)) :
    u = user ∨ u ∈ entries.map (·.1) := by
  obtain ⟨⟨v, d⟩, mem, rfl⟩ := List.mem_map.mp h
  exact (mem_of_mem_put mem).imp And.left fun mem => List.mem_map.mpr ⟨_, mem, rfl⟩

theorem nodup_put (h : (entries.map (·.1)).Nodup) : ((put user c entries).map (·.1)).Nodup := by
  induction entries with
  | nil => simp [put]
  | cons entry rest ih =>
    obtain ⟨new, distinct⟩ := List.nodup_cons.mp h
    unfold put
    split
    · next same => exact List.nodup_cons.mpr ⟨same ▸ new, distinct⟩
    · next other =>
      refine List.nodup_cons.mpr ⟨fun mem => ?_, ih distinct⟩
      exact (mem_keys_put mem).elim other new

end UserLists

end Entitlement
