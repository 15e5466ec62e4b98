/-!
# Folds that keep the greater

Limits, multipliers, records and rows are each compared two at a time, and the one that is not less
is kept. A fold of such comparisons ends with a member that no other exceeds, whatever their order.
-/

set_option autoImplicit false

namespace Entitlement

/-- A fold that keeps one of two, and never the lesser one, ends with a member that no other
exceeds. -/
theorem foldl_greatest {α : Type} {good : α → Prop} {keep : α → α → α} (le : α → α → Prop)
    (refl : ∀ x, le x x) (trans : ∀ {x y z}, le x y → le y z → le x z)
    (kept : ∀ x y, good x → good y →
      (keep x y = x ∨ keep x y = y) ∧ le x (keep x y) ∧ le y (keep x y))
    (x : α) (rest : List α) (all : ∀ y ∈ x :: rest, good y) :
    rest.foldl keep x ∈ x :: rest ∧ ∀ y ∈ x :: rest, le y (rest.foldl keep x) := by
  induction rest generalizing x with
  | nil => exact ⟨List.mem_cons_self, by simpa using refl x⟩
  | cons y rest ih =>
    obtain ⟨hx, hy, hrest⟩ : good x ∧ good y ∧ ∀ z ∈ rest, good z := by simpa using all
    obtain ⟨either, left, right⟩ := kept x y hx hy
    have hkeep : good (keep x y) := by
      rcases either with e | e <;> rw [e] <;> assumption
    obtain ⟨mem, above⟩ := ih (keep x y) (List.forall_mem_cons.mpr ⟨hkeep, hrest⟩)
    have hkept := above (keep x y) List.mem_cons_self
    rw [List.foldl_cons]
    constructor
    · rcases List.mem_cons.mp mem with e | mem
      · rw [e]
        rcases either with e | e <;> simp [e]
      · exact List.mem_cons_of_mem _ (List.mem_cons_of_mem _ mem)
    · intro z hz
      rcases List.mem_cons.mp hz with rfl | hz
      · exact trans left hkept
      · rcases List.mem_cons.mp hz with rfl | hz
        · exact trans right hkept
        · exact above z (List.mem_cons_of_mem _ hz)

end Entitlement
