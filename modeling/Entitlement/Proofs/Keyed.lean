import Mathlib.Data.List.Nodup
import Mathlib.Data.List.Perm.Basic

/-!
# Lists with distinct keys

Roles, rows and cached records are looked up by a key that no two of them share. Such a
list is known by what is found in it.
-/

set_option autoImplicit false

namespace Entitlement.Keyed

variable {α κ : Type} (key : α → κ) {xs ys : List α} {k : κ} {a : α}

theorem nodup_append_singleton (h : (xs.map key).Nodup) (hne : ∀ x ∈ xs, key x ≠ key a) :
    ((xs ++ [a]).map key).Nodup := by
  rw [List.map_append, List.map_singleton, ← List.concat_eq_append]
  exact h.concat (by simpa using hne)

theorem nodup_filter (h : (xs.map key).Nodup) (p : α → Bool) : ((xs.filter p).map key).Nodup :=
  h.sublist (List.filter_sublist.map _)

variable [DecidableEq κ]

theorem find_iff (h : (xs.map key).Nodup) :
    xs.find? (fun x => key x = k) = some a ↔ a ∈ xs ∧ key a = k := by
  induction xs with
  | nil => simp
  | cons x rest ih =>
    rw [List.map_cons, List.nodup_cons] at h
    by_cases hk : key x = k
    · have hrest : ∀ b ∈ rest, key b ≠ k := by
        rintro b hb rfl
        exact h.1 (hk ▸ List.mem_map_of_mem hb)
      simp only [List.find?_cons, hk, decide_true, Option.some.injEq, List.mem_cons]
      constructor
      · rintro rfl
        exact ⟨.inl rfl, hk⟩
      · rintro ⟨rfl | ha, hka⟩
        · rfl
        · exact absurd hka (hrest a ha)
    · simp only [List.find?_cons, hk, decide_false, ih h.2, List.mem_cons]
      constructor
      · rintro ⟨ha, hka⟩
        exact ⟨.inr ha, hka⟩
      · rintro ⟨rfl | ha, hka⟩
        · exact absurd hka hk
        · exact ⟨ha, hka⟩

theorem find_filter_ne {j : κ} (h : k ≠ j) :
    (xs.filter fun x => key x ≠ j).find? (fun x => key x = k) = xs.find? fun x => key x = k := by
  induction xs with
  | nil => rfl
  | cons x rest ih =>
    by_cases hj : key x = j
    · have hk : key x ≠ k := fun e => h (e.symm.trans hj)
      rw [List.filter_cons_of_neg (by simpa using hj),
        List.find?_cons_of_neg (by simpa using hk), ih]
    · rw [List.filter_cons_of_pos (by simpa using hj), List.find?_cons, List.find?_cons, ih]

/-- Two lists in which the same is found hold the same, and only these. -/
theorem perm_iff_find (hx : (xs.map key).Nodup) (hy : (ys.map key).Nodup) :
    xs.Perm ys ↔ ∀ k, xs.find? (fun x => key x = k) = ys.find? fun x => key x = k := by
  rw [List.perm_ext_iff_of_nodup hx.of_map hy.of_map]
  constructor
  · intro same k
    ext a
    rw [find_iff key hx, find_iff key hy, same]
  · intro same a
    calc a ∈ xs ↔ xs.find? (fun x => key x = key a) = some a := by simp [find_iff key hx]
      _ ↔ ys.find? (fun x => key x = key a) = some a := by rw [same]
      _ ↔ a ∈ ys := by simp [find_iff key hy]

end Entitlement.Keyed
