import Entitlement.Time.Instant

/-!
# The order of instants

Instants are ordered by their second and then by their nanoseconds.
-/

set_option autoImplicit false

namespace Entitlement

namespace Instant

variable {s t u : Instant}

theorem not_lt : ¬ s < t ↔ t ≤ s := by
  show ¬ (s.second < t.second ∨ (s.second = t.second ∧ s.nanos < t.nanos)) ↔
    (t.second < s.second ∨ (t.second = s.second ∧ t.nanos ≤ s.nanos))
  omega

theorem le_of_lt (h : s < t) : s ≤ t := by
  change s.second < t.second ∨ (s.second = t.second ∧ s.nanos < t.nanos) at h
  show s.second < t.second ∨ (s.second = t.second ∧ s.nanos ≤ t.nanos)
  omega

theorem le_refl (t : Instant) : t ≤ t := .inr ⟨rfl, Nat.le_refl _⟩

theorem lt_irrefl : ¬ t < t := not_lt.mpr (le_refl t)

theorem le_trans (h : s ≤ t) (k : t ≤ u) : s ≤ u := by
  change s.second < t.second ∨ (s.second = t.second ∧ s.nanos ≤ t.nanos) at h
  change t.second < u.second ∨ (t.second = u.second ∧ t.nanos ≤ u.nanos) at k
  show s.second < u.second ∨ (s.second = u.second ∧ s.nanos ≤ u.nanos)
  omega

theorem lt_of_le_of_lt (h : s ≤ t) (k : t < u) : s < u := by
  change s.second < t.second ∨ (s.second = t.second ∧ s.nanos ≤ t.nanos) at h
  change t.second < u.second ∨ (t.second = u.second ∧ t.nanos < u.nanos) at k
  show s.second < u.second ∨ (s.second = u.second ∧ s.nanos < u.nanos)
  omega

theorem lt_of_le_of_ne (h : s ≤ t) (k : s ≠ t) : s < t := by
  obtain ⟨a, m⟩ := s
  obtain ⟨b, n⟩ := t
  change a < b ∨ (a = b ∧ m ≤ n) at h
  show a < b ∨ (a = b ∧ m < n)
  have apart : ¬ (a = b ∧ m = n) := fun same => k (by rw [same.1, same.2])
  omega

theorem le_max_right (s t : Instant) : t ≤ max s t := by
  show t ≤ if s ≤ t then t else s
  split
  · exact le_refl t
  · next h =>
    change ¬ (s.second < t.second ∨ (s.second = t.second ∧ s.nanos ≤ t.nanos)) at h
    show t.second < s.second ∨ (t.second = s.second ∧ t.nanos ≤ s.nanos)
    omega

end Instant

end Entitlement
