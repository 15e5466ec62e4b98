import Mathlib.Data.List.Basic
import Entitlement.Cache
import Entitlement.Proofs.Instant

/-!
# News of one role and of one pair

What a cache shows of a role, or of a pair of user and role, is one record at most. An
event brings news of it; news that waits in a queue may be older than what is shown.
The relation `Leads` says when the waiting news leads from what is shown to what is
stored, whatever part of it the shown record already knows.
-/

set_option autoImplicit false

namespace Entitlement

def Role.definition (role : Role) : Role := { role with lastUsedAt := default }

inductive RoleNews where
  | created (role : Role)
  | updated (role : Role)
  | deleted
  deriving DecidableEq

namespace RoleNews

def record? : RoleNews → Option Role
  | .created role | .updated role => some role
  | .deleted => none

def apply : RoleNews → Option Role → Option Role
  | .created role, none => some role
  | .updated _, none => none
  | .created role, some r | .updated role, some r =>
    some (if role.updatedAt < r.updatedAt then r else role)
  | .deleted, _ => none

def Fits : RoleNews → Option Role → Prop
  | .created _, stored => stored = none
  | .updated role, stored => ∃ r, stored = some r ∧ r.updatedAt ≤ role.updatedAt
  | .deleted, stored => stored.isSome

/-- The waiting news ends in a stored record, none of it is newer, and what is not
shown is still to be created. -/
structure Reaches (shown : Option Role) (waiting : List RoleNews) (role : Role) : Prop where
  ends : (waiting = [] ∧ shown = some role) ∨
    ∃ n, waiting.getLast? = some n ∧ n.record? = some role
  kept : .deleted ∉ waiting
  shown_older : ∀ r, shown = some r → r.updatedAt ≤ role.updatedAt
  news_older : ∀ n ∈ waiting, ∀ r, n.record? = some r → r.updatedAt ≤ role.updatedAt
  begun : shown = none → ∃ r, .created r ∈ waiting

def Leads (shown : Option Role) (waiting : List RoleNews) : Option Role → Prop
  | none => (waiting = [] ∧ shown = none) ∨ waiting.getLast? = some .deleted
  | some role => Reaches shown waiting role

variable {shown stored : Option Role} {waiting : List RoleNews} {n : RoleNews} {role r : Role}

theorem apply_older (h : r.updatedAt ≤ role.updatedAt) (hn : n.record? = some role) :
    n.apply (some r) = some role := by
  cases n with
  | deleted => simp [record?] at hn
  | created x =>
    obtain rfl : x = role := by simpa [record?] using hn
    simp [apply, Instant.not_lt.mpr h]
  | updated x =>
    obtain rfl : x = role := by simpa [record?] using hn
    simp [apply, Instant.not_lt.mpr h]

/-- News shows the record it carries or leaves the one that was shown. -/
theorem apply_eq_some (h : n.apply shown = some r) : shown = some r ∨ n.record? = some r := by
  cases n with
  | deleted => simp [apply] at h
  | created x =>
    cases shown with
    | none => exact .inr h
    | some y =>
      simp only [apply] at h
      split at h
      · exact .inl h
      · exact .inr h
  | updated x =>
    cases shown with
    | none => simp [apply] at h
    | some y =>
      simp only [apply] at h
      split at h
      · exact .inl h
      · exact .inr h

theorem apply_eq_none (h : n.apply shown = none) :
    shown = none ∧ (∀ r, n ≠ .created r) ∨ n = .deleted := by
  cases n <;> cases shown <;> simp [apply] at h ⊢

theorem leads_settled (h : Leads shown [] stored) : shown = stored := by
  cases stored with
  | none =>
    rcases h with ⟨-, h⟩ | h
    · exact h
    · simp at h
  | some role =>
    rcases h.ends with ⟨-, h⟩ | ⟨n, h, -⟩
    · exact h
    · simp at h

theorem leads_self : Leads stored [] stored := by
  cases stored with
  | none => exact .inl ⟨rfl, rfl⟩
  | some role =>
    exact {
      ends := .inl ⟨rfl, rfl⟩
      kept := by simp
      shown_older := fun r hr => Option.some.inj hr ▸ Instant.le_refl _
      news_older := by simp
      begun := by simp }

/-- What is read from the store may be ahead of any news that waits. -/
theorem leads_load (h : Leads shown waiting stored) : Leads stored waiting stored := by
  cases stored with
  | none => exact h.imp_left fun h => ⟨h.1, rfl⟩
  | some role =>
    exact {
      ends := h.ends.imp_left fun h => ⟨h.1, rfl⟩
      kept := h.kept
      shown_older := fun r hr => by
        obtain rfl : role = r := by simpa using hr
        exact Instant.le_refl _
      news_older := h.news_older
      begun := fun hn => absurd hn (by simp) }

theorem leads_deliver (h : Leads shown (n :: waiting) stored) :
    Leads (n.apply shown) waiting stored := by
  cases stored with
  | none =>
    rcases h with ⟨h, -⟩ | h
    · simp at h
    · cases waiting with
      | nil =>
        obtain rfl : n = .deleted := by simpa using h
        exact .inl ⟨rfl, rfl⟩
      | cons m rest => exact .inr (by simpa using h)
  | some role =>
    have hn : n ≠ .deleted := fun e => h.kept (by simp [e])
    have holder (r : Role) (hr : n.apply shown = some r) : r.updatedAt ≤ role.updatedAt := by
      rcases apply_eq_some hr with hr | hr
      · exact h.shown_older r hr
      · exact h.news_older n (by simp) r hr
    have hbegun (hr : n.apply shown = none) : ∃ r, .created r ∈ waiting := by
      rcases apply_eq_none hr with ⟨hs, hc⟩ | hd
      · obtain ⟨r, hr⟩ := h.begun hs
        rcases List.mem_cons.mp hr with e | hr
        · exact absurd e.symm (hc r)
        · exact ⟨r, hr⟩
      · exact absurd hd hn
    refine ⟨?_, fun hd => h.kept (by simp [hd]), holder,
      fun m hm => h.news_older m (by simp [hm]), hbegun⟩
    rcases h.ends with ⟨h', -⟩ | ⟨m, hm, hr⟩
    · simp at h'
    · cases waiting with
      | cons m' rest => exact .inr ⟨m, by simpa using hm, hr⟩
      | nil =>
        obtain rfl : n = m := by simpa using hm
        cases hs : n.apply shown with
        | none => exact absurd (hbegun hs) (by simp)
        | some x =>
          refine .inl ⟨rfl, ?_⟩
          cases shown with
          | some y => rw [← hs, apply_older (h.shown_older y rfl) hr]
          | none =>
            rcases apply_eq_some hs with e | e
            · simp at e
            · rw [← e, hr]

/-- A change is announced: its news waits behind the rest, and is shown at once or not. -/
theorem leads_publish {after : Option Role} (h : Leads shown waiting stored) (fits : n.Fits stored)
    (fresh : ∀ r, n = .created r → waiting = []) (hs : after = shown ∨ after = n.apply shown) :
    Leads after (waiting ++ [n]) (n.apply stored) := by
  cases n with
  | deleted => exact .inr (by simp)
  | created x =>
    obtain rfl := fresh x rfl
    have hnone : stored = none := fits
    obtain rfl : shown = none := (leads_settled h).trans hnone
    subst hnone
    have hx (r : Role) (hr : after = some r) : r = x := by
      rcases hs with rfl | rfl
      · simp at hr
      · exact (Option.some.inj hr).symm
    exact {
      ends := .inr ⟨.created x, by simp, rfl⟩
      kept := by simp
      shown_older := fun r hr => hx r hr ▸ Instant.le_refl _
      news_older := by simp [record?, Instant.le_refl]
      begun := fun _ => ⟨x, by simp⟩ }
  | updated x =>
    obtain ⟨b, rfl, hb⟩ := fits
    rw [apply_older hb rfl]
    constructor
    · exact .inr ⟨.updated x, by simp, rfl⟩
    · simp [h.kept]
    · intro r hr
      rcases hs with rfl | rfl
      · exact Instant.le_trans (h.shown_older r hr) hb
      · rcases apply_eq_some hr with hr | hr
        · exact Instant.le_trans (h.shown_older r hr) hb
        · obtain rfl : x = r := by simpa [record?] using hr
          exact Instant.le_refl _
    · intro m hm r hr
      rcases List.mem_append.mp hm with hm | hm
      · exact Instant.le_trans (h.news_older m hm r hr) hb
      · obtain rfl := List.mem_singleton.mp hm
        obtain rfl : x = r := by simpa [record?] using hr
        exact Instant.le_refl _
    · intro hn
      have hshown : shown = none := by
        rcases hs with rfl | rfl
        · exact hn
        · rcases apply_eq_none hn with ⟨hn, -⟩ | hd
          · exact hn
          · simp at hd
      obtain ⟨r, hr⟩ := h.begun hshown
      exact ⟨r, List.mem_append_left _ hr⟩

end RoleNews

inductive RowNews where
  | granted (row : Assignment)
  | revoked (row : Assignment)
  deriving DecidableEq

namespace RowNews

def apply : RowNews → Option Assignment → Option Assignment
  | .granted a, none => some a
  | .granted a, some x => some (if x.id ≠ a.id ∧ a.createdAt < x.createdAt then x else a)
  | .revoked a, shown => shown.filter fun x => x.id ≠ a.id

def Fits : RowNews → Option Assignment → Prop
  | .granted _, stored => stored = none
  | .revoked a, stored => stored = some a

def Answered (stored : Option Assignment) : List RowNews → Prop
  | [] => True
  | .granted a :: rest => (stored ≠ some a → .revoked a ∈ rest) ∧ Answered stored rest
  | .revoked _ :: rest => Answered stored rest

structure Leads (shown : Option Assignment) (waiting : List RowNews)
    (stored : Option Assignment) : Prop where
  withdrawn : ∀ a, shown = some a → stored ≠ some a → .revoked a ∈ waiting
  answered : Answered stored waiting
  ends : ∀ a, stored = some a →
    (waiting = [] ∧ shown = some a) ∨ waiting.getLast? = some (.granted a)

variable {shown stored : Option Assignment} {waiting : List RowNews} {n : RowNews}
  {a b : Assignment}

theorem apply_eq_some (h : n.apply shown = some b) : shown = some b ∨ n = .granted b := by
  cases n with
  | revoked a => exact .inl (Option.eq_some_of_filter_eq_some h)
  | granted a =>
    cases shown with
    | none => exact .inr (congrArg _ (Option.some.inj h))
    | some x =>
      simp only [apply] at h
      split at h
      · exact .inl h
      · exact .inr (congrArg _ (Option.some.inj h))

theorem apply_revoked_eq_some (h : (revoked a).apply shown = some b) : shown = some b ∧ b ≠ a := by
  simp only [apply, Option.filter_eq_some_iff] at h
  constructor
  · exact h.1
  · rintro rfl
    simp at h

theorem answered_granted (h : Answered none waiting) :
    Answered (some a) (waiting ++ [.granted a]) := by
  induction waiting with
  | nil => exact ⟨fun hne => absurd rfl hne, trivial⟩
  | cons n rest ih =>
    cases n with
    | granted x => exact ⟨fun _ => List.mem_append_left _ (h.1 (by simp)), ih h.2⟩
    | revoked x => exact ih h

theorem answered_revoked (h : Answered (some a) waiting) :
    Answered none (waiting ++ [.revoked a]) := by
  induction waiting with
  | nil => exact trivial
  | cons n rest ih =>
    cases n with
    | revoked x => exact ih h
    | granted x =>
      refine ⟨fun _ => ?_, ih h.2⟩
      by_cases hx : x = a
      · simp [hx]
      · exact List.mem_append_left _ (h.1 fun e => hx (Option.some.inj e).symm)

theorem leads_settled (h : Leads shown [] stored) : shown = stored := by
  cases stored with
  | some a =>
    rcases h.ends a rfl with ⟨-, h⟩ | h
    · exact h
    · simp at h
  | none =>
    cases shown with
    | none => rfl
    | some a => exact absurd (h.withdrawn a rfl (by simp)) (by simp)

theorem leads_load (h : Leads shown waiting stored) : Leads stored waiting stored where
  withdrawn _ ha hne := absurd ha hne
  answered := h.answered
  ends a ha := (h.ends a ha).imp_left fun h => ⟨h.1, ha⟩

theorem leads_deliver (h : Leads shown (n :: waiting) stored) :
    Leads (n.apply shown) waiting stored := by
  have hold (b : Assignment) (hb : shown = some b) (hne : stored ≠ some b) (hn : n ≠ .revoked b) :
      .revoked b ∈ waiting := by
    rcases List.mem_cons.mp (h.withdrawn b hb hne) with e | hm
    · exact absurd e.symm hn
    · exact hm
  constructor
  · intro b hb hne
    cases n with
    | granted x =>
      rcases apply_eq_some hb with hs | e
      · exact hold b hs hne (by simp)
      · obtain rfl : x = b := by simpa using e
        exact h.answered.1 hne
    | revoked x =>
      obtain ⟨hs, hx⟩ := apply_revoked_eq_some hb
      exact hold b hs hne (by simpa using hx.symm)
  · cases n with
    | granted x => exact h.answered.2
    | revoked x => exact h.answered
  · intro a ha
    rcases h.ends a ha with ⟨h', -⟩ | hl
    · simp at h'
    · cases waiting with
      | cons m rest => exact .inr (by simpa using hl)
      | nil =>
        -- What is shown instead would have to be revoked by news that waits.
        obtain rfl : n = .granted a := by simpa using hl
        refine .inl ⟨rfl, ?_⟩
        cases shown with
        | none => rfl
        | some x =>
          simp only [apply]
          split
          · next hx =>
            refine absurd (h.withdrawn x rfl fun e => hx.1 ?_) (by simp)
            rw [Option.some.inj (ha.symm.trans e)]
          · rfl

theorem leads_publish {after : Option Assignment} (h : Leads shown waiting stored)
    (fits : n.Fits stored) (hs : after = shown ∨ after = n.apply shown) :
    Leads after (waiting ++ [n]) (n.apply stored) := by
  cases n with
  | granted a =>
    obtain rfl : stored = none := fits
    refine ⟨fun b hb hne => ?_, answered_granted h.answered, fun x hx => .inr ?_⟩
    · have hshown : shown = some b := by
        rcases hs with rfl | rfl
        · exact hb
        · rcases apply_eq_some hb with e | e
          · exact e
          · exact absurd (by simpa [apply] using e) hne
      exact List.mem_append_left _ (h.withdrawn b hshown (by simp))
    · obtain rfl : a = x := by simpa [apply] using hx
      simp
  | revoked a =>
    obtain rfl : stored = some a := fits
    have hgone : (revoked a).apply (some a) = none := by simp [apply]
    rw [hgone]
    refine ⟨fun b hb _ => ?_, answered_revoked h.answered, fun x hx => by simp at hx⟩
    by_cases hab : b = a
    · simp [hab]
    · have hshown : shown = some b := by
        rcases hs with rfl | rfl
        · exact hb
        · exact (apply_revoked_eq_some hb).1
      exact List.mem_append_left _ (h.withdrawn b hshown fun e => hab (Option.some.inj e).symm)

theorem leads_self : Leads stored [] stored :=
  ⟨fun _ ha hne => absurd ha hne, trivial, fun _ ha => .inl ⟨rfl, ha⟩⟩

end RowNews

end Entitlement
