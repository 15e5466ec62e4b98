import Entitlement.Proofs.Crowd.Steps

/-!
# What the store has held

A record or a row that the store gives out is there, and one that it takes in is there
afterwards. So all that a request was ever told by the store was held by it at some time.
-/

set_option autoImplicit false

namespace Entitlement

def Role.HeldIn (history : List Store) (role : Role) : Prop := ∃ s ∈ history, role ∈ s.roles

def Assignment.HeldIn (history : List Store) (a : Assignment) : Prop := ∃ s ∈ history, a ∈ s.rows

def RolesHeld (history : List Store) (roles : List Role) : Prop :=
  ∀ role ∈ roles, role.HeldIn history

def RowsHeld (history : List Store) (user : UserId) (rows : List Assignment) : Prop :=
  ∀ a ∈ rows, a.HeldIn history ∧ a.userId = user

def Exchange.StoredIn (history : List Store) : Exchange → Prop
  | ⟨.listRoles, .ok roles⟩ => RolesHeld history roles
  | ⟨.insertRole role, .ok ()⟩ => role.HeldIn history
  | ⟨.updateRole role, .ok ()⟩ => role.HeldIn history
  | ⟨.assignmentsOfUser user, .ok rows⟩ => RowsHeld history user rows
  | ⟨.findAssignment user role, .ok (some a)⟩ =>
    a.HeldIn history ∧ a.userId = user ∧ a.roleId = role
  | ⟨.insertAssignment a, .ok ()⟩ => a.HeldIn history
  | ⟨.expiredAssignments time _, .ok batch⟩ =>
    ∀ a ∈ batch, a.HeldIn history ∧ a.isExpiredAt time = true
  | _ => True

variable {history later : List Store} {role : Role} {a b : Assignment} {user : UserId}
  {roles : List Role} {rows : List Assignment} {x : Exchange} {s t : Store}

section

variable (more : history ⊆ later)

include more

theorem Role.HeldIn.mono (h : role.HeldIn history) : role.HeldIn later := by
  obtain ⟨s, hs, hr⟩ := h
  exact ⟨s, more hs, hr⟩

theorem Assignment.HeldIn.mono (h : a.HeldIn history) : a.HeldIn later := by
  obtain ⟨s, hs, ha⟩ := h
  exact ⟨s, more hs, ha⟩

theorem RolesHeld.mono (h : RolesHeld history roles) : RolesHeld later roles :=
  fun r hr => (h r hr).mono more

theorem RowsHeld.mono (h : RowsHeld history user rows) : RowsHeld later user rows :=
  fun a ha => (h a ha).imp_left (·.mono more)

theorem Exchange.StoredIn.mono (h : x.StoredIn history) : x.StoredIn later := by
  unfold Exchange.StoredIn at *
  split at h
  · exact h.mono more
  · exact h.mono more
  · exact h.mono more
  · exact h.mono more
  · exact ⟨h.1.mono more, h.2⟩
  · exact h.mono more
  · exact fun a ha => ⟨(h a ha).1.mono more, (h a ha).2⟩
  · trivial

end

namespace Exchange

theorem Fits.stored (fits : x.Fits s t) : x.StoredIn (t :: history) := by
  unfold StoredIn
  split
  · obtain ⟨rfl, rfl⟩ := fits
    exact fun r hr => ⟨_, List.mem_cons_self, hr⟩
  · next role =>
    obtain ⟨-, rfl⟩ := Store.insertRole_ok.mp fits
    exact ⟨_, List.mem_cons_self, by simp⟩
  · next role =>
    obtain ⟨hrole, rfl⟩ := Store.updateRole_ok.mp fits
    obtain ⟨r, hr, hid⟩ := Store.hasRole_iff.mp hrole
    obtain ⟨_, -, -, hmem⟩ := Store.mem_modifyFirst (f := fun _ => role) hr hid
    exact ⟨_, List.mem_cons_self, hmem⟩
  · obtain ⟨rfl, rfl⟩ := fits
    intro a ha
    obtain ⟨ha, hu⟩ := Store.mem_assignmentsOfUser.mp ha
    exact ⟨⟨_, List.mem_cons_self, ha⟩, hu⟩
  · obtain ⟨hfound, rfl⟩ := fits
    obtain ⟨ha, hu, hr⟩ := Store.findAssignment_mem hfound.symm
    exact ⟨⟨_, List.mem_cons_self, ha⟩, hu, hr⟩
  · obtain ⟨-, rfl⟩ := Store.insertAssignment_iff.mp fits
    exact ⟨_, List.mem_cons_self, by simp⟩
  · obtain ⟨rfl, rfl⟩ := fits
    exact fun a ha => ⟨⟨_, List.mem_cons_self, Store.mem_of_mem_expired ha⟩,
      Store.expired_of_mem_expired ha⟩
  · trivial

theorem Fits.hasRole {id : RoleId} (fits : x.Fits s t) (h : s.hasRole id = true) :
    t.hasRole id = true ∨ x = ⟨.deleteRole id, .ok ()⟩ := by
  unfold Fits at fits
  split at fits
  · exact .inl (fits.2 ▸ h)
  · exact .inl (fits.2 ▸ h)
  · obtain ⟨-, rfl⟩ := Store.insertRole_ok.mp fits
    obtain ⟨r, hr, hid⟩ := Store.hasRole_iff.mp h
    exact .inl (Store.hasRole_iff.mpr ⟨r, List.mem_append_left _ hr, hid⟩)
  · obtain ⟨-, rfl⟩ := Store.updateRole_ok.mp fits
    refine .inl ((Store.hasRole_of_map_id ?_ id).trans h)
    exact Store.map_modifyFirst _ _ _ fun r hr => hr.symm
  · next deleted =>
    obtain ⟨-, rfl⟩ := Store.deleteRole_ok.mp fits
    obtain ⟨r, hr, rfl⟩ := Store.hasRole_iff.mp h
    by_cases hid : r.id = deleted
    · exact .inr (hid ▸ rfl)
    · exact .inl (Store.hasRole_iff.mpr ⟨r, List.mem_filter.mpr ⟨hr, by simpa using hid⟩, rfl⟩)
  · refine .inl (fits ▸ (Store.hasRole_of_map_id ?_ id).trans h)
    exact Store.map_modifyFirst _ _ _ fun _ _ => rfl
  · exact .inl (fits.2 ▸ h)
  · exact .inl (fits.2 ▸ h)
  · obtain ⟨-, rfl⟩ := Store.insertAssignment_iff.mp fits
    exact .inl h
  · obtain ⟨-, rfl⟩ := Prod.mk.inj fits
    exact .inl h
  · exact .inl (fits.2 ▸ h)
  · exact .inl (fits ▸ h)

inductive Rewrites (s t : Store) : Exchange → Prop
  | keeps {x : Exchange} (same : t.rows = s.rows) : Rewrites s t x
  | inserts {a : Assignment} (free : s.findAssignment a.userId a.roleId = none)
      (rows : t.rows = s.rows.filter (fun b => b.id ≠ a.id) ++ [a]) :
      Rewrites s t ⟨.insertAssignment a, .ok ()⟩
  | removes {id : AssignmentId} {removed : Bool} (rows : t.rows = s.rows.filter fun b => b.id ≠ id) :
      Rewrites s t ⟨.deleteAssignment id, .ok removed⟩
  | drops {id : RoleId} (rows : t.rows = s.rows.filter fun b => b.roleId ≠ id) :
      Rewrites s t ⟨.deleteRole id, .ok ()⟩

theorem Fits.rewrites (fits : x.Fits s t) : x.Rewrites s t := by
  unfold Fits at fits
  split at fits
  · exact .keeps (fits.2 ▸ rfl)
  · exact .keeps (fits.2 ▸ rfl)
  · exact .keeps ((Store.insertRole_ok.mp fits).2 ▸ rfl)
  · exact .keeps ((Store.updateRole_ok.mp fits).2 ▸ rfl)
  · exact .drops ((Store.deleteRole_ok.mp fits).2 ▸ rfl)
  · exact .keeps (fits ▸ rfl)
  · exact .keeps (fits.2 ▸ rfl)
  · exact .keeps (fits.2 ▸ rfl)
  · obtain ⟨free, rfl⟩ := Store.insertAssignment_iff.mp fits
    exact .inserts free rfl
  · obtain ⟨-, rfl⟩ := Prod.mk.inj fits
    exact .removes rfl
  · exact .keeps (fits.2 ▸ rfl)
  · exact .keeps (fits ▸ rfl)

/-- A row that is there afterwards was there or has been put there. -/
theorem Rewrites.mem (h : x.Rewrites s t) (ha : a ∈ t.rows) :
    a ∈ s.rows ∨ x = ⟨.insertAssignment a, .ok ()⟩ := by
  cases h with
  | keeps same => exact .inl (same ▸ ha)
  | inserts free rows =>
    rw [rows] at ha
    rcases List.mem_append.mp ha with ha | ha
    · exact .inl (List.mem_of_mem_filter ha)
    · rw [List.mem_singleton.mp ha]
      exact .inr rfl
  | removes rows => exact .inl (List.mem_of_mem_filter (rows ▸ ha))
  | drops rows => exact .inl (List.mem_of_mem_filter (rows ▸ ha))

/-- A row that was there still is, unless it was replaced or removed, by itself or with its
role. -/
theorem Rewrites.mem_of_mem (h : x.Rewrites s t) (ha : a ∈ s.rows) :
    a ∈ t.rows ∨ (∃ b, b.id = a.id ∧ x = ⟨.insertAssignment b, .ok ()⟩) ∨
      (∃ removed, x = ⟨.deleteAssignment a.id, .ok removed⟩) ∨ x = ⟨.deleteRole a.roleId, .ok ()⟩ := by
  cases h with
  | keeps same => exact .inl (same ▸ ha)
  | @inserts b free rows =>
    by_cases hid : a.id = b.id
    · exact .inr (.inl ⟨b, hid.symm, rfl⟩)
    · exact .inl (by simp [rows, ha, hid])
  | @removes id removed rows =>
    by_cases hid : a.id = id
    · exact .inr (.inr (.inl ⟨removed, hid ▸ rfl⟩))
    · exact .inl (by simp [rows, ha, hid])
  | @drops id rows =>
    by_cases hid : a.roleId = id
    · exact .inr (.inr (.inr (hid ▸ rfl)))
    · exact .inl (by simp [rows, ha, hid])

theorem Rewrites.distinct (h : x.Rewrites s t) (hs : Store.Distinct s.rows) :
    Store.Distinct t.rows := by
  cases h with
  | keeps same => exact same ▸ hs
  | inserts free rows =>
    rw [rows]
    refine (hs.filter _).append (fun b hb => by simpa using (List.mem_filter.mp hb).2) fun b hb => ?_
    exact Store.findAssignment_none.mp free b (List.mem_of_mem_filter hb)
  | removes rows => exact rows ▸ hs.filter _
  | drops rows => exact rows ▸ hs.filter _

end Exchange

theorem World.answer_rewrites {κ : Type} [DecidableEq κ] (k : κ) (c : Call) (w : World κ) :
    Exchange.Rewrites w.store (answer k c w).2.store ⟨c, (answer k c w).1⟩ :=
  (answer_fits k c w).rewrites

namespace Crowd

variable {κ : Type} [DecidableEq κ] {terms : Terms κ} {s t : Crowd κ}

structure Stored (s : Crowd κ) : Prop where
  current : s.world.store ∈ s.history
  told : s.Told fun _ x => x.StoredIn s.history

section

variable {i : Nat} {party : κ} {q : Request} {log : Log} {c : Call}
  {next : c.Answer → Procedure (Except Fault q.Value)}

theorem history_grows : s.history ⊆ (s.answered i party q log c next).history :=
  List.subset_cons_self _ _

/-- A row that has been held by now was held before or has just been put there. -/
theorem Stored.held_of_answered (h : s.Stored)
    (ha : a.HeldIn (s.answered i party q log c next).history) : a.HeldIn s.history ∨
      (⟨c, (s.world.answer party c).1⟩ : Exchange) = ⟨.insertAssignment a, .ok ()⟩ := by
  obtain ⟨t, ht, ha⟩ := ha
  rcases List.mem_cons.mp ht with rfl | ht
  · exact ((World.answer_rewrites party c s.world).mem ha).imp_left fun ha => ⟨_, h.current, ha⟩
  · exact .inl ⟨t, ht, ha⟩

theorem Stored.answered (h : s.Stored)
    (running : s.threads[i]? = some ⟨party, q, log, .call c next⟩) :
    (s.answered i party q log c next).Stored where
  current := List.mem_cons_self
  told := h.told.answered running (fun _ _ hx => hx.mono history_grows)
    (World.answer_fits party c s.world).stored

end

theorem Step.stored (step : Step terms s t) (h : s.Stored) : t.Stored := by
  cases step with
  | accepts party admitted => exact ⟨h.current, h.told.accept party _⟩
  | proceeds running allowed => exact h.answered running
  | arrives party announced => exact ⟨h.current, h.told⟩
  | passes now moment nextId people instancePolicies failing feed => exact ⟨h.current, h.told⟩

theorem Runs.stored {w : World κ} {issued : List Uuid} (run : Runs terms (begin w issued) s) :
    s.Stored := by
  induction run with
  | refl => exact ⟨List.mem_cons_self, by simp [Told, begin]⟩
  | tail _ step ih => exact step.stored ih

end Crowd

end Entitlement
