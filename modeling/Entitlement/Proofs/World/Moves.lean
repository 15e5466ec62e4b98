import Mathlib.Logic.Relation
import Entitlement.Proofs.Store
import Entitlement.Proofs.World.Perform

/-!
# What requests do to a world

A request changes a world by moves. The moves that change roles or rows announce the
change at once; the others note the last use of a role, leave notes, or change the
cache of the party. The events announced so far are the history of a world, and what is
stored is known from it.
-/

set_option autoImplicit false

namespace Entitlement

def RoleEvent.ids : RoleEvent → List Uuid
  | .roleCreated role | .roleUpdated role | .roleDeleted role => [role.id.uuid]
  | .userRoleAssigned a | .userRoleUnassigned a => [a.id.uuid, a.roleId.uuid]

theorem RoleEvent.row_mem_ids (a : Assignment) : a.id.uuid ∈ (RoleEvent.userRoleAssigned a).ids :=
  List.mem_cons_self

namespace World

section

variable {κ : Type}

def Unused (w : World κ) (id : Uuid) : Prop := ∀ e ∈ w.effects.events, id ∉ e.ids

instance (w : World κ) (id : Uuid) : Decidable (w.Unused id) :=
  inferInstanceAs (Decidable (∀ e ∈ w.effects.events, id ∉ e.ids))

inductive Change (w : World κ) : RoleEvent → Store → Prop
  | created {role : Role} {s : Store} (fresh : w.Unused role.id.uuid)
      (ok : w.store.insertRole role = .ok s) : Change w (.roleCreated role) s
  | updated {before role : Role} {s : Store} (found : w.store.findRole role.id = some before)
      (later : before.updatedAt ≤ role.updatedAt) (ok : w.store.updateRole role = .ok s) :
      Change w (.roleUpdated role) s
  | deleted {role : Role} {s : Store} (found : w.store.findRole role.id = some role)
      (ok : w.store.deleteRole role.id = .ok s) : Change w (.roleDeleted role) s
  | assigned {a : Assignment} {s : Store} (fresh : w.Unused a.id.uuid)
      (hasRole : w.store.hasRole a.roleId = true) (ok : w.store.insertAssignment a = .ok s) :
      Change w (.userRoleAssigned a) s
  | unassigned {a : Assignment} (stored : a ∈ w.store.rows) :
      Change w (.userRoleUnassigned a) (w.store.deleteAssignment a.id).2

structure Sound (w : World κ) : Prop where
  store : w.store.Sound
  roles_known : ∀ role ∈ w.store.roles, ∃ e ∈ w.effects.events, role.id.uuid ∈ e.ids
  rows_known : ∀ a ∈ w.store.rows, .userRoleAssigned a ∈ w.effects.events
  granted_once : ∀ a b, .userRoleAssigned a ∈ w.effects.events →
    .userRoleAssigned b ∈ w.effects.events → a.id = b.id → a = b
  revoked_known : ∀ a, .userRoleUnassigned a ∈ w.effects.events →
    .userRoleAssigned a ∈ w.effects.events

variable {w v : World κ} {e : RoleEvent} {s : Store}

theorem sound_of_empty (hs : w.store = .empty) (he : w.effects.events = []) : w.Sound := by
  constructor <;> simp [hs, he, Store.empty_sound]
  all_goals simp [Store.empty]

theorem Sound.new_row (hw : w.Sound) {a : Assignment} (fresh : w.Unused a.id.uuid) :
    ∀ b ∈ w.store.rows, b.id ≠ a.id := fun b hb hid =>
  fresh _ (hw.rows_known b hb) (hid ▸ RoleEvent.row_mem_ids b)

theorem Change.sound_store (h : w.Change e s) (hw : w.Sound) : s.Sound := by
  cases h with
  | created fresh ok => exact Store.insertRole_sound hw.store ok
  | updated found later ok => exact Store.updateRole_sound hw.store ok
  | deleted found ok => exact Store.deleteRole_sound hw.store ok
  | unassigned stored => exact Store.deleteAssignment_sound hw.store _
  | assigned fresh hasRole ok =>
    exact Store.insertAssignment_sound hw.store (hw.new_row fresh) hasRole ok

theorem Change.roles_known (h : w.Change e s) (hw : w.Sound) (role : Role) (hr : role ∈ s.roles) :
    ∃ f ∈ w.effects.events ++ [e], role.id.uuid ∈ f.ids := by
  have old (r : Role) (hr : r ∈ w.store.roles) :
      ∃ f ∈ w.effects.events ++ [e], r.id.uuid ∈ f.ids := by
    obtain ⟨f, hf, hid⟩ := hw.roles_known r hr
    exact ⟨f, List.mem_append_left _ hf, hid⟩
  cases h with
  | @created role' s fresh ok =>
    obtain ⟨-, rfl⟩ := Store.insertRole_ok.mp ok
    rcases List.mem_append.mp hr with hr | hr
    · exact old role hr
    · rw [List.mem_singleton.mp hr]
      exact ⟨.roleCreated role', by simp, List.mem_singleton_self _⟩
  | @updated before role' s found later ok =>
    obtain ⟨-, rfl⟩ := Store.updateRole_ok.mp ok
    have hids : role.id ∈ (Store.modifyFirst role'.id (fun _ => role') w.store.roles).map (·.id) :=
      List.mem_map_of_mem hr
    rw [Store.map_modifyFirst _ _ _ fun r hr => hr.symm] at hids
    obtain ⟨r, hr, hid⟩ := List.mem_map.mp hids
    rw [← hid]
    exact old r hr
  | deleted found ok =>
    obtain ⟨-, rfl⟩ := Store.deleteRole_ok.mp ok
    exact old role (List.mem_of_mem_filter hr)
  | assigned fresh hasRole ok =>
    obtain ⟨-, rfl⟩ := (Store.insertAssignment_ok (hw.new_row fresh)).mp ok
    exact old role hr
  | unassigned stored => exact old role hr

theorem Change.rows_known (h : w.Change e s) (hw : w.Sound) (a : Assignment) (ha : a ∈ s.rows) :
    .userRoleAssigned a ∈ w.effects.events ++ [e] := by
  have old (a : Assignment) (ha : a ∈ w.store.rows) :
      .userRoleAssigned a ∈ w.effects.events ++ [e] :=
    List.mem_append_left _ (hw.rows_known a ha)
  cases h with
  | created fresh ok =>
    obtain ⟨-, rfl⟩ := Store.insertRole_ok.mp ok
    exact old a ha
  | updated found later ok =>
    obtain ⟨-, rfl⟩ := Store.updateRole_ok.mp ok
    exact old a ha
  | deleted found ok =>
    obtain ⟨-, rfl⟩ := Store.deleteRole_ok.mp ok
    exact old a (List.mem_of_mem_filter ha)
  | assigned fresh hasRole ok =>
    obtain ⟨-, rfl⟩ := (Store.insertAssignment_ok (hw.new_row fresh)).mp ok
    rcases List.mem_append.mp ha with ha | ha
    · exact old a ha
    · simp [List.mem_singleton.mp ha]
  | unassigned stored => exact old a (Store.mem_deleteAssignment.mp ha).1

theorem Change.granted_new (h : w.Change e s) {a b : Assignment} (he : e = .userRoleAssigned a)
    (hb : .userRoleAssigned b ∈ w.effects.events) : a.id ≠ b.id := by
  cases h with
  | assigned fresh hasRole ok =>
    obtain rfl := RoleEvent.userRoleAssigned.inj he
    intro hid
    exact fresh _ hb (hid ▸ RoleEvent.row_mem_ids b)
  | _ => simp at he

theorem Sound.of_change (hw : w.Sound) (h : w.Change e s) (hstore : v.store = s)
    (hevents : v.effects.events = w.effects.events ++ [e]) : v.Sound where
  store := hstore ▸ h.sound_store hw
  roles_known := by
    rw [hstore, hevents]
    exact h.roles_known hw
  rows_known := by
    rw [hstore, hevents]
    exact h.rows_known hw
  granted_once a b ha hb hid := by
    rw [hevents] at ha hb
    rcases List.mem_append.mp ha with ha | ha <;> rcases List.mem_append.mp hb with hb | hb
    · exact hw.granted_once a b ha hb hid
    · exact absurd hid.symm (h.granted_new (List.mem_singleton.mp hb).symm ha)
    · exact absurd hid (h.granted_new (List.mem_singleton.mp ha).symm hb)
    · exact RoleEvent.userRoleAssigned.inj ((List.mem_singleton.mp ha).trans
        (List.mem_singleton.mp hb).symm)
  revoked_known a ha := by
    rw [hevents] at ha ⊢
    rcases List.mem_append.mp ha with ha | ha
    · exact List.mem_append_left _ (hw.revoked_known a ha)
    · obtain rfl := List.mem_singleton.mp ha
      cases h with
      | unassigned stored => exact List.mem_append_left _ (hw.rows_known a stored)

theorem Sound.of_same (hw : w.Sound) (hstore : v.store = w.store)
    (hevents : v.effects.events = w.effects.events) : v.Sound where
  store := by rw [hstore]; exact hw.store
  roles_known := by rw [hstore, hevents]; exact hw.roles_known
  rows_known := by rw [hstore, hevents]; exact hw.rows_known
  granted_once := by rw [hevents]; exact hw.granted_once
  revoked_known := by rw [hevents]; exact hw.revoked_known

theorem Sound.touch (hw : w.Sound) (id : RoleId) (usedAt : Instant) :
    (w.setStore (w.store.touchRole id usedAt)).Sound where
  store := Store.touchRole_sound hw.store id usedAt
  roles_known role hr := by
    have hid : role.id ∈ w.store.roles.map (·.id) := by
      rw [← Store.map_modifyFirst (fun r => { r with lastUsedAt := usedAt }) _ _ fun _ _ => rfl]
      exact List.mem_map_of_mem hr
    obtain ⟨r, hr, hid⟩ := List.mem_map.mp hid
    rw [← hid]
    exact hw.roles_known r hr
  rows_known := hw.rows_known
  granted_once := hw.granted_once
  revoked_known := hw.revoked_known

end

variable {κ : Type} [DecidableEq κ]

/-- The last use that a record is announced with: a new role is used now, and a changed one
was last used when it was. -/
def Dated (w : World κ) : RoleEvent → Prop
  | .roleCreated role => role.lastUsedAt = w.now
  | .roleUpdated role =>
    ∃ before, w.store.findRole role.id = some before ∧ role.lastUsedAt = before.lastUsedAt
  | _ => True

inductive Move (k : κ) : World κ → World κ → Prop
  | announces {w : World κ} {e : RoleEvent} {s : Store} (change : w.Change e s)
      (dated : w.Dated e) : Move k w ((w.setStore s).announce k e)
  | touches {w : World κ} (id : RoleId) {usedAt : Instant} (now : usedAt = w.now) :
      Move k w (w.setStore (w.store.touchRole id usedAt))
  | notes {w v : World κ} (noted : Noted w v) : Move k w v
  | loadsRoles {w : World κ} (expiresAt : Moment) :
      Move k w (w.setCache k { w.caches k with
        roles.entry := some ⟨w.store.roles, expiresAt⟩ })
  | loadsRows {w : World κ} (user : UserId) (expiresAt : Moment) :
      Move k w (w.setCache k { w.caches k with
        lists.entries := UserLists.put user ⟨w.store.assignmentsOfUser user, expiresAt⟩
          (w.caches k).lists.entries })

abbrev Moves (k : κ) : World κ → World κ → Prop := Relation.ReflTransGen (Move k)

variable {k : κ} {w v : World κ}

theorem Move.sound (h : Move k w v) (hw : w.Sound) : v.Sound := by
  cases h with
  | announces change => exact hw.of_change change rfl rfl
  | @touches id usedAt now => exact hw.touch id usedAt
  | notes noted =>
    obtain ⟨effects, rfl, he⟩ := noted
    exact hw.of_same rfl he
  | loadsRoles expiresAt => exact hw.of_same rfl rfl
  | loadsRows user expiresAt => exact hw.of_same rfl rfl

theorem Move.failing (h : Move k w v) : v.failing = w.failing := by
  cases h with
  | notes noted =>
    obtain ⟨effects, rfl, -⟩ := noted
    rfl
  | _ => rfl

theorem Move.now (h : Move k w v) : v.now = w.now := by
  cases h with
  | notes noted =>
    obtain ⟨effects, rfl, -⟩ := noted
    rfl
  | _ => rfl

theorem Moves.now (h : Moves k w v) : v.now = w.now := by
  induction h with
  | refl => rfl
  | tail _ move ih => exact move.now.trans ih

theorem Moves.sound (h : Moves k w v) (hw : w.Sound) : v.Sound := by
  induction h with
  | refl => exact hw
  | tail _ move ih => exact move.sound ih

theorem Moves.reliable (h : Moves k w v) (hw : w.Reliable) : v.Reliable := by
  induction h with
  | refl => exact hw
  | tail _ move ih =>
    intro port hport
    rw [move.failing]
    exact ih port hport

end World

end Entitlement
