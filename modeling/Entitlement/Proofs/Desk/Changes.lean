import Entitlement.Proofs.Desk.Form

/-!
# What an event makes of what was read

A change of the store is first written and later told to a cache. What was read meanwhile
may be of the store before the change or after it; in either case the event brings it to
the store as it is then. The rows that a role takes along when it is deleted are the only
ones of which no event tells.
-/

set_option autoImplicit false

namespace Entitlement

namespace RoleSnapshot

variable {role : Role} {roles stored : List Role} {e : RoleEvent}

theorem replaceOlder_eq_map (h : (roles.map (·.id)).Nodup) : replaceOlder role roles =
    roles.map fun r =>
      if r.id = role.id then (if role.updatedAt < r.updatedAt then r else role) else r := by
  induction roles with
  | nil => rfl
  | cons r rest ih =>
    rw [List.map_cons, List.nodup_cons] at h
    unfold replaceOlder
    by_cases hr : r.id = role.id
    · have others : rest.map (fun r =>
          if r.id = role.id then (if role.updatedAt < r.updatedAt then r else role) else r) =
          rest := by
        refine (List.map_congr_left fun x hx => if_neg fun hid => ?_).trans (List.map_id' _)
        exact h.1 (List.mem_map.mpr ⟨x, hx, hid.trans hr.symm⟩)
      rw [if_pos hr, List.map_cons, if_pos hr, others]
    · rw [if_neg hr, List.map_cons, if_neg hr, ih h.2]

theorem replaceOlder_self (h : (roles.map (·.id)).Nodup) (mem : role ∈ roles) :
    replaceOlder role roles = roles := by
  rw [replaceOlder_eq_map h]
  refine (List.map_congr_left fun r hr => ?_).trans (List.map_id' _)
  split
  · next hid =>
    obtain rfl := List.inj_on_of_nodup_map h hr mem hid
    exact ite_self r
  · rfl

theorem replaceOlder_eq_modifyFirst
    (later : ∀ r ∈ roles, r.id = role.id → r.updatedAt ≤ role.updatedAt) :
    replaceOlder role roles = Store.modifyFirst role.id (fun _ => role) roles := by
  induction roles with
  | nil => rfl
  | cons r rest ih =>
    unfold replaceOlder Store.modifyFirst
    by_cases hr : r.id = role.id
    · rw [if_pos hr, if_pos hr,
        if_neg (Instant.not_lt.mpr (later r List.mem_cons_self hr))]
    · rw [if_neg hr, if_neg hr, ih fun x hx => later x (List.mem_cons_of_mem _ hx)]

/-- The order of the records plays no part in a patch. -/
theorem patch_perm (h : (roles.map (·.id)).Nodup) (perm : roles.Perm stored) :
    (patch e roles).Perm (patch e stored) := by
  have hstored : (stored.map (·.id)).Nodup := (perm.map _).nodup_iff.mp h
  have replaced (role : Role) : (replaceOlder role roles).Perm (replaceOlder role stored) := by
    rw [replaceOlder_eq_map h, replaceOlder_eq_map hstored]
    exact perm.map _
  cases e with
  | roleCreated role =>
    have present : (roles.any fun r => r.id = role.id) = stored.any fun r => r.id = role.id :=
      perm.any_eq
    simp only [patch, present]
    split
    · exact replaced role
    · exact perm.append_right _
  | roleUpdated role => exact replaced role
  | roleDeleted role => exact perm.filter _
  | userRoleAssigned a => exact perm
  | userRoleUnassigned a => exact perm

end RoleSnapshot

namespace Store

/-- A change of the store, and the event that tells of it: a role is created, changed to a record
that is not older, or deleted with its rows; a row that was never stored is added for a free
pair, or a stored row is deleted. -/
inductive Writes (seen : List Assignment) (s : Store) : RoleEvent → Store → Prop
  | created {role : Role} {t : Store} (ok : s.insertRole role = .ok t) :
      Writes seen s (.roleCreated role) t
  | updated {before role : Role} {t : Store} (found : s.findRole role.id = some before)
      (later : before.updatedAt ≤ role.updatedAt) (ok : s.updateRole role = .ok t) :
      Writes seen s (.roleUpdated role) t
  | deleted {role : Role} {t : Store} (ok : s.deleteRole role.id = .ok t) :
      Writes seen s (.roleDeleted role) t
  | assigned {a : Assignment} {t : Store} (fresh : ∀ b ∈ seen, b.id ≠ a.id)
      (ok : s.insertAssignment a = .ok t) : Writes seen s (.userRoleAssigned a) t
  | unassigned {a : Assignment} (stored : a ∈ s.rows) :
      Writes seen s (.userRoleUnassigned a) (s.deleteAssignment a.id).2

def seenAfter : RoleEvent → List Assignment → List Assignment
  | .userRoleAssigned a, seen => a :: seen
  | _, seen => seen

def lostAfter (s : Store) : RoleEvent → List Assignment → List Assignment
  | .roleDeleted role, lost => s.rows.filter (fun a => a.roleId = role.id) ++ lost
  | _, lost => lost

structure Recorded (seen : List Assignment) (s : Store) : Prop where
  roles_nodup : (s.roles.map (·.id)).Nodup
  distinct : Distinct s.rows
  stored_seen : ∀ a ∈ s.rows, a ∈ seen
  seen_ids : ∀ a b, a ∈ seen → b ∈ seen → a.id = b.id → a = b

structure Lists (lost : List Assignment) (s : Store) (user : UserId) (rows : List Assignment) :
    Prop where
  listed : ∀ a, pair a ∉ lost.map pair → (a ∈ rows ↔ a ∈ s.rows ∧ a.userId = user)
  within : ∀ a ∈ rows, a ∈ s.rows ∨ a ∈ lost

structure Settles (seen : List Assignment) (lost : List Assignment) (old : Store)
    (e : RoleEvent) (new : Store) : Prop where
  row : ∀ a, e.row? = some a → a ∈ seen
  snapshot : ∀ roles : List Role, roles.Perm old.roles ∨ roles.Perm new.roles →
    (RoleSnapshot.patch e roles).Perm new.roles
  lists : ∀ user rows after, UserLists.Proper (· ∈ seen) user rows →
    Lists lost old user rows ∨ Lists lost new user rows →
    UserLists.Patched e user rows after → Lists lost new user after

variable {seen : List Assignment} {lost : List Assignment} {s t : Store} {e : RoleEvent}
  {user : UserId} {rows after : List Assignment} {a : Assignment}

theorem seen_subset (e : RoleEvent) (seen : List Assignment) : seen ⊆ seenAfter e seen := by
  cases e with
  | userRoleAssigned a => exact List.subset_cons_self a seen
  | _ => exact List.Subset.refl seen

theorem lost_subset (s : Store) (e : RoleEvent) (lost : List Assignment) :
    lost ⊆ s.lostAfter e lost := by
  cases e with
  | roleDeleted role => exact List.subset_append_right _ _
  | _ => exact List.Subset.refl lost

theorem Lists.mono {more : List Assignment} (h : Lists lost s user rows) (sub : lost ⊆ more) :
    Lists more s user rows where
  listed a kept := h.listed a fun gone => kept (List.map_subset pair sub gone)
  within a ha := (h.within a ha).imp_right (sub ·)

theorem Recorded.writes (h : s.Recorded seen) (change : s.Writes seen e t) :
    t.Recorded (seenAfter e seen) := by
  cases change with
  | @created role t ok =>
    obtain ⟨absent, rfl⟩ := insertRole_ok.mp ok
    have hne : ∀ r ∈ s.roles, r.id ≠ role.id := by simpa [hasRole] using absent
    exact ⟨Keyed.nodup_append_singleton _ h.roles_nodup hne, h.distinct, h.stored_seen, h.seen_ids⟩
  | updated found later ok =>
    obtain ⟨-, rfl⟩ := updateRole_ok.mp ok
    refine ⟨?_, h.distinct, h.stored_seen, h.seen_ids⟩
    rw [map_modifyFirst _ _ _ fun r hr => hr.symm]
    exact h.roles_nodup
  | deleted ok =>
    obtain ⟨-, rfl⟩ := deleteRole_ok.mp ok
    exact ⟨Keyed.nodup_filter _ h.roles_nodup _, h.distinct.filter _,
      fun a ha => h.stored_seen a (List.mem_of_mem_filter ha), h.seen_ids⟩
  | @assigned a t fresh ok =>
    have hnew : ∀ b ∈ s.rows, b.id ≠ a.id := fun b hb => fresh b (h.stored_seen b hb)
    obtain ⟨free, rfl⟩ := (insertAssignment_ok hnew).mp ok
    refine ⟨h.roles_nodup, h.distinct.append hnew (findAssignment_none.mp free), fun b hb => ?_,
      fun b c hb hc hid => ?_⟩
    · rcases List.mem_append.mp hb with hb | hb
      · exact List.mem_cons_of_mem _ (h.stored_seen b hb)
      · exact List.mem_singleton.mp hb ▸ List.mem_cons_self
    · rcases List.mem_cons.mp hb with eb | hb' <;> rcases List.mem_cons.mp hc with ec | hc'
      · rw [eb, ec]
      · exact absurd (eb ▸ hid.symm) (fresh c hc')
      · exact absurd (ec ▸ hid) (fresh b hb')
      · exact h.seen_ids b c hb' hc' hid
  | unassigned stored =>
    exact ⟨h.roles_nodup, h.distinct.filter _,
      fun a ha => h.stored_seen a (List.mem_of_mem_filter ha), h.seen_ids⟩

/-- An event makes the stored roles before its change those after it, and these it leaves alone. -/
theorem Writes.patch_roles (h : s.Recorded seen) (change : s.Writes seen e t) :
    RoleSnapshot.patch e s.roles = t.roles ∧ RoleSnapshot.patch e t.roles = t.roles := by
  have nodup := (h.writes change).roles_nodup
  cases change with
  | @created role t ok =>
    obtain ⟨absent, rfl⟩ := insertRole_ok.mp ok
    have present : ((s.roles ++ [role]).any fun r => r.id = role.id) = true := by simp
    constructor
    · exact if_neg (by rw [show (s.roles.any fun r => r.id = role.id) = false from absent]; simp)
    · exact (if_pos present).trans (RoleSnapshot.replaceOlder_self nodup (by simp))
  | @updated before role t found later ok =>
    obtain ⟨-, rfl⟩ := updateRole_ok.mp ok
    obtain ⟨x, -, -, mem⟩ := mem_modifyFirst (f := fun _ => role) (findRole_mem found)
      (findRole_id found)
    constructor
    · refine RoleSnapshot.replaceOlder_eq_modifyFirst fun r hr hid => ?_
      have same : r = before := List.inj_on_of_nodup_map h.roles_nodup hr (findRole_mem found)
        (hid.trans (findRole_id found).symm)
      exact same ▸ later
    · exact RoleSnapshot.replaceOlder_self nodup mem
  | deleted ok =>
    obtain ⟨-, rfl⟩ := deleteRole_ok.mp ok
    exact ⟨rfl, by simp [RoleSnapshot.patch]⟩
  | @assigned a t fresh ok =>
    obtain ⟨-, rfl⟩ := insertAssignment_iff.mp ok
    exact ⟨rfl, rfl⟩
  | unassigned stored => exact ⟨rfl, rfl⟩

/-- A change of a role touches no row but those that it loses. -/
theorem Writes.lists_of_role (change : s.Writes seen e t) (about : e.row? = none)
    (h : Lists (s.lostAfter e lost) s user rows) : Lists (s.lostAfter e lost) t user rows := by
  cases change with
  | created ok =>
    obtain ⟨-, rfl⟩ := insertRole_ok.mp ok
    exact ⟨h.listed, h.within⟩
  | updated found later ok =>
    obtain ⟨-, rfl⟩ := updateRole_ok.mp ok
    exact ⟨h.listed, h.within⟩
  | @deleted role t ok =>
    obtain ⟨-, rfl⟩ := deleteRole_ok.mp ok
    constructor
    case listed =>
      intro a kept
      have other (ha : a ∈ s.rows) : a.roleId ≠ role.id := fun hr => kept (List.mem_map_of_mem
        (List.mem_append_left _ (List.mem_filter.mpr ⟨ha, by simpa using hr⟩)))
      have same : a ∈ s.rows ↔ a ∈ s.rows.filter fun a => a.roleId ≠ role.id := by
        simpa using other
      exact (h.listed a kept).trans (and_congr_left fun _ => same)
    case within =>
      intro a ha
      rcases h.within a ha with stored | gone
      · by_cases hr : a.roleId = role.id
        · exact .inr (List.mem_append_left _ (List.mem_filter.mpr ⟨stored, by simpa using hr⟩))
        · exact .inl (List.mem_filter.mpr ⟨stored, by simpa using hr⟩)
      · exact .inr gone
  | assigned fresh ok => cases about
  | unassigned stored => cases about

/-- A list takes in a row that was added for a free pair of its user. -/
theorem lists_assigned (h : (⟨s.roles, s.rows ++ [a]⟩ : Store).Recorded (a :: seen))
    (free : s.findAssignment a.userId a.roleId = none)
    (proper : UserLists.Proper (· ∈ a :: seen) user rows)
    (read : Lists lost s user rows ∨ Lists lost ⟨s.roles, s.rows ++ [a]⟩ user rows)
    (patched : UserLists.Patched (.userRoleAssigned a) user rows after) :
    Lists lost ⟨s.roles, s.rows ++ [a]⟩ user after := by
  have others (x : Assignment) (kept : pair x ∉ lost.map pair) (hx : x ≠ a) :
      x ∈ rows ↔ x ∈ s.rows ∧ x.userId = user := by
    rcases read with read | read
    · exact read.listed x kept
    · rw [read.listed x kept, List.mem_append, List.mem_singleton, or_iff_left hx]
  have alone (x : Assignment) (kept : pair x ∉ lost.map pair) (hx : x ≠ a) (mem : x ∈ rows)
      (hu : a.userId = user) : x.roleId ≠ a.roleId := by
    obtain ⟨stored, hxu⟩ := (others x kept hx).mp mem
    exact findAssignment_none.mp free x stored (hxu.trans hu.symm)
  constructor
  case listed =>
    intro x kept
    rw [List.mem_append, List.mem_singleton]
    rcases patched with ⟨rfl, about⟩ | ⟨rfl, b, hb, foreign⟩
    · have hu : a.userId = user := about a rfl
      rw [UserLists.patch_assigned fun x hx e =>
        h.seen_ids x a (proper.known x hx) List.mem_cons_self e]
      by_cases hx : x = a
      · subst hx
        refine iff_of_true ?_ ⟨.inr rfl, hu⟩
        split
        · next shown =>
          rcases shown with mem | ⟨y, hy, hr, later⟩
          · exact mem
          · have hne : y ≠ x := fun e => Instant.lt_irrefl (e ▸ later)
            have same : pair y = pair x := by rw [pair, pair, proper.of_user y hy, hu, hr]
            exact absurd hr (alone y (same ▸ kept) hne hy hu)
        · simp
      · rw [or_iff_left hx, ← others x kept hx]
        split
        · rfl
        · rw [List.mem_append, List.mem_singleton, or_iff_left hx, List.mem_filter]
          exact and_iff_left_of_imp fun mem => by simpa using alone x kept hx mem hu
    · obtain rfl := Option.some.inj hb
      by_cases hx : x = a
      · subst hx
        exact iff_of_false (fun mem => foreign (proper.of_user x mem))
          fun stored => foreign stored.2
      · rw [or_iff_left hx]
        exact others x kept hx
  case within =>
    intro x hx
    rcases patched.mem hx with mem | new
    · rcases read with read | read
      · exact (read.within x mem).imp_left (List.mem_append_left _)
      · exact read.within x mem
    · obtain rfl := RoleEvent.userRoleAssigned.inj new
      exact .inl (List.mem_append_right _ (List.mem_singleton_self a))

/-- A list drops a row of its user that was deleted. -/
theorem lists_unassigned (h : s.Recorded seen) (stored : a ∈ s.rows)
    (proper : UserLists.Proper (· ∈ seen) user rows)
    (read : Lists lost s user rows ∨ Lists lost (s.deleteAssignment a.id).2 user rows)
    (patched : UserLists.Patched (.userRoleUnassigned a) user rows after) :
    Lists lost (s.deleteAssignment a.id).2 user after := by
  have within (x : Assignment) (hx : x ∈ rows) (other : x ∈ s.rows → x.id ≠ a.id) :
      x ∈ (s.deleteAssignment a.id).2.rows ∨ x ∈ lost := by
    rcases read with read | read
    · exact (read.within x hx).imp_left fun mem => mem_deleteAssignment.mpr ⟨mem, other mem⟩
    · exact read.within x hx
  constructor
  case listed =>
    intro x kept
    rw [mem_deleteAssignment]
    rcases patched with ⟨rfl, -⟩ | ⟨rfl, b, hb, foreign⟩
    · have hpatch : x ∈ UserLists.patch (.userRoleUnassigned a) rows ↔ x ∈ rows ∧ x.id ≠ a.id := by
        simp [UserLists.patch]
      rw [hpatch]
      rcases read with read | read
      · rw [read.listed x kept, and_right_comm]
      · rw [read.listed x kept, mem_deleteAssignment]
        tauto
    · obtain rfl := Option.some.inj hb
      rcases read with read | read
      · rw [read.listed x kept]
        refine and_congr_left fun hu => (and_iff_left_of_imp fun mem hid => ?_).symm
        exact foreign (h.distinct.row_of_id mem stored hid ▸ hu)
      · rw [read.listed x kept, mem_deleteAssignment]
  case within =>
    intro x hx
    rcases patched with ⟨rfl, -⟩ | ⟨rfl, b, hb, foreign⟩
    · have hx : x ∈ rows ∧ x.id ≠ a.id := by simpa [UserLists.patch] using hx
      exact within x hx.1 fun _ => hx.2
    · obtain rfl := Option.some.inj hb
      exact within x hx fun mem hid =>
        foreign (h.distinct.row_of_id mem stored hid ▸ proper.of_user x hx)

/-- The event of a change settles what was read before or after it. -/
theorem Writes.settles (h : s.Recorded seen) (change : s.Writes seen e t)
    (lost : List Assignment) :
    Settles (seenAfter e seen) (s.lostAfter e lost) s e t where
  row a ha := by
    cases change with
    | assigned fresh ok =>
      obtain rfl := Option.some.inj ha
      exact List.mem_cons_self
    | unassigned stored =>
      obtain rfl := Option.some.inj ha
      exact h.stored_seen _ stored
    | _ => cases ha
  snapshot roles read := by
    obtain ⟨before, after⟩ := change.patch_roles h
    have nodup := (h.writes change).roles_nodup
    rcases read with read | read
    · have := RoleSnapshot.patch_perm (e := e) ((read.map _).nodup_iff.mpr h.roles_nodup) read
      rwa [before] at this
    · have := RoleSnapshot.patch_perm (e := e) ((read.map _).nodup_iff.mpr nodup) read
      rwa [after] at this
  lists user rows after proper read patched := by
    have recorded := h.writes change
    have of_role (about : e.row? = none) : Lists (s.lostAfter e lost) t user after := by
      rcases patched with ⟨rfl, -⟩ | ⟨-, a, ha, -⟩
      · have same : UserLists.patch e rows = rows := by
          cases e <;> first | rfl | cases about
        rw [same]
        exact read.elim (change.lists_of_role about) id
      · rw [about] at ha
        cases ha
    cases change with
    | @assigned a t fresh ok =>
      obtain ⟨free, rfl⟩ :=
        (insertAssignment_ok fun b hb => fresh b (h.stored_seen b hb)).mp ok
      exact lists_assigned recorded free proper read patched
    | unassigned stored => exact lists_unassigned h stored proper read patched
    | _ => exact of_role rfl

end Store

end Entitlement
