import Entitlement.Proofs.Delivery.AnyOrder
import Entitlement.Proofs.Desk.Form
import Entitlement.Proofs.Entries

/-!
# An event heard again

An event that has just been applied changes nothing when it comes once more: what it brings is
there, or is refused for a record that is still there, and what it takes away is gone. This holds of
any lists, also of such in which an identifier or a role comes twice.
-/

set_option autoImplicit false

namespace Entitlement

variable {event : RoleEvent} {role : Role} {roles : List Role} {row : Assignment}
  {rows : List Assignment}

namespace RoleSnapshot

theorem replaceOlder_again :
    replaceOlder role (replaceOlder role roles) = replaceOlder role roles := by
  induction roles with
  | nil => rfl
  | cons r rest ih =>
    by_cases hr : r.id = role.id
    · by_cases hlt : role.updatedAt < r.updatedAt
      · simp [replaceOlder, hr, hlt]
      · simp [replaceOlder, hr, hlt]
    · simp [replaceOlder, hr, ih]

theorem replaceOlder_append (new : role.id ∉ roles.map (·.id)) :
    replaceOlder role (roles ++ [role]) = roles ++ [role] := by
  induction roles with
  | nil => simp [replaceOlder]
  | cons r rest ih =>
    obtain ⟨hr, hrest⟩ := not_or.mp (mt List.mem_cons.mpr new)
    rw [List.cons_append, replaceOlder, if_neg (Ne.symm hr), ih hrest]

theorem patch_created : patch (.roleCreated role) roles =
    if role.id ∈ roles.map (·.id) then replaceOlder role roles else roles ++ [role] := by
  have known : (roles.any fun r => r.id = role.id) = true ↔ role.id ∈ roles.map (·.id) := by simp
  by_cases h : role.id ∈ roles.map (·.id)
  · rw [if_pos h]
    exact if_pos (known.mpr h)
  · rw [if_neg h]
    exact if_neg (mt known.mp h)

theorem patch_again : patch event (patch event roles) = patch event roles := by
  cases event with
  | roleCreated role =>
    by_cases h : role.id ∈ roles.map (·.id)
    · have first : patch (.roleCreated role) roles = replaceOlder role roles := by
        rw [patch_created, if_pos h]
      rw [first, patch_created, map_id_replaceOlder, if_pos h, replaceOlder_again]
    · have first : patch (.roleCreated role) roles = roles ++ [role] := by
        rw [patch_created, if_neg h]
      rw [first, patch_created, if_pos (by simp), replaceOlder_append h]
  | roleUpdated role => exact replaceOlder_again
  | roleDeleted role => simp [patch]
  | userRoleAssigned a => rfl
  | userRoleUnassigned a => rfl

end RoleSnapshot

namespace UserLists

theorem replaceSame_again : replaceSame row (replaceSame row rows) = replaceSame row rows := by
  induction rows with
  | nil => rfl
  | cons a rest ih =>
    by_cases ha : a.id = row.id
    · simp [replaceSame, ha]
    · simp [replaceSame, ha, ih]

theorem replaceSame_append (new : row.id ∉ rows.map (·.id)) :
    replaceSame row (rows ++ [row]) = rows ++ [row] := by
  induction rows with
  | nil => simp [replaceSame]
  | cons a rest ih =>
    obtain ⟨ha, hrest⟩ := not_or.mp (mt List.mem_cons.mpr new)
    rw [List.cons_append, replaceSame, if_neg (Ne.symm ha), ih hrest]

theorem patch_assigned_eq : patch (.userRoleAssigned row) rows =
    if row.id ∈ rows.map (·.id) then replaceSame row rows
    else if ∃ a ∈ rows, a.roleId = row.roleId ∧ row.createdAt < a.createdAt then rows
    else rows.filter (fun a => a.roleId ≠ row.roleId) ++ [row] := by
  have known : (rows.any fun a => a.id = row.id) = true ↔ row.id ∈ rows.map (·.id) := by simp
  have later : (rows.any fun a => a.roleId = row.roleId ∧ row.createdAt < a.createdAt) = true ↔
      ∃ a ∈ rows, a.roleId = row.roleId ∧ row.createdAt < a.createdAt := by simp
  simp only [patch, known, later]

theorem patch_again : patch event (patch event rows) = patch event rows := by
  cases event with
  | userRoleAssigned a =>
    by_cases known : a.id ∈ rows.map (·.id)
    · have first : patch (.userRoleAssigned a) rows = replaceSame a rows := by
        rw [patch_assigned_eq, if_pos known]
      rw [first, patch_assigned_eq, map_id_replaceSame, if_pos known, replaceSame_again]
    · by_cases later : ∃ x ∈ rows, x.roleId = a.roleId ∧ a.createdAt < x.createdAt
      · have first : patch (.userRoleAssigned a) rows = rows := by
          rw [patch_assigned_eq, if_neg known, if_pos later]
        rw [first, first]
      · have first : patch (.userRoleAssigned a) rows =
            rows.filter (fun x => x.roleId ≠ a.roleId) ++ [a] := by
          rw [patch_assigned_eq, if_neg known, if_neg later]
        have new : a.id ∉ (rows.filter fun x => x.roleId ≠ a.roleId).map (·.id) :=
          fun mem => known ((List.filter_sublist.map _).subset mem)
        rw [first, patch_assigned_eq, if_pos (by simp), replaceSame_append new]
  | userRoleUnassigned a => simp [patch]
  | roleCreated role => rfl
  | roleUpdated role => rfl
  | roleDeleted role => rfl

theorem told_again (user : UserId) :
    told user (told user rows event) event = told user rows event := by
  unfold told
  cases event.row? with
  | none => rfl
  | some a =>
    by_cases h : a.userId = user
    · simp only [if_pos h, patch_again]
    · simp only [if_neg h]

end UserLists

theorem Cache.hear_lookup (heard : List RoleEvent) (cache : Cache) (user : UserId) :
    (cache.hear heard).lists.entries.lookup user = (cache.lists.entries.lookup user).map fun c =>
      { c with value := heard.foldl (UserLists.told user) c.value } := by
  rw [hear_entries]
  exact lookup_map_snd (fun user c => { c with value := heard.foldl (UserLists.told user) c.value })
    user cache.lists.entries

def RoleEvent.Spares (e : RoleEvent) (cache after : Cache) : Prop :=
  match e.row? with
  | none => after.lists = cache.lists
  | some a => after.roles = cache.roles ∧
      ∀ user, user ≠ a.userId → after.lists.entries.lookup user = cache.lists.entries.lookup user

theorem Cache.apply_spares (cache : Cache) (e : RoleEvent) : e.Spares cache (cache.apply e) := by
  have about (a : Assignment) (ha : e.row? = some a) (user : UserId) (other : user ≠ a.userId) :
      (cache.apply e).lists.entries.lookup user = cache.lists.entries.lookup user := by
    have untouched (rows : List Assignment) : UserLists.told user rows e = rows := by
      simp [UserLists.told, ha, Ne.symm other]
    refine (cache.hear_lookup [e] user).trans ?_
    simp [untouched]
  cases e with
  | userRoleAssigned a => exact ⟨rfl, about a rfl⟩
  | userRoleUnassigned a => exact ⟨rfl, about a rfl⟩
  | roleCreated role => rfl
  | roleUpdated role => rfl
  | roleDeleted role => rfl

/-- An event that comes twice in a row leaves the snapshot and the lists as after the first time. It
changes only the half it is about, of the lists only that of its user, and no end of a lifetime. -/
theorem Cache.apply_again (cache : Cache) (e : RoleEvent) :
    (((cache.apply e).apply e).roles.entry = (cache.apply e).roles.entry ∧
      ((cache.apply e).apply e).lists.entries = (cache.apply e).lists.entries) ∧
      e.Spares cache (cache.apply e) ∧
      (cache.apply e).roles.entry.map (·.expiresAt) = cache.roles.entry.map (·.expiresAt) ∧
      (cache.apply e).lists.entries.map (fun entry => (entry.1, entry.2.expiresAt)) =
        cache.lists.entries.map fun entry => (entry.1, entry.2.expiresAt) := by
  refine ⟨⟨?_, ?_⟩, cache.apply_spares e, ?_, ?_⟩
  · simp only [apply_entry, Option.map_map, Function.comp_def, RoleSnapshot.patch_again]
  · simp only [apply_entries, List.map_map, Function.comp_def, UserLists.told_again]
  · simp only [apply_entry, Option.map_map, Function.comp_def]
  · simp only [apply_entries, List.map_map, Function.comp_def]

end Entitlement
