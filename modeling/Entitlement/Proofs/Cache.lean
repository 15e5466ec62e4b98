import Entitlement.Proofs.Keyed
import Entitlement.Proofs.News
import Entitlement.Proofs.Store

/-!
# Events and the two halves of a cache

What a snapshot shows of a role, and what a list shows of a role of its user, changes by
the news an event brings of them, and by nothing else. Snapshots keep one record for a
role and lists keep one row for a role.
-/

set_option autoImplicit false

namespace Entitlement

namespace RoleEvent

def newsOf (id : RoleId) : RoleEvent → Option RoleNews
  | .roleCreated role => if role.id = id then some (.created role.definition) else none
  | .roleUpdated role => if role.id = id then some (.updated role.definition) else none
  | .roleDeleted role => if role.id = id then some .deleted else none
  | _ => none

def row? : RoleEvent → Option Assignment
  | .userRoleAssigned a | .userRoleUnassigned a => some a
  | _ => none

def newsOfPair (user : UserId) (id : RoleId) : RoleEvent → Option RowNews
  | .userRoleAssigned a => if a.userId = user ∧ a.roleId = id then some (.granted a) else none
  | .userRoleUnassigned a => if a.userId = user ∧ a.roleId = id then some (.revoked a) else none
  | _ => none

end RoleEvent

variable {id : RoleId} {role r : Role} {roles : List Role} {event : RoleEvent} {user u : UserId}
  {a b : Assignment} {rows : List Assignment} {now : Moment}

namespace RoleSnapshot

def shown (id : RoleId) (roles : List Role) : Option Role :=
  (roles.find? fun r => r.id = id).map Role.definition

theorem shown_cons : shown id (r :: roles) =
    if r.id = id then some r.definition else shown id roles := by
  by_cases h : r.id = id <;> simp [shown, h]

theorem shown_append_singleton : shown id (roles ++ [role]) =
    (shown id roles).or (if role.id = id then some role.definition else none) := by
  rw [shown, List.find?_append, Option.map_or]
  by_cases h : role.id = id <;> simp [shown, h]

theorem shown_none : shown id roles = none ↔ ∀ r ∈ roles, r.id ≠ id := by
  simp [shown]

theorem shown_replaceOlder : shown role.id (replaceOlder role roles) =
    (RoleNews.updated role.definition).apply (shown role.id roles) := by
  induction roles with
  | nil => rfl
  | cons r rest ih =>
    unfold replaceOlder
    by_cases hr : r.id = role.id
    · rw [if_pos hr, shown_cons, shown_cons, if_pos hr, if_pos (by split <;> simp [hr])]
      simp only [RoleNews.apply]
      split <;> rename_i hlt
      · rw [if_pos (show role.definition.updatedAt < r.definition.updatedAt from hlt)]
      · rw [if_neg (show ¬ role.definition.updatedAt < r.definition.updatedAt from hlt)]
    · rw [if_neg hr, shown_cons, shown_cons, if_neg hr, if_neg hr, ih]

theorem shown_replaceOlder_other (h : role.id ≠ id) :
    shown id (replaceOlder role roles) = shown id roles := by
  induction roles with
  | nil => rfl
  | cons r rest ih =>
    unfold replaceOlder
    by_cases hr : r.id = role.id
    · have hkept : (if role.updatedAt < r.updatedAt then r else role).id = role.id := by
        split <;> simp [hr]
      rw [if_pos hr, shown_cons, shown_cons, if_neg (hkept ▸ h), if_neg (hr ▸ h)]
    · rw [if_neg hr, shown_cons, shown_cons, ih]

theorem map_id_replaceOlder : (replaceOlder role roles).map (·.id) = roles.map (·.id) := by
  induction roles with
  | nil => rfl
  | cons r rest ih =>
    unfold replaceOlder
    split
    · next hr =>
      have hkept : (if role.updatedAt < r.updatedAt then r else role).id = r.id := by
        split <;> simp [hr]
      simp [hkept]
    · simp [ih]

theorem shown_patch {n : RoleNews} (h : event.newsOf id = some n) :
    shown id (patch event roles) = n.apply (shown id roles) := by
  cases event with
  | userRoleAssigned a => simp [RoleEvent.newsOf] at h
  | userRoleUnassigned a => simp [RoleEvent.newsOf] at h
  | roleUpdated role =>
    obtain ⟨rfl, rfl⟩ : role.id = id ∧ .updated role.definition = n := by
      simpa [RoleEvent.newsOf] using h
    exact shown_replaceOlder
  | roleDeleted role =>
    obtain ⟨rfl, rfl⟩ : role.id = id ∧ .deleted = n := by simpa [RoleEvent.newsOf] using h
    exact shown_none.mpr fun r hr => by simpa using (List.mem_filter.mp hr).2
  | roleCreated role =>
    obtain ⟨rfl, rfl⟩ : role.id = id ∧ .created role.definition = n := by
      simpa [RoleEvent.newsOf] using h
    simp only [patch]
    cases hs : shown role.id roles with
    | none =>
      rw [if_neg (by simpa using shown_none.mp hs), shown_append_singleton, hs]
      simp [RoleNews.apply]
    | some x =>
      have hany : (roles.any fun r => r.id = role.id) = true := by
        by_contra hn
        rw [shown_none.mpr (by simpa using hn)] at hs
        simp at hs
      rw [if_pos hany, shown_replaceOlder, hs]
      rfl

theorem shown_patch_other (h : event.newsOf id = none) :
    shown id (patch event roles) = shown id roles := by
  cases event with
  | userRoleAssigned a => rfl
  | userRoleUnassigned a => rfl
  | roleUpdated role => exact shown_replaceOlder_other (by simpa [RoleEvent.newsOf] using h)
  | roleDeleted role =>
    have hne : role.id ≠ id := by simpa [RoleEvent.newsOf] using h
    rw [patch, shown, Keyed.find_filter_ne Role.id hne.symm, ← shown]
  | roleCreated role =>
    have hne : role.id ≠ id := by simpa [RoleEvent.newsOf] using h
    simp only [patch]
    split
    · exact shown_replaceOlder_other hne
    · rw [shown_append_singleton, if_neg hne, Option.or_none]

theorem mem_of_mem_replaceOlder (h : r ∈ replaceOlder role roles) : r ∈ roles ∨ r = role := by
  induction roles with
  | nil => exact .inl h
  | cons x rest ih =>
    unfold replaceOlder at h
    split at h
    · rcases List.mem_cons.mp h with h | h
      · split at h
        · exact .inl (h ▸ List.mem_cons_self)
        · exact .inr h
      · exact .inl (List.mem_cons_of_mem _ h)
    · rcases List.mem_cons.mp h with h | h
      · exact .inl (h ▸ List.mem_cons_self)
      · exact (ih h).imp_left (List.mem_cons_of_mem _)

theorem mem_of_mem_patch (h : r ∈ patch event roles) :
    r ∈ roles ∨ event = .roleCreated r ∨ event = .roleUpdated r := by
  cases event with
  | userRoleAssigned a => exact .inl h
  | userRoleUnassigned a => exact .inl h
  | roleDeleted role => exact .inl (List.mem_of_mem_filter h)
  | roleUpdated role =>
    exact (mem_of_mem_replaceOlder h).imp_right fun e => .inr (by rw [e])
  | roleCreated role =>
    simp only [patch] at h
    split at h
    · exact (mem_of_mem_replaceOlder h).imp_right fun e => .inl (by rw [e])
    · rcases List.mem_append.mp h with h | h
      · exact .inl h
      · exact .inr (.inl (by rw [List.mem_singleton.mp h]))

theorem patch_nodup (h : (roles.map (·.id)).Nodup) : ((patch event roles).map (·.id)).Nodup := by
  cases event with
  | userRoleAssigned a => exact h
  | userRoleUnassigned a => exact h
  | roleUpdated role => rwa [patch, map_id_replaceOlder]
  | roleDeleted role => exact Keyed.nodup_filter _ h _
  | roleCreated role =>
    simp only [patch]
    split
    · rwa [map_id_replaceOlder]
    · next hn => exact Keyed.nodup_append_singleton _ h (by simpa using hn)

end RoleSnapshot

namespace UserLists

def shown (id : RoleId) (rows : List Assignment) : Option Assignment :=
  rows.find? fun a => a.roleId = id

structure Sound (user : UserId) (rows : List Assignment) : Prop where
  of_user : ∀ a ∈ rows, a.userId = user
  roles_nodup : (rows.map (·.roleId)).Nodup

theorem Sound.shown_iff (h : Sound user rows) :
    shown id rows = some a ↔ a ∈ rows ∧ a.roleId = id :=
  Keyed.find_iff Assignment.roleId h.roles_nodup

theorem Sound.shown_of_mem (h : Sound user rows) (ha : a ∈ rows) : shown a.roleId rows = some a :=
  h.shown_iff.mpr ⟨ha, rfl⟩

theorem shown_none : shown id rows = none ↔ ∀ a ∈ rows, a.roleId ≠ id := by
  simp [shown]

theorem shown_mem (h : shown id rows = some a) : a ∈ rows ∧ a.roleId = id :=
  ⟨List.mem_of_find?_eq_some h, by simpa using List.find?_some h⟩

theorem sound_of_store {s : Store} (h : Store.Distinct s.rows) (user : UserId) :
    Sound user (s.assignmentsOfUser user) where
  of_user a ha := (Store.mem_assignmentsOfUser.mp ha).2
  roles_nodup := by
    apply ((List.mergeSort_perm _ _).map _).nodup_iff.mpr
    refine List.Nodup.map_on (fun a ha b hb hr => ?_) (h.rows_nodup.of_map.filter _)
    obtain ⟨ha, hau⟩ := List.mem_filter.mp ha
    obtain ⟨hb, hbu⟩ := List.mem_filter.mp hb
    simp only [decide_eq_true_eq] at hau hbu
    exact h.row_of_pair ha hb (hau.trans hbu.symm) hr

theorem replaceSame_eq (h : ∀ x ∈ rows, x.id = a.id → x = a) : replaceSame a rows = rows := by
  induction rows with
  | nil => rfl
  | cons x rest ih =>
    unfold replaceSame
    split
    · next hx => rw [h x (by simp) hx]
    · rw [ih fun y hy => h y (by simp [hy])]

/-- A grant of a row, where a row is known by its identifier. -/
theorem patch_assigned (hid : ∀ x ∈ rows, x.id = a.id → x = a) :
    patch (.userRoleAssigned a) rows =
      if a ∈ rows ∨ ∃ x ∈ rows, x.roleId = a.roleId ∧ a.createdAt < x.createdAt then rows
      else rows.filter (fun x => x.roleId ≠ a.roleId) ++ [a] := by
  have hany : (rows.any fun x => x.id = a.id) = true ↔ a ∈ rows := by
    simp only [List.any_eq_true, decide_eq_true_eq]
    exact ⟨fun ⟨x, hx, hxa⟩ => hid x hx hxa ▸ hx, fun ha => ⟨a, ha, rfl⟩⟩
  simp only [patch]
  by_cases ha : a ∈ rows
  · rw [if_pos (hany.mpr ha), if_pos (.inl ha), replaceSame_eq hid]
  · rw [if_neg (mt hany.mp ha)]
    by_cases hn : ∃ x ∈ rows, x.roleId = a.roleId ∧ a.createdAt < x.createdAt
    · rw [if_pos (by simpa using hn), if_pos (.inr hn)]
    · rw [if_neg (by simpa using hn), if_neg (not_or.mpr ⟨ha, hn⟩)]

/-- A list takes in a row unless it shows one of the role that was created later. -/
theorem mem_patch_assigned (hid : ∀ x ∈ rows, x.id = a.id → x = a)
    (latest : ∀ x ∈ rows, x.roleId = a.roleId → ¬ a.createdAt < x.createdAt) :
    a ∈ patch (.userRoleAssigned a) rows := by
  rw [patch_assigned hid]
  split
  · next h =>
    rcases h with ha | ⟨x, hx, hr, hlt⟩
    · exact ha
    · exact absurd hlt (latest x hx hr)
  · simp

theorem shown_succeeded :
    shown a.roleId (rows.filter (fun x => x.roleId ≠ a.roleId) ++ [a]) = some a := by
  have hnone : shown a.roleId (rows.filter fun x => x.roleId ≠ a.roleId) = none :=
    shown_none.mpr fun x hx => by simpa using (List.mem_filter.mp hx).2
  rw [shown, List.find?_append, ← shown, hnone]
  simp

theorem shown_assigned (h : Sound user rows) (hid : ∀ x ∈ rows, x.id = a.id → x = a) :
    shown a.roleId (patch (.userRoleAssigned a) rows) =
      (RowNews.granted a).apply (shown a.roleId rows) := by
  rw [patch_assigned hid]
  cases hs : shown a.roleId rows with
  | none =>
    have hne := shown_none.mp hs
    rw [if_neg, shown_succeeded]
    · rfl
    · rintro (ha | ⟨x, hx, hr, -⟩)
      · exact hne a ha rfl
      · exact hne x hx hr
  | some x =>
    obtain ⟨hx, hxr⟩ := shown_mem hs
    have huniq (y : Assignment) (hy : y ∈ rows) (hyr : y.roleId = a.roleId) : y = x :=
      Option.some.inj ((h.shown_iff.mpr ⟨hy, hyr⟩).symm.trans hs)
    simp only [RowNews.apply]
    split
    · next hc =>
      rw [hs]
      rcases hc with ha | ⟨y, hy, hyr, hlt⟩
      · rw [huniq a ha rfl, if_neg (by simp)]
      · obtain rfl := huniq y hy hyr
        by_cases he : y.id = a.id
        · rw [if_neg (by simp [he]), hid y hy he]
        · rw [if_pos ⟨he, hlt⟩]
    · next hc =>
      have hnot : ¬ (x.id ≠ a.id ∧ a.createdAt < x.createdAt) :=
        fun hn => hc (.inr ⟨x, hx, hxr, hn.2⟩)
      rw [if_neg hnot, shown_succeeded]

theorem shown_assigned_other (hid : ∀ x ∈ rows, x.id = a.id → x = a) (hr : a.roleId ≠ id) :
    shown id (patch (.userRoleAssigned a) rows) = shown id rows := by
  rw [patch_assigned hid]
  split
  · rfl
  · rw [shown, List.find?_append, Keyed.find_filter_ne Assignment.roleId hr.symm]
    simp [hr, shown]

theorem shown_unassigned (h : Sound user rows) (hid : ∀ x ∈ rows, x.id = a.id → x = a) :
    shown id (patch (.userRoleUnassigned a) rows) =
      if a.roleId = id then (RowNews.revoked a).apply (shown id rows) else shown id rows := by
  have hsound : Sound user (patch (.userRoleUnassigned a) rows) :=
    ⟨fun x hx => h.of_user x (List.mem_of_mem_filter hx), Keyed.nodup_filter _ h.roles_nodup _⟩
  ext x
  rw [hsound.shown_iff]
  simp only [patch, List.mem_filter, decide_eq_true_eq]
  split
  · next hr =>
    simp only [RowNews.apply, Option.filter_eq_some_iff, h.shown_iff, decide_eq_true_eq]
    tauto
  · next hr =>
    rw [h.shown_iff]
    constructor
    · intro hx
      exact ⟨hx.1.1, hx.2⟩
    · refine fun hx => ⟨⟨hx.1, fun he => ?_⟩, hx.2⟩
      exact hr (hid x hx.1 he ▸ hx.2)

theorem patch_sound (h : Sound user rows) (hid : ∀ a, event.row? = some a → a.userId = user ∧
    ∀ x ∈ rows, x.id = a.id → x = a) : Sound user (patch event rows) := by
  cases event with
  | roleCreated r => exact h
  | roleUpdated r => exact h
  | roleDeleted r => exact h
  | userRoleUnassigned a =>
    exact ⟨fun x hx => h.of_user x (List.mem_of_mem_filter hx),
        Keyed.nodup_filter _ h.roles_nodup _⟩
  | userRoleAssigned a =>
    obtain ⟨hu, hid⟩ := hid a rfl
    rw [patch_assigned hid]
    split
    · exact h
    · refine ⟨fun x hx => ?_, Keyed.nodup_append_singleton _ (Keyed.nodup_filter _ h.roles_nodup _)
        fun x hx => by simpa using (List.mem_filter.mp hx).2⟩
      rcases List.mem_append.mp hx with hx | hx
      · exact h.of_user x (List.mem_of_mem_filter hx)
      · rw [List.mem_singleton.mp hx, hu]

theorem mem_of_mem_replaceSame (h : b ∈ replaceSame a rows) : b ∈ rows ∨ b = a := by
  induction rows with
  | nil => exact .inl h
  | cons x rest ih =>
    unfold replaceSame at h
    split at h
    · rcases List.mem_cons.mp h with h | h
      · exact .inr h
      · exact .inl (List.mem_cons_of_mem _ h)
    · rcases List.mem_cons.mp h with h | h
      · exact .inl (h ▸ List.mem_cons_self)
      · exact (ih h).imp_left (List.mem_cons_of_mem _)

theorem mem_of_mem_patch (h : b ∈ patch event rows) : b ∈ rows ∨ event = .userRoleAssigned b := by
  cases event with
  | roleCreated r => exact .inl h
  | roleUpdated r => exact .inl h
  | roleDeleted r => exact .inl h
  | userRoleUnassigned a => exact .inl (List.mem_of_mem_filter h)
  | userRoleAssigned a =>
    simp only [patch] at h
    split at h
    · exact (mem_of_mem_replaceSame h).imp_right fun e => by rw [e]
    · split at h
      · exact .inl h
      · rcases List.mem_append.mp h with h | h
        · exact .inl (List.mem_of_mem_filter h)
        · exact .inr (by rw [List.mem_singleton.mp h])

variable (h : Sound user rows) (hid : ∀ a, event.row? = some a → a.userId = user ∧
  ∀ x ∈ rows, x.id = a.id → x = a)

include h hid

theorem shown_patch {n : RowNews} (hn : event.newsOfPair user id = some n) :
    shown id (patch event rows) = n.apply (shown id rows) := by
  cases event with
  | roleCreated r => simp [RoleEvent.newsOfPair] at hn
  | roleUpdated r => simp [RoleEvent.newsOfPair] at hn
  | roleDeleted r => simp [RoleEvent.newsOfPair] at hn
  | userRoleAssigned a =>
    obtain ⟨⟨-, rfl⟩, rfl⟩ : (a.userId = user ∧ a.roleId = id) ∧ .granted a = n := by
      simpa [RoleEvent.newsOfPair] using hn
    exact shown_assigned h (hid a rfl).2
  | userRoleUnassigned a =>
    obtain ⟨⟨-, rfl⟩, rfl⟩ : (a.userId = user ∧ a.roleId = id) ∧ .revoked a = n := by
      simpa [RoleEvent.newsOfPair] using hn
    rw [shown_unassigned h (hid a rfl).2, if_pos rfl]

theorem shown_patch_other (hn : event.newsOfPair user id = none) :
    shown id (patch event rows) = shown id rows := by
  cases event with
  | roleCreated r => rfl
  | roleUpdated r => rfl
  | roleDeleted r => rfl
  | userRoleAssigned a =>
    have hr : a.roleId ≠ id := fun hr => by simp [RoleEvent.newsOfPair, (hid a rfl).1, hr] at hn
    exact shown_assigned_other (hid a rfl).2 hr
  | userRoleUnassigned a =>
    have hr : a.roleId ≠ id := fun hr => by simp [RoleEvent.newsOfPair, (hid a rfl).1, hr] at hn
    rw [shown_unassigned h (hid a rfl).2, if_neg hr]

end UserLists

end Entitlement
