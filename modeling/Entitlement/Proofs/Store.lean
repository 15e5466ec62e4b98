import Entitlement.Proofs.Keyed
import Entitlement.Store

/-!
# The store keeps its keys apart

Identifiers of roles and rows are distinct, a pair of user and role has at most one row,
and every row is about a stored role. Each operation that succeeds keeps it so.
-/

set_option autoImplicit false

namespace Entitlement

namespace Store

def pair (a : Assignment) : UserId × RoleId := (a.userId, a.roleId)

structure Distinct (rows : List Assignment) : Prop where
  rows_nodup : (rows.map (·.id)).Nodup
  pairs_nodup : (rows.map pair).Nodup

structure Sound (s : Store) : Prop where
  roles_nodup : (s.roles.map (·.id)).Nodup
  distinct : Distinct s.rows
  rows_role : ∀ a ∈ s.rows, s.hasRole a.roleId = true

variable {s t : Store} {id : RoleId} {role r : Role} {a b : Assignment} {user : UserId}
  {rows : List Assignment}

theorem Distinct.row_of_id (h : Distinct rows) (ha : a ∈ rows) (hb : b ∈ rows)
    (hid : a.id = b.id) : a = b :=
  List.inj_on_of_nodup_map h.rows_nodup ha hb hid

theorem Distinct.row_of_pair (h : Distinct rows) (ha : a ∈ rows) (hb : b ∈ rows)
    (hu : a.userId = b.userId) (hr : a.roleId = b.roleId) : a = b :=
  List.inj_on_of_nodup_map h.pairs_nodup ha hb (by simp [pair, hu, hr])

theorem Distinct.filter (h : Distinct rows) (p : Assignment → Bool) : Distinct (rows.filter p) :=
  ⟨Keyed.nodup_filter _ h.rows_nodup _, Keyed.nodup_filter _ h.pairs_nodup _⟩

theorem Distinct.append (h : Distinct rows) (hnew : ∀ b ∈ rows, b.id ≠ a.id)
    (hfree : ∀ b ∈ rows, b.userId = a.userId → b.roleId ≠ a.roleId) : Distinct (rows ++ [a]) := by
  refine ⟨Keyed.nodup_append_singleton _ h.rows_nodup hnew,
    Keyed.nodup_append_singleton _ h.pairs_nodup fun b hb hp => ?_⟩
  obtain ⟨hu, hr⟩ := Prod.mk.inj hp
  exact hfree b hb hu hr

theorem empty_sound : empty.Sound where
  roles_nodup := .nil
  distinct := ⟨.nil, .nil⟩
  rows_role := by simp [empty]

theorem hasRole_iff : s.hasRole id = true ↔ ∃ r ∈ s.roles, r.id = id := by
  simp [hasRole]

theorem hasRole_of_map_id (h : t.roles.map (·.id) = s.roles.map (·.id)) (id : RoleId) :
    t.hasRole id = s.hasRole id := by
  have key (x : Store) : x.hasRole id = (x.roles.map (·.id)).any fun i => i = id := by
    rw [List.any_map]
    rfl
  rw [key, key, h]

theorem findRole_id (h : s.findRole id = some r) : r.id = id := by
  simpa using List.find?_some h

theorem findRole_mem (h : s.findRole id = some r) : r ∈ s.roles := List.mem_of_find?_eq_some h

theorem findRole_none : s.findRole id = none ↔ s.hasRole id = false := by
  simp [findRole, hasRole]

theorem hasRole_of_findRole (h : s.findRole id = some r) : s.hasRole id = true :=
  hasRole_iff.mpr ⟨r, findRole_mem h, findRole_id h⟩

theorem findAssignment_mem (h : s.findAssignment user id = some a) :
    a ∈ s.rows ∧ a.userId = user ∧ a.roleId = id := by
  refine ⟨List.mem_of_find?_eq_some h, ?_⟩
  simpa using List.find?_some h

theorem findAssignment_none :
    s.findAssignment user id = none ↔ ∀ a ∈ s.rows, a.userId = user → a.roleId ≠ id := by
  simp [findAssignment]

theorem Sound.row_of_id (h : s.Sound) (ha : a ∈ s.rows) (hb : b ∈ s.rows) (hid : a.id = b.id) :
    a = b :=
  h.distinct.row_of_id ha hb hid

theorem Sound.row_of_pair (h : s.Sound) (ha : a ∈ s.rows) (hb : b ∈ s.rows)
    (hu : a.userId = b.userId) (hr : a.roleId = b.roleId) : a = b :=
  h.distinct.row_of_pair ha hb hu hr

theorem Distinct.findAssignment_iff (h : Distinct s.rows) :
    s.findAssignment user id = some a ↔ a ∈ s.rows ∧ a.userId = user ∧ a.roleId = id := by
  have hkey : s.findAssignment user id = s.rows.find? fun a => pair a = (user, id) := by
    simp [findAssignment, pair]
  rw [hkey, Keyed.find_iff pair h.pairs_nodup, pair, Prod.mk.injEq]

theorem Sound.findAssignment_iff (h : s.Sound) :
    s.findAssignment user id = some a ↔ a ∈ s.rows ∧ a.userId = user ∧ a.roleId = id :=
  h.distinct.findAssignment_iff

theorem map_modifyFirst {α : Type} (f : Role → Role) (g : Role → α) (rs : List Role)
    (h : ∀ r, r.id = id → g (f r) = g r) : (modifyFirst id f rs).map g = rs.map g := by
  induction rs with
  | nil => rfl
  | cons r rest ih =>
    unfold modifyFirst
    split
    · next hr => simp [h r hr]
    · simp [ih]

theorem mem_of_mem_modifyFirst {f : Role → Role} {rs : List Role}
    (h : r ∈ modifyFirst id f rs) : r ∈ rs ∨ ∃ x ∈ rs, f x = r := by
  induction rs with
  | nil => exact .inl h
  | cons x rest ih =>
    unfold modifyFirst at h
    split at h
    · rcases List.mem_cons.mp h with rfl | h
      · exact .inr ⟨x, List.mem_cons_self, rfl⟩
      · exact .inl (List.mem_cons_of_mem _ h)
    · rcases List.mem_cons.mp h with rfl | h
      · exact .inl List.mem_cons_self
      · rcases ih h with h | ⟨y, hy, e⟩
        · exact .inl (List.mem_cons_of_mem _ h)
        · exact .inr ⟨y, List.mem_cons_of_mem _ hy, e⟩

theorem mem_modifyFirst {f : Role → Role} {rs : List Role} (h : r ∈ rs) (hid : r.id = id) :
    ∃ x ∈ rs, x.id = id ∧ f x ∈ modifyFirst id f rs := by
  induction rs with
  | nil => simp at h
  | cons x rest ih =>
    unfold modifyFirst
    split
    · next hx => exact ⟨x, List.mem_cons_self, hx, List.mem_cons_self⟩
    · next hx =>
      obtain ⟨y, hy, hyid, hf⟩ :=
        ih ((List.mem_cons.mp h).resolve_left fun e => hx (e ▸ hid))
      exact ⟨y, List.mem_cons_of_mem _ hy, hyid, List.mem_cons_of_mem _ hf⟩

/-- A change of one record that keeps its identifier is seen by looking it up, and by no other
look-up. -/
theorem find_modifyFirst {f : Role → Role} {target : RoleId} (rs : List Role)
    (hf : ∀ r, r.id = target → (f r).id = target) :
    (modifyFirst target f rs).find? (fun r => r.id = id) =
      (rs.find? fun r => r.id = id).map fun r => if target = id then f r else r := by
  induction rs with
  | nil => rfl
  | cons r rest ih =>
    unfold modifyFirst
    split
    · next ht =>
      have hkept := hf r ht
      by_cases hid : target = id
      · rw [List.find?_cons_of_pos (by simpa using hkept.trans hid),
          List.find?_cons_of_pos (by simpa using ht.trans hid), Option.map_some, if_pos hid]
      · rw [List.find?_cons_of_neg (by simpa [hkept] using hid),
          List.find?_cons_of_neg (by simpa [ht] using hid)]
        simp [hid]
    · next ht =>
      by_cases hid : r.id = id
      · have hne : ¬ target = id := fun e => ht (hid.trans e.symm)
        rw [List.find?_cons_of_pos (by simpa using hid), List.find?_cons_of_pos (by simpa using hid),
          Option.map_some, if_neg hne]
      · rw [List.find?_cons_of_neg (by simpa using hid), List.find?_cons_of_neg (by simpa using hid),
          ih]

theorem hasRole_touchRole (s : Store) (touched : RoleId) (usedAt : Instant) (id : RoleId) :
    (s.touchRole touched usedAt).hasRole id = s.hasRole id := by
  refine hasRole_of_map_id ?_ id
  exact map_modifyFirst _ _ _ fun _ _ => rfl

theorem insertRole_ok :
    s.insertRole role = .ok t ↔
      s.hasRole role.id = false ∧ t = { s with roles := s.roles ++ [role] } := by
  unfold insertRole
  cases s.hasRole role.id <;> simp [eq_comm]

theorem insertRole_error {fault : Fault} :
    s.insertRole role = .error fault ↔ s.hasRole role.id = true ∧ fault = .roleExists role.id := by
  unfold insertRole
  cases s.hasRole role.id <;> simp [eq_comm]

theorem updateRole_ok :
    s.updateRole role = .ok t ↔ s.hasRole role.id = true ∧
      t = { s with roles := modifyFirst role.id (fun _ => role) s.roles } := by
  unfold updateRole
  cases s.hasRole role.id <;> simp [eq_comm]

theorem updateRole_error {fault : Fault} :
    s.updateRole role = .error fault ↔
      s.hasRole role.id = false ∧ fault = .roleNotFound role.id := by
  unfold updateRole
  cases s.hasRole role.id <;> simp [eq_comm]

theorem deleteRole_ok :
    s.deleteRole id = .ok t ↔ s.hasRole id = true ∧
      t = ⟨s.roles.filter fun r => r.id ≠ id, s.rows.filter fun a => a.roleId ≠ id⟩ := by
  unfold deleteRole
  cases s.hasRole id <;> simp [eq_comm]

theorem deleteRole_error {fault : Fault} :
    s.deleteRole id = .error fault ↔ s.hasRole id = false ∧ fault = .roleNotFound id := by
  unfold deleteRole
  cases s.hasRole id <;> simp [eq_comm]

theorem hasRole_deleteRole (ok : s.deleteRole id = .ok t) : t.hasRole id = false := by
  obtain ⟨-, rfl⟩ := deleteRole_ok.mp ok
  simp [hasRole]

theorem hasRole_deleteRole_other (ok : s.deleteRole id = .ok t) (other : RoleId) :
    t.hasRole other = (s.hasRole other && id ≠ other) := by
  obtain ⟨-, rfl⟩ := deleteRole_ok.mp ok
  rw [Bool.eq_iff_iff]
  simp only [Bool.and_eq_true, hasRole_iff, List.mem_filter, decide_eq_true_eq]
  constructor
  · rintro ⟨r, ⟨hr, hne⟩, rfl⟩
    exact ⟨⟨r, hr, rfl⟩, hne.symm⟩
  · rintro ⟨⟨r, hr, rfl⟩, hne⟩
    exact ⟨r, ⟨hr, hne.symm⟩, rfl⟩

theorem findAssignment_deleteRole (ok : s.deleteRole id = .ok t) (user : UserId) :
    t.findAssignment user id = none := by
  obtain ⟨-, rfl⟩ := deleteRole_ok.mp ok
  apply findAssignment_none.mpr
  intro a ha _
  simpa using (List.mem_filter.mp ha).2

theorem insertRole_sound (h : s.Sound) (ok : s.insertRole role = .ok t) : t.Sound := by
  obtain ⟨hnew, rfl⟩ := insertRole_ok.mp ok
  have hne : ∀ r ∈ s.roles, r.id ≠ role.id := by simpa [hasRole] using hnew
  constructor
  · exact Keyed.nodup_append_singleton _ h.roles_nodup hne
  · exact h.distinct
  · intro a ha
    obtain ⟨r, hr, hid⟩ := hasRole_iff.mp (h.rows_role a ha)
    exact hasRole_iff.mpr ⟨r, List.mem_append_left _ hr, hid⟩

theorem Sound.of_map_id (h : s.Sound) (hid : t.roles.map (·.id) = s.roles.map (·.id))
    (hrows : t.rows = s.rows) : t.Sound where
  roles_nodup := by rw [hid]; exact h.roles_nodup
  distinct := by rw [hrows]; exact h.distinct
  rows_role a ha := by
    rw [hasRole_of_map_id hid]
    exact h.rows_role a (hrows ▸ ha)

theorem updateRole_sound (h : s.Sound) (ok : s.updateRole role = .ok t) : t.Sound := by
  obtain ⟨-, rfl⟩ := updateRole_ok.mp ok
  exact h.of_map_id (map_modifyFirst _ _ _ fun r hr => hr.symm) rfl

theorem touchRole_sound (h : s.Sound) (id : RoleId) (usedAt : Instant) :
    (s.touchRole id usedAt).Sound :=
  h.of_map_id (map_modifyFirst _ _ _ fun _ _ => rfl) rfl

theorem deleteRole_sound (h : s.Sound) (ok : s.deleteRole id = .ok t) : t.Sound := by
  obtain ⟨-, rfl⟩ := deleteRole_ok.mp ok
  constructor
  · exact Keyed.nodup_filter _ h.roles_nodup _
  · exact h.distinct.filter _
  · intro a ha
    obtain ⟨ha, hne⟩ := List.mem_filter.mp ha
    obtain ⟨r, hr, hid⟩ := hasRole_iff.mp (h.rows_role a ha)
    have hkept : r.id ≠ id := by
      rw [hid]
      simpa using hne
    exact hasRole_iff.mpr ⟨r, List.mem_filter.mpr ⟨hr, by simpa using hkept⟩, hid⟩

theorem insertAssignment_iff :
    s.insertAssignment a = .ok t ↔ s.findAssignment a.userId a.roleId = none ∧
      t = { s with rows := s.rows.filter (fun b => b.id ≠ a.id) ++ [a] } := by
  rw [insertAssignment]
  cases s.findAssignment a.userId a.roleId <;> simp [eq_comm]

theorem insertAssignment_error {fault : Fault} :
    s.insertAssignment a = .error fault ↔
      (∃ b, s.findAssignment a.userId a.roleId = some b) ∧
        fault = .alreadyAssigned a.roleId a.userId := by
  rw [insertAssignment]
  cases s.findAssignment a.userId a.roleId <;> simp [eq_comm]

theorem insertAssignment_ok (hnew : ∀ b ∈ s.rows, b.id ≠ a.id) :
    s.insertAssignment a = .ok t ↔ s.findAssignment a.userId a.roleId = none ∧
      t = { s with rows := s.rows ++ [a] } := by
  have hkeep : s.rows.filter (fun b => b.id ≠ a.id) = s.rows :=
    List.filter_eq_self.mpr fun b hb => by simpa using hnew b hb
  rw [insertAssignment_iff, hkeep]

theorem findAssignment_append (s : Store) (a : Assignment) (user : UserId) (id : RoleId) :
    ({ s with rows := s.rows ++ [a] } : Store).findAssignment user id =
      (s.findAssignment user id).or (if a.userId = user ∧ a.roleId = id then some a else none) := by
  show (s.rows ++ [a]).find? _ = _
  rw [List.find?_append, List.find?_singleton, findAssignment]
  simp only [Bool.decide_and, Bool.and_eq_true, decide_eq_true_eq]

theorem insertAssignment_sound (h : s.Sound) (hnew : ∀ b ∈ s.rows, b.id ≠ a.id)
    (hrole : s.hasRole a.roleId = true) (ok : s.insertAssignment a = .ok t) : t.Sound := by
  obtain ⟨hfree, rfl⟩ := (insertAssignment_ok hnew).mp ok
  constructor
  · exact h.roles_nodup
  · exact h.distinct.append hnew (findAssignment_none.mp hfree)
  · intro b hb
    rcases List.mem_append.mp hb with hb | hb
    · exact h.rows_role b hb
    · rw [List.mem_singleton.mp hb]
      exact hrole

theorem deleteAssignment_sound (h : s.Sound) (id : AssignmentId) :
    (s.deleteAssignment id).2.Sound where
  roles_nodup := h.roles_nodup
  distinct := h.distinct.filter _
  rows_role a ha := h.rows_role a (List.mem_of_mem_filter ha)

theorem deleteAssignment_of_mem (ha : a ∈ s.rows) : (s.deleteAssignment a.id).1 = true :=
  List.any_eq_true.mpr ⟨a, ha, by simp⟩

theorem mem_deleteAssignment {id : AssignmentId} :
    a ∈ (s.deleteAssignment id).2.rows ↔ a ∈ s.rows ∧ a.id ≠ id := by
  simp [deleteAssignment]

theorem Sound.findAssignment_deleteAssignment (h : s.Sound) (ha : a ∈ s.rows) :
    (s.deleteAssignment a.id).2.findAssignment a.userId a.roleId = none := by
  apply findAssignment_none.mpr
  intro b hb hu hr
  obtain ⟨hb, hid⟩ := mem_deleteAssignment.mp hb
  exact hid (by rw [h.row_of_pair hb ha hu hr])

theorem mem_assignmentsOfUser : a ∈ s.assignmentsOfUser user ↔ a ∈ s.rows ∧ a.userId = user := by
  simp [assignmentsOfUser]

theorem mem_of_mem_expired {now : Instant} {limit : Nat}
    (h : a ∈ s.expiredAssignments now limit) : a ∈ s.rows := by
  have := List.mem_of_mem_take h
  simp only [List.mem_mergeSort, List.mem_filter] at this
  exact this.1

theorem expired_of_mem_expired {now : Instant} {limit : Nat}
    (h : a ∈ s.expiredAssignments now limit) : a.isExpiredAt now = true := by
  have := List.mem_of_mem_take h
  simp only [List.mem_mergeSort, List.mem_filter] at this
  exact this.2

theorem expired_ids (ids : (s.rows.map (·.id)).Nodup) {now : Instant} {limit : Nat} :
    ((s.expiredAssignments now limit).map (·.id)).Nodup := by
  refine List.Nodup.sublist ((List.take_sublist _ _).map _) ?_
  exact ((List.mergeSort_perm _ _).map _).nodup_iff.mpr (ids.sublist (List.filter_sublist.map _))

end Store

end Entitlement
