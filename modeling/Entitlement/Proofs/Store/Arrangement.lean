import Mathlib.Data.List.Dedup
import Entitlement.Proofs.Crowd.History

/-!
# The store under any calls

Whatever calls are made one after the other, with whatever arguments: roles are told apart by
their identifiers and stand in the order in which they came, a row is found under its own
identifier, and a pair has one row at most. Each call changes what it names and nothing else,
and one that fails changes nothing.
-/

set_option autoImplicit false

namespace Entitlement

theorem dedup_append_singleton {α : Type} [DecidableEq α] (xs : List α) (a : α) :
    (xs ++ [a]).dedup = xs.dedup.filter (· ≠ a) ++ [a] := by
  induction xs with
  | nil => rfl
  | cons x xs ih =>
    rw [List.cons_append]
    by_cases hx : x ∈ xs
    · rw [List.dedup_cons_of_mem hx, List.dedup_cons_of_mem (List.mem_append_left _ hx), ih]
    · rw [List.dedup_cons_of_notMem hx]
      by_cases ha : x = a
      · subst ha
        rw [List.dedup_cons_of_mem (by simp), ih, List.filter_cons_of_neg (by simp)]
      · rw [List.dedup_cons_of_notMem (by simp [hx, ha]), ih,
          List.filter_cons_of_pos (by simpa using ha), List.cons_append]

def Exchange.defined? : Exchange → Option RoleId
  | ⟨.insertRole role, .ok ()⟩ => some role.id
  | _ => none

def Log.defined (log : Log) : List RoleId := (log.filterMap Exchange.defined?).reverse

namespace Store

def rowAt (s : Store) (id : AssignmentId) : Option Assignment := s.rows.find? fun a => a.id = id

structure Arranged (log : Log) (s : Store) : Prop where
  roles_nodup : (s.roles.map (·.id)).Nodup
  roles_order : s.roles.map (·.id) = log.defined.dedup.filter s.hasRole
  distinct : Distinct s.rows

variable {s : Store} {id : AssignmentId}

theorem rowAt_eq_none : s.rowAt id = none ↔ ∀ a ∈ s.rows, a.id ≠ id := by
  simp [rowAt]

theorem Distinct.rowAt {a : Assignment} (h : Distinct s.rows) (ha : a ∈ s.rows) :
    s.rowAt a.id = some a :=
  (Keyed.find_iff _ h.rows_nodup).mpr ⟨ha, rfl⟩

theorem rowAt_deleteAssignment (s : Store) (id other : AssignmentId) :
    (s.deleteAssignment id).2.rowAt other = if other = id then none else s.rowAt other := by
  split
  · next same =>
    exact rowAt_eq_none.mpr fun a ha => same ▸ (mem_deleteAssignment.mp ha).2
  · next ne => exact Keyed.find_filter_ne _ ne

theorem rowAt_insertAssignment {t : Store} {a : Assignment} (ok : s.insertAssignment a = .ok t)
    (id : AssignmentId) : t.rowAt id = if id = a.id then some a else s.rowAt id := by
  obtain ⟨-, rfl⟩ := insertAssignment_iff.mp ok
  show ((s.deleteAssignment a.id).2.rows ++ [a]).find? _ = _
  rw [List.find?_append]
  show ((s.deleteAssignment a.id).2.rowAt id).or _ = _
  rw [rowAt_deleteAssignment]
  split
  · next same => simp [same]
  · next ne =>
    have other : a.id ≠ id := fun e => ne e.symm
    simp [other]

theorem isSome_rowAt (s : Store) (id : AssignmentId) :
    (s.rowAt id).isSome = (s.deleteAssignment id).1 := by
  rw [rowAt, deleteAssignment, List.isSome_find?]

theorem findRole_updateRole {t : Store} {role : Role} (ok : s.updateRole role = .ok t)
    (id : RoleId) : t.findRole id = if id = role.id then some role else s.findRole id := by
  obtain ⟨stored, rfl⟩ := updateRole_ok.mp ok
  have found :
      ({ s with roles := modifyFirst role.id (fun _ => role) s.roles } : Store).findRole id =
        (s.findRole id).map fun r => if role.id = id then role else r :=
    find_modifyFirst _ fun _ _ => rfl
  rw [found]
  by_cases same : role.id = id
  · subst same
    cases h : s.findRole role.id with
    | none => simp [findRole_none.mp h] at stored
    | some r => simp
  · simp [same, Ne.symm same]

theorem findRole_touchRole (s : Store) (id : RoleId) (usedAt : Instant) (other : RoleId) :
    (s.touchRole id usedAt).findRole other =
      (s.findRole other).map fun r =>
        if other = id then { r with lastUsedAt := usedAt } else r := by
  have found : (s.touchRole id usedAt).findRole other =
      (s.findRole other).map fun r => if id = other then { r with lastUsedAt := usedAt } else r :=
    find_modifyFirst _ fun _ hr => hr
  rw [found]
  congr 1
  funext r
  simp only [eq_comm]

end Store

def Exchange.Affects (s t : Store) : Exchange → Prop
  | ⟨.listRoles, .ok roles⟩ => roles = s.roles ∧ t = s
  | ⟨.insertRole role, .ok ()⟩ =>
    s.hasRole role.id = false ∧ t.roles = s.roles ++ [role] ∧ t.rows = s.rows
  | ⟨.insertRole role, .error _⟩ => s.hasRole role.id = true ∧ t = s
  | ⟨.updateRole role, .ok ()⟩ =>
    s.hasRole role.id = true ∧ t.roles.map (·.id) = s.roles.map (·.id) ∧ t.rows = s.rows ∧
      ∀ id, t.findRole id = if id = role.id then some role else s.findRole id
  | ⟨.updateRole role, .error _⟩ => s.hasRole role.id = false ∧ t = s
  | ⟨.deleteRole id, .ok ()⟩ =>
    s.hasRole id = true ∧ (∀ r, r ∈ t.roles ↔ r ∈ s.roles ∧ r.id ≠ id) ∧
      ∀ a, a ∈ t.rows ↔ a ∈ s.rows ∧ a.roleId ≠ id
  | ⟨.deleteRole id, .error _⟩ => s.hasRole id = false ∧ t = s
  | ⟨.touchRole id usedAt, .ok ()⟩ =>
    t.roles.map (·.id) = s.roles.map (·.id) ∧ t.rows = s.rows ∧
      ∀ other, t.findRole other =
        (s.findRole other).map fun r => if other = id then { r with lastUsedAt := usedAt } else r
  | ⟨.insertAssignment a, .ok ()⟩ =>
    s.findAssignment a.userId a.roleId = none ∧ t.roles = s.roles ∧
      (∀ id, t.rowAt id = if id = a.id then some a else s.rowAt id) ∧
      (s.rowAt a.id = none → t.rows = s.rows ++ [a])
  | ⟨.insertAssignment a, .error _⟩ => s.findAssignment a.userId a.roleId ≠ none ∧ t = s
  | ⟨.deleteAssignment id, .ok removed⟩ =>
    removed = (s.rowAt id).isSome ∧ t.roles = s.roles ∧
      ∀ other, t.rowAt other = if other = id then none else s.rowAt other
  | _ => t = s

namespace World

variable {κ : Type} [DecidableEq κ] (k : κ) (c : Call)

theorem serve_affects (w : World κ) :
    Exchange.Affects w.store (serve k c w).2.store ⟨c, (serve k c w).1⟩ := by
  cases c with
  | listRoles => exact ⟨rfl, rfl⟩
  | insertRole role =>
    simp only [serve]
    cases h : w.store.insertRole role with
    | ok t =>
      obtain ⟨new, rfl⟩ := Store.insertRole_ok.mp h
      exact ⟨new, rfl, rfl⟩
    | error fault => exact ⟨(Store.insertRole_error.mp h).1, rfl⟩
  | updateRole role =>
    simp only [serve]
    cases h : w.store.updateRole role with
    | ok t =>
      have found := Store.findRole_updateRole h
      obtain ⟨stored, rfl⟩ := Store.updateRole_ok.mp h
      exact ⟨stored, Store.map_modifyFirst _ _ _ fun r hr => hr.symm, rfl, found⟩
    | error fault => exact ⟨(Store.updateRole_error.mp h).1, rfl⟩
  | deleteRole id =>
    simp only [serve]
    cases h : w.store.deleteRole id with
    | ok t =>
      obtain ⟨stored, rfl⟩ := Store.deleteRole_ok.mp h
      refine ⟨stored, fun r => ?_, fun a => ?_⟩
      · exact List.mem_filter.trans (by simp)
      · exact List.mem_filter.trans (by simp)
    | error fault => exact ⟨(Store.deleteRole_error.mp h).1, rfl⟩
  | touchRole id usedAt =>
    exact ⟨Store.map_modifyFirst _ _ _ fun _ _ => rfl, rfl, Store.findRole_touchRole _ _ _⟩
  | insertAssignment a =>
    simp only [serve]
    cases h : w.store.insertAssignment a with
    | ok t =>
      obtain ⟨free, rows⟩ := Store.insertAssignment_iff.mp h
      refine ⟨free, rows ▸ rfl, Store.rowAt_insertAssignment h, fun unused => ?_⟩
      exact ((Store.insertAssignment_ok (Store.rowAt_eq_none.mp unused)).mp h).2 ▸ rfl
    | error fault =>
      obtain ⟨⟨b, taken⟩, -⟩ := Store.insertAssignment_error.mp h
      exact ⟨by simp [taken], rfl⟩
  | deleteAssignment id =>
    exact ⟨(Store.isSome_rowAt _ _).symm, rfl, Store.rowAt_deleteAssignment w.store id⟩
  | notify user notification => simp only [serve, Exchange.Affects]; split <;> rfl
  | record entry => simp only [serve, Exchange.Affects]; split <;> rfl
  | _ => rfl

end World

inductive Exchange.Renames (s t : Store) : Exchange → Prop
  | keeps {x : Exchange} (ids : t.roles.map (·.id) = s.roles.map (·.id))
      (none : x.defined? = none) :
      Renames s t x
  | inserts {role : Role} (new : s.hasRole role.id = false) (roles : t.roles = s.roles ++ [role]) :
      Renames s t ⟨.insertRole role, .ok ()⟩
  | deletes {id : RoleId} (ok : s.deleteRole id = .ok t) : Renames s t ⟨.deleteRole id, .ok ()⟩

theorem Exchange.Fits.renames {s t : Store} {x : Exchange} (fits : x.Fits s t) : x.Renames s t := by
  unfold Fits at fits
  split at fits
  · exact .keeps (fits.2 ▸ rfl) rfl
  · exact .keeps (fits.2 ▸ rfl) rfl
  · obtain ⟨new, rfl⟩ := Store.insertRole_ok.mp fits
    exact .inserts new rfl
  · obtain ⟨-, rfl⟩ := Store.updateRole_ok.mp fits
    exact .keeps (Store.map_modifyFirst _ _ _ fun r hr => hr.symm) rfl
  · exact .deletes fits
  · exact .keeps (fits ▸ Store.map_modifyFirst _ _ _ fun _ _ => rfl) rfl
  · exact .keeps (fits.2 ▸ rfl) rfl
  · exact .keeps (fits.2 ▸ rfl) rfl
  · exact .keeps ((Store.insertAssignment_iff.mp fits).2 ▸ rfl) rfl
  · exact .keeps ((Prod.mk.inj fits).2 ▸ rfl) rfl
  · exact .keeps (fits.2 ▸ rfl) rfl
  · next hinsert _ _ _ _ _ _ _ _ =>
    refine .keeps (fits ▸ rfl) ?_
    unfold defined?
    split
    · exact absurd rfl (hinsert _)
    · rfl

namespace Store

variable {s t : Store} {x : Exchange} {log : Log}

theorem Arranged.exchange (h : s.Arranged log) (fits : x.Fits s t) : t.Arranged (x :: log) := by
  have distinct := fits.rewrites.distinct h.distinct
  cases fits.renames with
  | keeps ids none =>
    refine ⟨ids ▸ h.roles_nodup, ?_, distinct⟩
    have same : Log.defined (x :: log) = log.defined := by
      rw [Log.defined, List.filterMap_cons_none none]
      rfl
    have roles : t.hasRole = s.hasRole := funext (hasRole_of_map_id ids)
    rw [ids, same, roles, h.roles_order]
  | @inserts role new roles =>
    have hne : ∀ r ∈ s.roles, r.id ≠ role.id := by simpa [hasRole] using new
    refine ⟨?_, ?_, distinct⟩
    · rw [roles]
      exact Keyed.nodup_append_singleton _ h.roles_nodup hne
    · have added : Log.defined (⟨.insertRole role, .ok ()⟩ :: log) = log.defined ++ [role.id] := by
        simp [Log.defined, Exchange.defined?]
      have others : ∀ i ∈ log.defined.dedup, s.hasRole i = (t.hasRole i && i ≠ role.id) := by
        intro i _
        have now : t.hasRole i = (s.hasRole i || role.id = i) := by simp [hasRole, roles]
        by_cases same : i = role.id
        · simp [same, new]
        · simp [now, same, Ne.symm same]
      have there : t.hasRole role.id = true := by simp [hasRole, roles]
      rw [added, dedup_append_singleton, List.filter_append, List.filter_filter,
        ← List.filter_congr others, ← h.roles_order, roles, List.map_append]
      simp [there]
  | @deletes id ok =>
    have roles : t.roles = s.roles.filter fun r => r.id ≠ id := (deleteRole_ok.mp ok).2 ▸ rfl
    refine ⟨?_, ?_, distinct⟩
    · rw [roles]
      exact Keyed.nodup_filter _ h.roles_nodup _
    · have same : Log.defined (⟨.deleteRole id, .ok ()⟩ :: log) = log.defined := rfl
      have left : t.hasRole = fun i => i ≠ id && s.hasRole i := by
        funext i
        rw [hasRole_deleteRole_other ok, Bool.and_comm]
        simp only [ne_comm]
      rw [same, left, ← List.filter_filter, ← h.roles_order, List.filter_map, roles]
      rfl

end Store

namespace World

variable {κ : Type} [DecidableEq κ]

def serveAll (k : κ) : List Call → Log → World κ → Log × World κ
  | [], log, w => (log, w)
  | c :: calls, log, w => serveAll k calls (⟨c, (serve k c w).1⟩ :: log) (serve k c w).2

theorem serveAll_arranged (k : κ) (calls : List Call) {log : Log} {w : World κ}
    (h : w.store.Arranged log) :
    (serveAll k calls log w).2.store.Arranged (serveAll k calls log w).1 := by
  induction calls generalizing log w with
  | nil => exact h
  | cons c calls ih => exact ih (h.exchange (serve_fits k c w))

/-- After any calls on an empty store roles and rows are in order, and the next call changes no
more than it says, nothing if it fails. -/
theorem store_keeps_order (k : κ) (calls : List Call) (w : World κ) :
    let served := serveAll k calls [] { w with store := .empty }
    served.2.store.Arranged served.1 ∧
      (∀ a ∈ served.2.store.rows, served.2.store.rowAt a.id = some a) ∧
      ∀ c, Exchange.Affects served.2.store (serve k c served.2).2.store
        ⟨c, (serve k c served.2).1⟩ := by
  intro served
  have arranged : served.2.store.Arranged served.1 :=
    serveAll_arranged k calls ⟨.nil, rfl, .nil, .nil⟩
  exact ⟨arranged, fun a ha => arranged.distinct.rowAt ha, fun c => serve_affects k c served.2⟩

end World

end Entitlement
