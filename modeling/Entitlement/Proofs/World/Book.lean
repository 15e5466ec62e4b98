import Entitlement.Proofs.Crowd.Request
import Entitlement.Proofs.World.Removal

/-!
# The book of assignments

What a store keeps of assignments is a book: which roles there are, and for each pair of user
and role whether it is assigned and when that ends, if ever. The rules of the book say when a
request fails and what the book is after it.
-/

set_option autoImplicit false

namespace Entitlement

def isOver (now : Instant) : Option Instant → Bool
  | some t => t ≤ now
  | none => false

@[simp] theorem isOver_expiresAt (now : Instant) (a : Assignment) :
    isOver now a.expiresAt = a.isExpiredAt now := rfl

@[ext] structure Book where
  roles : RoleId → Bool
  ends : UserId → RoleId → Option (Option Instant)

namespace Book

def define (b : Book) (id : RoleId) : Book :=
  { b with roles := fun other => b.roles other || id = other }

def forget (b : Book) (id : RoleId) : Book :=
  ⟨fun other => b.roles other && id ≠ other, fun user role => if role = id then none else b.ends user role⟩

def set (b : Book) (user : UserId) (role : RoleId) (ends : Option (Option Instant)) : Book :=
  { b with ends := fun u r => if u = user ∧ r = role then ends else b.ends u r }

def purge (b : Book) (now : Instant) : Book :=
  { b with ends := fun user role => (b.ends user role).filter fun ends => !isOver now ends }

def refusal (b : Book) (now : Instant) : Request → Option Fault
  | .createRole draft _ =>
    match Name.ofText draft.name with
    | .error fault => some fault
    | .ok _ => none
  | .deleteRole id _ => if b.roles id then none else some (.roleNotFound id)
  | .assign user role _ _ =>
    if b.roles role then
      match b.ends user role with
      | some ends => if isOver now ends then none else some (.alreadyAssigned role user)
      | none => none
    else some (.roleNotFound role)
  | .unassign user role _ =>
    match b.ends user role with
    | some ends => if isOver now ends then some (.notAssigned role user) else none
    | none => some (.notAssigned role user)
  | .sweep batchSize _ => if batchSize = 0 then some .emptyBatch else none
  | _ => none

def next (b : Book) (now : Instant) (nextId : Uuid) (q : Request) : Book :=
  match q, b.refusal now q with
  | .createRole _ _, none => b.define ⟨nextId⟩
  | .deleteRole id _, none => b.forget id
  | .assign user role expiresAt _, none => b.set user role (some expiresAt)
  | .unassign user role _, _ => b.set user role none
  | .sweep _ _, none => b.purge now
  | _, _ => b

end Book

structure Act where
  now : Instant
  nextId : Uuid
  request : Request

def Book.after (b : Book) (acts : List Act) : Book :=
  acts.foldl (fun b act => b.next act.now act.nextId act.request) b

namespace Store

def book (s : Store) : Book :=
  ⟨s.hasRole, fun user role => (s.findAssignment user role).map (·.expiresAt)⟩

variable {s t : Store} {user : UserId} {role : RoleId} {a : Assignment}

theorem Distinct.find_filter (h : Distinct s.rows) (p : Assignment → Bool) (user : UserId)
    (role : RoleId) : ({ s with rows := s.rows.filter p } : Store).findAssignment user role =
      (s.findAssignment user role).filter p := by
  ext a
  have hfilter : Distinct ({ s with rows := s.rows.filter p } : Store).rows := h.filter p
  rw [hfilter.findAssignment_iff, Option.filter_eq_some_iff, h.findAssignment_iff, List.mem_filter]
  tauto

/-- Rows that do not pass a test leave the book. -/
theorem Distinct.ends_filter (h : Distinct s.rows) {p : Assignment → Bool}
    (rows : t.rows = s.rows.filter p) (user : UserId) (role : RoleId) :
    t.book.ends user role = ((s.findAssignment user role).filter p).map (·.expiresAt) := by
  rw [← h.find_filter p user role, ← rows]
  rfl

theorem book_define (s : Store) (role : Role) :
    ({ s with roles := s.roles ++ [role] } : Store).book = s.book.define role.id :=
  Book.ext (funext fun other => by simp [book, hasRole, Book.define]) rfl

theorem book_forget (h : Distinct s.rows) {id : RoleId} (ok : s.deleteRole id = .ok t) :
    t.book = s.book.forget id := by
  refine Book.ext (funext (hasRole_deleteRole_other ok)) (funext fun user => funext fun role => ?_)
  rw [h.ends_filter (p := fun a => a.roleId ≠ id) (by rw [(deleteRole_ok.mp ok).2])]
  show _ = if role = id then none else (s.findAssignment user role).map _
  cases hf : s.findAssignment user role with
  | none => simp
  | some a =>
    obtain ⟨-, -, rfl⟩ := findAssignment_mem hf
    split <;> simp_all [Option.filter_some]

theorem book_purge (h : Distinct s.rows) {now : Instant} (roles : t.roles = s.roles)
    (rows : t.rows = s.rows.filter fun a => !a.isExpiredAt now) : t.book = s.book.purge now := by
  have hasRole : ∀ id, t.hasRole id = s.hasRole id := hasRole_of_map_id (by rw [roles])
  refine Book.ext (funext hasRole) (funext fun user => funext fun role => ?_)
  rw [h.ends_filter rows]
  show _ = ((s.findAssignment user role).map _).filter _
  rw [Option.filter_map]
  rfl

end Store

theorem filter_not_mem_toList {α : Type} [DecidableEq α] (o : Option α) :
    (o.filter fun a => a ∉ o.toList) = none := by
  cases o <;> simp

namespace World

variable {κ : Type} {w u v : World κ} {removed granted : List Assignment} {a : Assignment}
  {user : UserId} {role : RoleId}

structure Reworks (removed granted : List Assignment) (w v : World κ) : Prop where
  nodup : removed.Nodup
  stored : ∀ a ∈ removed, a ∈ w.store.rows
  rows : v.store.rows = (w.store.rows.filter fun a => a ∉ removed) ++ granted
  hasRole : ∀ id, v.store.hasRole id = w.store.hasRole id
  events : v.effects.events = w.effects.events ++
    (removed.map .userRoleUnassigned ++ granted.map .userRoleAssigned)

theorem Removes.reworks (h : Removes removed w v) : Reworks removed [] w v where
  nodup := h.nodup
  stored := h.stored
  rows := by rw [h.rows, List.append_nil]
  hasRole := Store.hasRole_of_map_id (by rw [h.roles])
  events := by rw [h.events, List.map_nil, List.append_nil]

namespace Reworks

theorem noted (h : Reworks removed granted w u) (noted : Noted u v) :
    Reworks removed granted w v := by
  obtain ⟨effects, rfl, he⟩ := noted
  exact { h with events := he.trans h.events }

/-- The last use of a role may be noted in between. -/
theorem touched (h : Reworks removed granted w u) (id : RoleId) (usedAt : Instant) :
    Reworks removed granted w (u.setStore (u.store.touchRole id usedAt)) :=
  { h with hasRole := fun other => (Store.hasRole_touchRole _ _ _ other).trans (h.hasRole other) }

theorem find (h : Reworks removed granted w v) (hs : Store.Distinct w.store.rows) (user : UserId)
    (role : RoleId) : v.store.findAssignment user role =
      ((w.store.findAssignment user role).filter fun a => a ∉ removed).or
        (granted.find? fun a => a.userId = user ∧ a.roleId = role) := by
  rw [Store.findAssignment, h.rows, List.find?_append]
  exact congrArg (Option.or · _) (hs.find_filter _ user role)

theorem book_set (h : Reworks (w.store.findAssignment user role).toList granted w v)
    (hs : Store.Distinct w.store.rows) (hg : ∀ a ∈ granted, a.userId = user ∧ a.roleId = role) :
    v.store.book = w.store.book.set user role (granted.head?.map (·.expiresAt)) := by
  refine Book.ext (funext h.hasRole) (funext fun u => funext fun r => ?_)
  show (v.store.findAssignment u r).map _ = if u = user ∧ r = role then _ else _
  rw [h.find hs]
  split
  · next same =>
    obtain ⟨rfl, rfl⟩ := same
    rw [filter_not_mem_toList, Option.none_or]
    cases granted with
    | nil => rfl
    | cons a rest => rw [List.find?_cons_of_pos (by simpa using hg a List.mem_cons_self)]; rfl
  · next other =>
    have kept : (w.store.findAssignment u r).filter
        (fun a => a ∉ (w.store.findAssignment user role).toList) = w.store.findAssignment u r := by
      cases hb : w.store.findAssignment u r with
      | none => rfl
      | some b =>
        refine Option.filter_some_pos (decide_eq_true fun removed => other ?_)
        obtain ⟨-, hu, hr⟩ := Store.findAssignment_mem hb
        obtain ⟨-, hu', hr'⟩ := Store.findAssignment_mem (Option.mem_toList.mp removed)
        exact ⟨hu.symm.trans hu', hr.symm.trans hr'⟩
    have new : (granted.find? fun a => a.userId = u ∧ a.roleId = r) = none := by
      refine List.find?_eq_none.mpr fun a ha => ?_
      obtain ⟨rfl, rfl⟩ := hg a ha
      simpa using fun hu hr => other ⟨hu.symm, hr.symm⟩
    rw [kept, new, Option.or_none]
    rfl

end Reworks

theorem Reworks.mem_removed (h : Reworks removed granted w v)
    (new : ∀ a ∈ granted, a ∉ w.store.rows) : a ∈ removed ↔ a ∈ w.store.rows ∧ a ∉ v.store.rows := by
  rw [h.rows, List.mem_append, List.mem_filter, decide_eq_true_eq]
  constructor
  · exact fun ha => ⟨h.stored a ha, fun there =>
      there.elim (fun kept => kept.2 ha) fun hg => new a hg (h.stored a ha)⟩
  · rintro ⟨ha, gone⟩
    by_contra kept
    exact gone (.inl ⟨ha, kept⟩)

variable [DecidableEq κ] {k : κ}

theorem Removes.grants (h : Removes removed w u) (a : Assignment) :
    Reworks removed [a] w ((u.setStore { u.store with rows := u.store.rows ++ [a] }).announce k
      (.userRoleAssigned a)) where
  nodup := h.nodup
  stored := h.stored
  rows := congrArg (· ++ [a]) h.rows
  hasRole := h.reworks.hasRole
  events := by
    show u.effects.events ++ [.userRoleAssigned a] = _
    rw [h.events, List.append_assoc]
    rfl

end World

end Entitlement
