import Entitlement.Proofs.Crowd.Course

/-!
# Rows of deleted roles

An assignment looks the role up and stores the row later, and nothing keeps the role in
between. So a row is stored without its role exactly if the role was deleted after it had been
found, and has not been created anew.
-/

set_option autoImplicit false

namespace Entitlement

def Store.RefersToRoles (s : Store) : Prop := ∀ a ∈ s.rows, s.hasRole a.roleId = true

instance (s : Store) : Decidable s.RefersToRoles :=
  inferInstanceAs (Decidable (∀ a ∈ s.rows, _))

namespace Exchange

def defines (id : RoleId) (before : Bool) : Exchange → Bool
  | ⟨.insertRole role, .ok ()⟩ => before || role.id = id
  | ⟨.deleteRole deleted, .ok ()⟩ => before && deleted ≠ id
  | _ => before

variable {x : Exchange} {s t : Store} {id : RoleId}

theorem Fits.defines (fits : x.Fits s t) (id : RoleId) :
    t.hasRole id = x.defines id (s.hasRole id) := by
  unfold Fits at fits
  split at fits
  · exact fits.2 ▸ rfl
  · exact fits.2 ▸ rfl
  · obtain ⟨-, rfl⟩ := Store.insertRole_ok.mp fits
    simp [Store.hasRole, Exchange.defines]
  · obtain ⟨-, rfl⟩ := Store.updateRole_ok.mp fits
    exact Store.hasRole_of_map_id (Store.map_modifyFirst _ _ _ fun r hr => hr.symm) id
  · exact Store.hasRole_deleteRole_other fits id
  · exact fits ▸ Store.hasRole_touchRole _ _ _ id
  · exact fits.2 ▸ rfl
  · exact fits.2 ▸ rfl
  · obtain ⟨-, rfl⟩ := Store.insertAssignment_iff.mp fits
    rfl
  · obtain ⟨-, rfl⟩ := Prod.mk.inj fits
    rfl
  · exact fits.2 ▸ rfl
  · next hinsert _ hdelete _ _ _ _ _ _ =>
    subst fits
    unfold Exchange.defines
    split
    · exact absurd rfl (hinsert _)
    · exact absurd rfl (hdelete _)
    · rfl

theorem deletes_of_defines (h : x.defines id true = false) : x = ⟨.deleteRole id, .ok ()⟩ := by
  unfold defines at h
  split at h
  · simp at h
  · next deleted =>
    obtain rfl : deleted = id := by simpa using h
    rfl
  · simp at h

end Exchange

namespace Trace

variable {κ : Type} {id : RoleId} {trace later : Trace κ}

def defines (id : RoleId) : Trace κ → Bool
  | [] => false
  | .told _ _ x :: earlier => x.defines id (defines id earlier)
  | .heard _ _ :: earlier => defines id earlier

theorem deleted_since (before : trace.defines id = true) (after : defines id (later ++ trace) = false) :
    ∃ i q, .told i q ⟨.deleteRole id, .ok ()⟩ ∈ later := by
  induction later with
  | nil => simp [before] at after
  | cons entry later ih =>
    cases still : defines id (later ++ trace) with
    | false =>
      obtain ⟨i, q, mem⟩ := ih still
      exact ⟨i, q, List.mem_cons_of_mem _ mem⟩
    | true =>
      cases entry with
      | heard party event => exact absurd (still.symm.trans after) (by simp)
      | told i q x =>
        refine ⟨i, q, ?_⟩
        have ended : x.defines id (defines id (later ++ trace)) = false := after
        rw [still] at ended
        rw [Exchange.deletes_of_defines ended]
        exact List.mem_cons_self

def Outdates (i : Nat) (q : Request) (id : RoleId) (trace : Trace κ) : Prop :=
  ∃ definition j r, [.told j r ⟨.deleteRole id, .ok ()⟩,
    .told i q ⟨.findRole id, .ok (some definition)⟩].Sublist trace

end Trace

namespace Crowd

variable {κ : Type} [DecidableEq κ] {terms : Terms κ} {w : World κ} {issued : List Uuid}
  {s t : Crowd κ} {trace earlier : Trace κ} {i : Nat} {q : Request} {a : Assignment}

theorem Course.defines (course : Course terms (begin w issued) trace s) (empty : w.store = .empty)
    (id : RoleId) : s.world.store.hasRole id = trace.defines id := by
  induction course with
  | start =>
    show w.store.hasRole id = false
    rw [empty]
    rfl
  | accepts _ party admitted ih => exact ih
  | @proceeds trace s i party q log c next _ running allowed ih =>
    exact ((World.answer_fits party c s.world).defines id).trans (ih ▸ rfl)
  | arrives _ party announced ih => exact ih
  | passes _ now moment nextId people instancePolicies failing feed ih => exact ih

/-- A row that comes without its role was stored by a request that had been shown the role. -/
theorem Course.outdated (course : Course terms (begin w issued) trace s) (empty : w.store = .empty)
    (stored : .told i q ⟨.insertAssignment a, .ok ()⟩ :: earlier <:+ trace)
    (gone : earlier.defines a.roleId = false) : earlier.Outdates i q a.roleId := by
  obtain ⟨u, t, turn, -⟩ := course.call stored
  obtain ⟨definition, found⟩ := turn.due.defined
  obtain ⟨before, later, rfl⟩ := Trace.exists_suffix (turn.mine _ found)
  obtain ⟨u', t', turn', -⟩ := turn.before.call (List.suffix_append later _)
  have shown : some definition = u'.world.store.findRole a.roleId := turn'.fits.1
  have there : Trace.defines a.roleId
      (.told i q ⟨.findRole a.roleId, .ok (some definition)⟩ :: before) = true :=
    (turn'.before.defines empty a.roleId).symm.trans (Store.hasRole_of_findRole shown.symm)
  obtain ⟨j, r, deleted⟩ := Trace.deleted_since there gone
  exact ⟨definition, j, r,
    (List.singleton_sublist.mpr deleted).append (List.singleton_sublist.mpr List.mem_cons_self)⟩

theorem Course.refers (course : Course terms (begin w issued) trace s) (empty : w.store = .empty)
    (timely : ∀ i q a earlier, .told i q ⟨.insertAssignment a, .ok ()⟩ :: earlier <:+ trace →
      Trace.defines a.roleId earlier = true) :
    s.world.store.RefersToRoles ∧ ∀ t ∈ s.history, t.RefersToRoles := by
  induction course with
  | start =>
    have refers : w.store.RefersToRoles := by
      rw [empty]
      exact fun a ha => by simp [Store.empty] at ha
    exact ⟨refers, fun t ht => List.mem_singleton.mp ht ▸ refers⟩
  | accepts _ party admitted ih => exact ih timely
  | arrives _ party announced ih =>
    exact ih fun i q a earlier h => timely i q a earlier (h.trans (List.suffix_cons _ _))
  | passes _ now moment nextId people instancePolicies failing feed ih => exact ih timely
  | @proceeds trace s i party q log c next before running allowed ih =>
    obtain ⟨current, past⟩ :=
      ih fun i q a earlier h => timely i q a earlier (h.trans (List.suffix_cons _ _))
    have refers : (s.answered i party q log c next).world.store.RefersToRoles := by
      intro a ha
      have fits := World.answer_fits party c s.world
      rcases fits.rewrites.mem ha with old | e
      · rcases fits.hasRole (current a old) with still | e
        · exact still
        · rw [e] at fits
          have dropped := (Store.deleteRole_ok.mp fits).2 ▸ ha
          simp at dropped
      · have there := timely i q a trace (e ▸ List.suffix_refl _)
        rw [← before.defines empty] at there
        exact (fits.defines a.roleId).trans (e ▸ there)
    exact ⟨refers, fun t ht => (List.mem_cons.mp ht).elim (· ▸ refers) (past t)⟩

/-- From an empty store on every row is about a stored role, exactly if no row is stored by a
request that had found the role before it was deleted, unless the role has been created anew. -/
theorem rows_refer_iff (empty : w.store = .empty)
    (course : Course terms (begin w issued) trace s) :
    (∀ t ∈ s.history, t.RefersToRoles) ↔
      ∀ i q a earlier, .told i q ⟨.insertAssignment a, .ok ()⟩ :: earlier <:+ trace →
        Trace.Outdates i q a.roleId earlier → Trace.defines a.roleId earlier = true := by
  constructor
  · intro refers i q a earlier stored _
    obtain ⟨u, t, turn, mem⟩ := course.call stored
    have there : a ∈ t.world.store.rows := by
      rw [(Store.insertAssignment_iff.mp turn.fits).2]
      simp
    have defined := refers _ mem a there
    rwa [turn.fits.defines, turn.before.defines empty] at defined
  · intro timely
    refine (course.refers empty fun i q a earlier stored => ?_).2
    cases there : Trace.defines a.roleId earlier with
    | true => rfl
    | false =>
      exact there.symm.trans (timely i q a earlier stored (course.outdated empty stored there))

/-- Two assignments find the role; one of them stores its row before the role is deleted, the other
one afterwards. -/
theorem rows_refer_iff_overtaken :
    let role : RoleId := ⟨.generated 0⟩
    let w : World Party := World.startingAt default 0
    let s := ((begin w []).acceptAll [(.main, .createRole (.manual "r") none),
      (.main, .assign ⟨.generated 8⟩ role none none), (.peer, .assign ⟨.generated 9⟩ role none none),
      (.peer, .deleteRole role none)]).turns
        (List.replicate 5 0 ++ List.replicate 4 1 ++ List.replicate 8 2 ++ List.replicate 4 3 ++
          List.replicate 4 1)
    ∃ trace, (w.store = .empty ∧ Course (.any Party) (begin w []) trace s) ∧
      (¬ ∀ t ∈ s.history, t.RefersToRoles) ∧
      ((∀ t ∈ s.history, t.RefersToRoles) ↔
        ∀ i q a earlier, .told i q ⟨.insertAssignment a, .ok ()⟩ :: earlier <:+ trace →
          Trace.Outdates i q a.roleId earlier → Trace.defines a.roleId earlier = true) := by
  intro role w s
  have run : Runs (.any Party) (begin w []) s :=
    Runs.turns (Runs.acceptAll .refl fun _ _ => trivial) (fun _ _ _ _ _ _ _ => trivial)
      (show Smooth w.now _ _ by decide +kernel)
  obtain ⟨trace, course⟩ := run.course
  exact ⟨trace, ⟨rfl, course⟩, by decide +kernel, rows_refer_iff rfl course⟩

/-- A role is deleted between the look-up and the row: the assignment succeeds, and its row stays
without the role. -/
theorem row_outlives_role :
    let role : RoleId := ⟨.generated 0⟩
    let w : World Party := World.startingAt default 0
    let s := ((begin w []).acceptAll [(.main, .createRole (.manual "r") none),
      (.main, .assign ⟨.generated 9⟩ role none none), (.peer, .deleteRole role none)]).turns
        (List.replicate 5 0 ++ List.replicate 4 1 ++ List.replicate 4 2 ++ List.replicate 4 1)
    (w.store = .empty ∧ Runs (.any Party) (begin w []) s) ∧
      s.world.store.roles = [] ∧ s.world.store.rows.map (·.roleId) = [role] ∧
      ¬ s.world.store.RefersToRoles := by
  intro role w s
  have run : Runs (.any Party) (begin w []) s :=
    Runs.turns (Runs.acceptAll .refl fun _ _ => trivial) (fun _ _ _ _ _ _ _ => trivial)
      (show Smooth w.now _ _ by decide +kernel)
  exact ⟨⟨rfl, run⟩, by decide +kernel, by decide +kernel, by decide +kernel⟩

end Crowd

end Entitlement
