import Entitlement.Proofs.Cache
import Entitlement.Proofs.World.Moves

/-!
# A change of the store as news

What is stored of a role or of a pair follows from what was stored by the news that the
event of a change brings, and by nothing else. The news always fits what was stored.
-/

set_option autoImplicit false

namespace Entitlement.World

variable {κ : Type} {w : World κ} {e : RoleEvent} {s : Store} {id : RoleId} {user : UserId}

def storedRole (w : World κ) (id : RoleId) : Option Role := RoleSnapshot.shown id w.store.roles

theorem shown_eq_findRole (s : Store) (id : RoleId) :
    RoleSnapshot.shown id s.roles = (s.findRole id).map Role.definition := rfl

theorem shown_none_iff (s : Store) (id : RoleId) :
    RoleSnapshot.shown id s.roles = none ↔ s.hasRole id = false := by
  rw [shown_eq_findRole, Option.map_eq_none_iff, Store.findRole_none]

theorem shown_modifyFirst_keep {f : Role → Role} {target : RoleId} (roles : List Role)
    (hid : ∀ r, (f r).id = r.id) (hdef : ∀ r, (f r).definition = r.definition) :
    RoleSnapshot.shown id (Store.modifyFirst target f roles) = RoleSnapshot.shown id roles := by
  induction roles with
  | nil => rfl
  | cons r rest ih =>
    unfold Store.modifyFirst
    split
    · rw [RoleSnapshot.shown_cons, RoleSnapshot.shown_cons, hid, hdef]
    · rw [RoleSnapshot.shown_cons, RoleSnapshot.shown_cons, ih]

theorem shown_modifyFirst_self {role : Role} (roles : List Role)
    (h : RoleSnapshot.shown role.id roles ≠ none) :
    RoleSnapshot.shown role.id (Store.modifyFirst role.id (fun _ => role) roles) =
      some role.definition := by
  induction roles with
  | nil => exact absurd rfl h
  | cons r rest ih =>
    unfold Store.modifyFirst
    split
    · rw [RoleSnapshot.shown_cons, if_pos rfl]
    · next hr =>
      rw [RoleSnapshot.shown_cons, if_neg hr] at h ⊢
      exact ih h

theorem shown_modifyFirst_other {role : Role} (roles : List Role) (hne : role.id ≠ id) :
    RoleSnapshot.shown id (Store.modifyFirst role.id (fun _ => role) roles) =
      RoleSnapshot.shown id roles := by
  induction roles with
  | nil => rfl
  | cons r rest ih =>
    unfold Store.modifyFirst
    split
    · next hr =>
      rw [RoleSnapshot.shown_cons, RoleSnapshot.shown_cons, if_neg hne, if_neg (hr ▸ hne)]
    · rw [RoleSnapshot.shown_cons, RoleSnapshot.shown_cons, ih]

theorem newsOf_of_unused (h : w.Unused id.uuid) {f : RoleEvent} (hf : f ∈ w.effects.events) :
    f.newsOf id = none := by
  have hid := h f hf
  cases f <;> simp only [RoleEvent.newsOf, RoleEvent.ids, List.mem_singleton] at hid ⊢
  all_goals exact if_neg fun e => hid (by rw [e])

theorem newsOfPair_of_unused (h : w.Unused id.uuid) {f : RoleEvent}
    (hf : f ∈ w.effects.events) : f.newsOfPair user id = none := by
  have hid := h f hf
  cases f <;> simp only [RoleEvent.newsOfPair, RoleEvent.ids, List.mem_cons, not_or] at hid ⊢
  all_goals exact if_neg fun e => hid.2.1 (by rw [e.2])

theorem Change.role_news (h : w.Change e s) {n : RoleNews} (hn : e.newsOf id = some n) :
    n.Fits (w.storedRole id) ∧ RoleSnapshot.shown id s.roles = n.apply (w.storedRole id) ∧
      ∀ r, n = .created r → w.Unused id.uuid := by
  cases h with
  | assigned fresh hasRole ok => simp [RoleEvent.newsOf] at hn
  | unassigned stored => simp [RoleEvent.newsOf] at hn
  | @created role s fresh ok =>
    obtain ⟨rfl, rfl⟩ : role.id = id ∧ .created role.definition = n := by
      simpa [RoleEvent.newsOf] using hn
    obtain ⟨hnew, rfl⟩ := Store.insertRole_ok.mp ok
    have hnone : w.storedRole role.id = none := (shown_none_iff _ _).mpr hnew
    refine ⟨hnone, ?_, fun _ _ => fresh⟩
    show RoleSnapshot.shown role.id (w.store.roles ++ [role]) = _
    rw [RoleSnapshot.shown_append_singleton, ← storedRole, hnone]
    simp [RoleNews.apply]
  | @updated before role s found later ok =>
    obtain ⟨rfl, rfl⟩ : role.id = id ∧ .updated role.definition = n := by
      simpa [RoleEvent.newsOf] using hn
    obtain ⟨-, rfl⟩ := Store.updateRole_ok.mp ok
    have hsome : w.storedRole role.id = some before.definition := by
      rw [storedRole, shown_eq_findRole, found]
      rfl
    refine ⟨⟨_, hsome, later⟩, ?_, fun r hr => by simp at hr⟩
    have hnewer : (RoleNews.updated role.definition).apply (some before.definition) =
        some role.definition := RoleNews.apply_older later rfl
    rw [hsome, hnewer]
    exact shown_modifyFirst_self _ (by rw [← storedRole, hsome]; simp)
  | @deleted role s found ok =>
    obtain ⟨rfl, rfl⟩ : role.id = id ∧ .deleted = n := by simpa [RoleEvent.newsOf] using hn
    obtain ⟨-, rfl⟩ := Store.deleteRole_ok.mp ok
    refine ⟨?_, ?_, fun r hr => by simp at hr⟩
    · show (w.storedRole role.id).isSome
      rw [storedRole, shown_eq_findRole, found]
      rfl
    · exact RoleSnapshot.shown_none.mpr fun r hr => by simpa using (List.mem_filter.mp hr).2

theorem Change.role_kept (h : w.Change e s) (hw : w.Sound) (hn : e.newsOf id = none) :
    RoleSnapshot.shown id s.roles = w.storedRole id := by
  cases h with
  | assigned fresh hasRole ok =>
    obtain ⟨-, rfl⟩ := (Store.insertAssignment_ok (hw.new_row fresh)).mp ok
    rfl
  | unassigned stored => rfl
  | @created role s fresh ok =>
    obtain ⟨-, rfl⟩ := Store.insertRole_ok.mp ok
    have hne : role.id ≠ id := by simpa [RoleEvent.newsOf] using hn
    show RoleSnapshot.shown id (w.store.roles ++ [role]) = _
    rw [RoleSnapshot.shown_append_singleton, if_neg hne, Option.or_none]
    rfl
  | @updated before role s found later ok =>
    obtain ⟨-, rfl⟩ := Store.updateRole_ok.mp ok
    exact shown_modifyFirst_other _ (by simpa [RoleEvent.newsOf] using hn)
  | @deleted role s found ok =>
    obtain ⟨-, rfl⟩ := Store.deleteRole_ok.mp ok
    have hne : role.id ≠ id := by simpa [RoleEvent.newsOf] using hn
    exact congrArg (Option.map _) (Keyed.find_filter_ne Role.id hne.symm)

theorem findAssignment_of_rows {t : Store} (h : t.rows = s.rows) (user : UserId) (id : RoleId) :
    t.findAssignment user id = s.findAssignment user id := by
  rw [Store.findAssignment, h, Store.findAssignment]

theorem Change.pair_news (h : w.Change e s) (hw : w.Sound) {n : RowNews}
    (hn : e.newsOfPair user id = some n) :
    n.Fits (w.store.findAssignment user id) ∧
      s.findAssignment user id = n.apply (w.store.findAssignment user id) := by
  cases h with
  | created fresh ok => simp [RoleEvent.newsOfPair] at hn
  | updated found later ok => simp [RoleEvent.newsOfPair] at hn
  | deleted found ok => simp [RoleEvent.newsOfPair] at hn
  | @assigned a s fresh hasRole ok =>
    obtain ⟨⟨rfl, rfl⟩, rfl⟩ : (a.userId = user ∧ a.roleId = id) ∧ .granted a = n := by
      simpa [RoleEvent.newsOfPair] using hn
    obtain ⟨hfree, rfl⟩ := (Store.insertAssignment_ok (hw.new_row fresh)).mp ok
    constructor
    · exact hfree
    · rw [hfree]
      rw [Store.findAssignment_append, hfree]
      simp [RowNews.apply]
  | @unassigned a stored =>
    obtain ⟨⟨rfl, rfl⟩, rfl⟩ : (a.userId = user ∧ a.roleId = id) ∧ .revoked a = n := by
      simpa [RoleEvent.newsOfPair] using hn
    have hfound : w.store.findAssignment a.userId a.roleId = some a :=
      hw.store.findAssignment_iff.mpr ⟨stored, rfl, rfl⟩
    constructor
    · exact hfound
    · rw [hfound]
      simp only [RowNews.apply, Option.filter_some, ne_eq, not_true_eq_false, decide_false,
        Bool.false_eq_true, if_false]
      exact hw.store.findAssignment_deleteAssignment stored

/-- A pair of a role that stays keeps its row unless the event is about the pair. -/
theorem Change.pair_kept (h : w.Change e s) (hw : w.Sound) (hafter : s.hasRole id = true)
    (hn : e.newsOfPair user id = none) :
    s.findAssignment user id = w.store.findAssignment user id := by
  cases h with
  | created fresh ok =>
    obtain ⟨-, rfl⟩ := Store.insertRole_ok.mp ok
    rfl
  | updated found later ok =>
    obtain ⟨-, rfl⟩ := Store.updateRole_ok.mp ok
    rfl
  | @deleted role s found ok =>
    have hs := Store.deleteRole_sound hw.store ok
    have hne : id ≠ role.id := by
      rintro rfl
      simp [Store.hasRole_deleteRole ok] at hafter
    obtain ⟨-, rfl⟩ := Store.deleteRole_ok.mp ok
    ext a
    rw [hs.findAssignment_iff, hw.store.findAssignment_iff]
    simp only [List.mem_filter, decide_eq_true_eq]
    constructor
    · intro h
      exact ⟨h.1.1, h.2⟩
    · intro h
      exact ⟨⟨h.1, h.2.2 ▸ hne⟩, h.2⟩
  | @assigned a s fresh hasRole ok =>
    obtain ⟨-, rfl⟩ := (Store.insertAssignment_ok (hw.new_row fresh)).mp ok
    have hne : ¬ (a.userId = user ∧ a.roleId = id) := by simpa [RoleEvent.newsOfPair] using hn
    rw [Store.findAssignment_append, if_neg hne, Option.or_none]
  | @unassigned a stored =>
    have hne : ¬ (a.userId = user ∧ a.roleId = id) := by simpa [RoleEvent.newsOfPair] using hn
    ext b
    rw [(Store.deleteAssignment_sound hw.store _).findAssignment_iff,
      hw.store.findAssignment_iff, Store.mem_deleteAssignment]
    constructor
    · intro h
      exact ⟨h.1.1, h.2⟩
    · refine fun h => ⟨⟨h.1, fun hid => hne ?_⟩, h.2⟩
      rw [← hw.store.row_of_id h.1 stored hid]
      exact h.2

/-- A role that appears was never spoken of, and its pairs have no rows. -/
theorem Change.new_role (h : w.Change e s) (hw : w.Sound) (hbefore : w.store.hasRole id = false)
    (hafter : s.hasRole id = true) (user : UserId) :
    w.Unused id.uuid ∧ e.newsOfPair user id = none ∧ s.findAssignment user id = none := by
  have hgone (roles : List Role) (hr : roles.map (·.id) = w.store.roles.map (·.id))
      (rows : List Assignment) : (⟨roles, rows⟩ : Store).hasRole id = false :=
    (Store.hasRole_of_map_id hr id).trans hbefore
  cases h with
  | @created role s fresh ok =>
    obtain ⟨-, rfl⟩ := Store.insertRole_ok.mp ok
    obtain ⟨r, hr, rfl⟩ := Store.hasRole_iff.mp hafter
    rcases List.mem_append.mp hr with hr | hr
    · exact absurd (Store.hasRole_iff.mpr ⟨r, hr, rfl⟩) (by simp [hbefore])
    · obtain rfl := List.mem_singleton.mp hr
      refine ⟨fresh, rfl, Store.findAssignment_none.mpr fun a ha _ hrole => ?_⟩
      have := hw.store.rows_role a ha
      rw [hrole, hbefore] at this
      simp at this
  | updated found later ok =>
    obtain ⟨-, rfl⟩ := Store.updateRole_ok.mp ok
    rw [hgone _ (Store.map_modifyFirst _ _ _ fun r hr => hr.symm)] at hafter
    simp at hafter
  | deleted found ok =>
    obtain ⟨-, rfl⟩ := Store.deleteRole_ok.mp ok
    obtain ⟨r, hr, hid⟩ := Store.hasRole_iff.mp hafter
    have := Store.hasRole_iff.mpr ⟨r, List.mem_of_mem_filter hr, hid⟩
    simp [hbefore] at this
  | assigned fresh hasRole ok =>
    obtain ⟨-, rfl⟩ := (Store.insertAssignment_ok (hw.new_row fresh)).mp ok
    simp [hgone _ rfl] at hafter
  | unassigned stored => simp [Store.deleteAssignment, hgone _ rfl] at hafter

end Entitlement.World
