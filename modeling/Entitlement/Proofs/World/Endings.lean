import Entitlement.Proofs.Asks
import Entitlement.Proofs.Store
import Entitlement.Proofs.World.Perform

/-!
# How requests end

While the store and the feed answer, a request that edits roles or rows is refused, or it makes
its changes, announces each and adds notes. Each of them is taken apart once, into the ways it
can end.
-/

set_option autoImplicit false

namespace Entitlement.World

variable {κ α β : Type} {w v : World κ}

theorem change_error {result : Except Fault Store} {fault : Fault} (h : result = .error fault) :
    w.change result = (.error fault, w) := by
  rw [h]
  rfl

theorem change_ok {result : Except Fault Store} {s : Store} (h : result = .ok s) :
    w.change result = (.ok (), w.setStore s) := by
  rw [h]
  rfl

variable [DecidableEq κ] {k : κ}

theorem perform_announced {x : Service Unit} {e : RoleEvent} {s : Store} {f : Service β}
    (hw : w.Reliable) (h : perform k x w = (.ok (), w.setStore s)) :
    perform k (do x; Service.emit e; f) w = perform k f ((w.setStore s).announce k e) := by
  rw [perform_bind_ok _ h, perform_bind_ok _ (perform_emit (w := w.setStore s) hw e)]

theorem answer_inquiry {c : Call} (hc : c.IsInquiry) : Noted w (answer k c w).2 := by
  cases c <;> first
    | exact hc.elim
    | (simp only [answer, Call.failed?]
       split <;> exact ⟨_, rfl, rfl⟩)

theorem runOn_inquires {p : Procedure α} (hp : p.Asks Call.IsInquiry) :
    Noted w (p.runOn (answer k) w).2 := by
  induction hp generalizing w with
  | done a => exact .refl w
  | call asked _ ih => exact (answer_inquiry asked).trans (ih _)

theorem answer_notify (user : UserId) (n : Notification) :
    Noted w (answer k (.notify user n) w).2 := by
  simp only [answer, Call.failed?, serve]
  split
  · exact .refl w
  · dsimp only
    split
    · exact ⟨_, rfl, rfl⟩
    · exact .refl w

theorem answer_record (entry : ModerationEntry) : Noted w (answer k (.record entry) w).2 := by
  simp only [answer, Call.failed?, serve]
  split
  · exact .refl w
  · dsimp only
    split
    · exact ⟨_, rfl, rfl⟩
    · exact .refl w

theorem perform_notify (user : UserId) (n : Notification) :
    ∃ v, perform k (Service.notify user n) w = (.ok (), v) ∧ Noted w v :=
  ⟨_, perform_courtesy _, answer_notify user n⟩

theorem perform_record (actor : Option Actor) (action : ModerationAction) (details : Json) :
    ∃ v, perform k (Service.record actor action details) w = (.ok (), v) ∧ Noted w v := by
  cases actor with
  | none => exact ⟨w, rfl, .refl w⟩
  | some actor => exact ⟨_, perform_courtesy _, answer_record _⟩

theorem perform_record_return (actor : Option Actor) (action : ModerationAction) (details : Json)
    (a : α) : ∃ v,
      perform k (do Service.record actor action details; return a) w = (.ok a, v) ∧ Noted w v := by
  obtain ⟨v, hv, noted⟩ := perform_record (k := k) (w := w) actor action details
  exact ⟨v, perform_bind_ok _ hv, noted⟩

theorem perform_notify_record_return (tells : Bool) (user : UserId) (notice : Notification)
    (actor : Option Actor) (action : ModerationAction) (details : Json) (a : α) :
    ∃ v, perform k (do
        if tells then Service.notify user notice
        Service.record actor action details
        return a) w = (.ok a, v) ∧ Noted w v := by
  cases tells with
  | false => exact perform_record_return actor action details a
  | true =>
    obtain ⟨u, hu, notified⟩ := perform_notify (k := k) (w := w) user notice
    obtain ⟨v, hv, noted⟩ := perform_record_return (k := k) (w := u) actor action details a
    exact ⟨v, (perform_bind_ok _ hu).trans hv, notified.trans noted⟩

section

variable {draft : RoleDraft} {id : RoleId} {now : Instant}

theorem draft_gives {role : Role} (h : draft.role id now = .ok role) :
    Name.ofText draft.name = .ok role.name ∧ role.id = id ∧ role.updatedAt = now ∧
      role.lastUsedAt = now := by
  simp only [RoleDraft.role] at h
  cases hn : Name.ofText draft.name with
  | error fault => simp [hn, bind, Except.bind] at h
  | ok name =>
    rw [hn] at h
    obtain rfl := Except.ok.inj h
    exact ⟨rfl, rfl, rfl, rfl⟩

theorem draft_refused {fault : Fault} (h : draft.role id now = .error fault) :
    Name.ofText draft.name = .error fault := by
  simp only [RoleDraft.role] at h
  cases hn : Name.ofText draft.name with
  | error refusal =>
    rw [hn] at h
    exact congrArg Except.error (Except.error.inj h)
  | ok name => simp [hn, bind, Except.bind, pure, Except.pure] at h

end

theorem edit_keeps {edit : RoleEdit} {before after : Role} (h : edit.apply before = .ok after) :
    after.id = before.id ∧ after.updatedAt = before.updatedAt ∧
      after.lastUsedAt = before.lastUsedAt := by
  simp only [RoleEdit.apply] at h
  cases hn : edit.name with
  | none =>
    rw [hn] at h
    obtain rfl := Except.ok.inj h
    exact ⟨rfl, rfl, rfl⟩
  | some s =>
    cases ht : Name.ofText s with
    | error fault => simp [hn, ht, bind, Except.bind] at h
    | ok name =>
      simp only [hn, ht] at h
      obtain rfl := Except.ok.inj h
      exact ⟨rfl, rfl, rfl⟩

/-- A role is refused and nothing changes, or it is stored and announced. -/
theorem createRole_cases (hw : w.Reliable) (draft : RoleDraft) (actor : Option Actor) :
    (∃ fault, (draft.role ⟨w.nextId⟩ w.now >>= w.store.insertRole) = .error fault ∧
      perform k (Service.createRole draft actor) w = (.error fault, w)) ∨
    ∃ role s v, draft.role ⟨w.nextId⟩ w.now = .ok role ∧ w.store.insertRole role = .ok s ∧
      perform k (Service.createRole draft actor) w = (.ok role, v) ∧
      Noted ((w.setStore s).announce k (.roleCreated role)) v := by
  rw [Service.createRole, perform_bind_ok _ perform_now, perform_bind_ok _ perform_newId]
  cases hd : draft.role ⟨w.nextId⟩ w.now with
  | error fault => exact .inl ⟨fault, rfl, perform_bind_error _ (perform_ofExcept _)⟩
  | ok role =>
    rw [perform_bind_ok _ (perform_ofExcept _)]
    have stores := perform_insertRole (k := k) hw role
    cases hs : w.store.insertRole role with
    | error fault =>
      exact .inl ⟨fault, hs, perform_bind_error _ (stores.trans (change_error hs))⟩
    | ok s =>
      rw [perform_announced hw (stores.trans (change_ok hs))]
      obtain ⟨v, hv, noted⟩ := perform_record_return (k := k)
        (w := (w.setStore s).announce k (.roleCreated role)) actor .createRole _ role
      exact .inr ⟨role, s, v, rfl, hs, hv, noted⟩

theorem updateRole_cases (hw : w.Reliable) (id : RoleId) (edit : RoleEdit)
    (actor : Option Actor) :
    (∃ fault, perform k (Service.updateRole id edit actor) w = (.error fault, w)) ∨
    ∃ before edited after s v, w.store.findRole id = some before ∧
      edit.apply before = .ok edited ∧
      after = { edited with updatedAt := max w.now before.updatedAt } ∧
      w.store.updateRole after = .ok s ∧
      perform k (Service.updateRole id edit actor) w = (.ok after, v) ∧
      Noted ((w.setStore s).announce k (.roleUpdated after)) v := by
  rw [Service.updateRole, perform_bind_ok _ (perform_findRole hw id)]
  cases hf : w.store.findRole id with
  | none => exact .inl ⟨_, perform_bind_error _ (perform_require_none _)⟩
  | some before =>
    rw [perform_bind_ok _ (perform_require_some _ _)]
    cases he : edit.apply before with
    | error fault => exact .inl ⟨fault, perform_bind_error _ (perform_ofExcept _)⟩
    | ok edited =>
      rw [perform_bind_ok _ (perform_ofExcept _), perform_bind_ok _ perform_now]
      generalize hafter : { edited with updatedAt := max w.now before.updatedAt } = after
      have stores := perform_storeRole (k := k) hw after
      cases hs : w.store.updateRole after with
      | error fault => exact .inl ⟨fault, perform_bind_error _ (stores.trans (change_error hs))⟩
      | ok s =>
        rw [perform_announced hw (stores.trans (change_ok hs))]
        obtain ⟨v, hv, noted⟩ := perform_record_return (k := k)
          (w := (w.setStore s).announce k (.roleUpdated after)) actor .updateRole _ after
        exact .inr ⟨before, edited, after, s, v, rfl, he, hafter.symm, hs, hv, noted⟩

theorem deleteRole_cases (hw : w.Reliable) (id : RoleId) (actor : Option Actor) :
    (w.store.findRole id = none ∧
      perform k (Service.deleteRole id actor) w = (.error (.roleNotFound id), w)) ∨
    ∃ role s v, w.store.findRole id = some role ∧ w.store.deleteRole id = .ok s ∧
      perform k (Service.deleteRole id actor) w = (.ok (), v) ∧
      Noted ((w.setStore s).announce k (.roleDeleted role)) v := by
  rw [Service.deleteRole, perform_bind_ok _ (perform_findRole hw id)]
  cases hf : w.store.findRole id with
  | none => exact .inl ⟨rfl, perform_bind_error _ (perform_require_none _)⟩
  | some role =>
    obtain ⟨s, hs⟩ : ∃ s, w.store.deleteRole id = .ok s :=
      ⟨_, Store.deleteRole_ok.mpr ⟨Store.hasRole_of_findRole hf, rfl⟩⟩
    rw [perform_bind_ok _ (perform_require_some _ _),
      perform_announced hw ((perform_removeRole hw id).trans (change_ok hs))]
    obtain ⟨v, hv, noted⟩ := perform_record (k := k)
      (w := (w.setStore s).announce k (.roleDeleted role)) actor .deleteRole _
    exact .inr ⟨role, s, v, rfl, hs, hv, noted⟩

theorem deleteRole_ok (hw : w.Reliable) {id : RoleId} {actor : Option Actor}
    (ok : perform k (Service.deleteRole id actor) w = (.ok (), v)) :
    ∃ role s, w.store.findRole id = some role ∧ w.store.deleteRole id = .ok s ∧
      Noted ((w.setStore s).announce k (.roleDeleted role)) v := by
  rcases deleteRole_cases (k := k) hw id actor with ⟨-, h⟩ | ⟨role, s, u, hf, hs, h, noted⟩
  · simp [h] at ok
  · obtain rfl := (Prod.mk.inj (h.symm.trans ok)).2
    exact ⟨role, s, hf, hs, noted⟩

def dropping (k : κ) (w : World κ) : Option Assignment → World κ
  | some a => (w.setStore (w.store.deleteAssignment a.id).2).announce k (.userRoleUnassigned a)
  | none => w

theorem Reliable.dropping (hw : w.Reliable) (a? : Option Assignment) :
    (w.dropping k a?).Reliable := by
  cases a? <;> exact hw

theorem dropping_roles (a? : Option Assignment) :
    (w.dropping k a?).store.roles = w.store.roles := by
  cases a? <;> rfl

theorem dropping_nextId (a? : Option Assignment) : (w.dropping k a?).nextId = w.nextId := by
  cases a? <;> rfl

theorem removeExpired_drops (hw : w.Reliable) {a : Assignment} (ha : a ∈ w.store.rows) :
    perform k (Service.removeExpired a) w = (.ok (), w.dropping k (some a)) := by
  have hdelete := perform_deleteAssignment (k := k) hw a.id
  rw [Store.deleteAssignment_of_mem ha] at hdelete
  rw [Service.removeExpired, perform_bind_ok _ hdelete]
  exact perform_emit (w := w.setStore (w.store.deleteAssignment a.id).2) hw _

/-- Way is made by dropping the row of the pair, if there is one and it has expired. -/
theorem vacate_cases (hw : w.Reliable) (user : UserId) (role : RoleId) (time : Instant) :
    (∃ a, w.store.findAssignment user role = some a ∧ a.isActiveAt time = true ∧
      perform k (Service.vacate user role time) w = (.error (.alreadyAssigned role user), w)) ∨
    ((∀ a, w.store.findAssignment user role = some a → a.isExpiredAt time = true) ∧
      perform k (Service.vacate user role time) w =
        (.ok (), w.dropping k (w.store.findAssignment user role))) := by
  rw [Service.vacate, perform_bind_ok _ (perform_findAssignment hw user role)]
  cases hf : w.store.findAssignment user role with
  | none => exact .inr ⟨by simp, rfl⟩
  | some a =>
    cases active : a.isActiveAt time with
    | true => exact .inl ⟨a, rfl, active, by simp [active]⟩
    | false =>
      have expired : a.isExpiredAt time = true := by simpa [Assignment.isActiveAt] using active
      refine .inr ⟨fun b hb => Option.some.inj hb ▸ expired, ?_⟩
      simpa [active] using removeExpired_drops hw (Store.findAssignment_mem hf).1

/-- The last use is noted before a row is announced, which makes no difference. -/
theorem assign_cases (hw : w.Reliable) (user : UserId) (role : RoleId)
    (expiresAt : Option Instant) (actor : Option Actor) :
    (w.store.findRole role = none ∧
      perform k (Service.assign user role expiresAt actor) w = (.error (.roleNotFound role), w)) ∨
    ∃ definition, w.store.findRole role = some definition ∧
      ((∃ a, w.store.findAssignment user role = some a ∧ a.isActiveAt w.now = true ∧
        perform k (Service.assign user role expiresAt actor) w =
          (.error (.alreadyAssigned role user), w)) ∨
      ∃ u row, u = w.dropping k (w.store.findAssignment user role) ∧
        row = ⟨⟨w.nextId⟩, role, user, expiresAt, w.now⟩ ∧
        (∀ a, w.store.findAssignment user role = some a → a.isExpiredAt w.now = true) ∧
        ((∃ fault, u.store.insertAssignment row = .error fault ∧
          perform k (Service.assign user role expiresAt actor) w = (.error fault, u)) ∨
        ∃ s x v, u.store.insertAssignment row = .ok s ∧
          x = (u.setStore s).announce k (.userRoleAssigned row) ∧
          perform k (Service.assign user role expiresAt actor) w = (.ok row, v) ∧
          Noted (x.setStore (x.store.touchRole role w.now)) v)) := by
  rw [Service.assign, perform_bind_ok _ perform_now, perform_bind_ok _ (perform_findRole hw role)]
  cases hf : w.store.findRole role with
  | none => exact .inl ⟨rfl, perform_bind_error _ (perform_require_none _)⟩
  | some definition =>
    refine .inr ⟨definition, rfl, ?_⟩
    rw [perform_bind_ok _ (perform_require_some _ _)]
    rcases vacate_cases (k := k) hw user role w.now with ⟨a, ha, active, h⟩ | ⟨expired, h⟩
    · exact .inl ⟨a, ha, active, perform_bind_error _ h⟩
    · refine .inr ⟨_, _, rfl, rfl, expired, ?_⟩
      rw [perform_bind_ok _ h, perform_bind_ok _ perform_newId, dropping_nextId]
      have works := hw.dropping (k := k) (w.store.findAssignment user role)
      generalize w.dropping k (w.store.findAssignment user role) = u at works
      generalize (⟨⟨w.nextId⟩, role, user, expiresAt, w.now⟩ : Assignment) = row
      have stores := perform_insertAssignment (k := k) works row
      cases hi : u.store.insertAssignment row with
      | error fault => exact .inl ⟨fault, rfl, perform_bind_error _ (stores.trans (change_error hi))⟩
      | ok s =>
        rw [perform_bind_ok _ (stores.trans (change_ok hi)),
          perform_announced (w := u.setStore s) works
            (perform_touch (w := u.setStore s) works role w.now)]
        obtain ⟨v, hv, noted⟩ := perform_notify_record_return (k := k)
          (w := ((u.setStore s).setStore ((u.setStore s).store.touchRole role w.now)).announce k
            (.userRoleAssigned row)) definition.isPublic user (.roleAssigned role) actor
          .assignRole _ row
        exact .inr ⟨s, _, v, rfl, rfl, hv, noted⟩

/-- A row that has expired is dropped although the revocation fails. -/
theorem unassign_cases (hw : w.Reliable) (user : UserId) (role : RoleId) (actor : Option Actor) :
    (w.store.findAssignment user role = none ∧
      perform k (Service.unassign user role actor) w = (.error (.notAssigned role user), w)) ∨
    ∃ a u, w.store.findAssignment user role = some a ∧ u = w.dropping k (some a) ∧
      ((a.isExpiredAt w.now = true ∧
        perform k (Service.unassign user role actor) w = (.error (.notAssigned role user), u)) ∨
      (a.isExpiredAt w.now = false ∧ ∃ v,
        perform k (Service.unassign user role actor) w = (.ok (), v) ∧
        Noted (u.setStore (u.store.touchRole role w.now)) v)) := by
  rw [Service.unassign, perform_bind_ok _ perform_now,
    perform_bind_ok _ (perform_findAssignment hw user role)]
  cases hf : w.store.findAssignment user role with
  | none => exact .inl ⟨rfl, perform_bind_error _ (perform_require_none _)⟩
  | some a =>
    refine .inr ⟨a, _, rfl, rfl, ?_⟩
    rw [perform_bind_ok _ (perform_require_some _ _)]
    cases expired : a.isExpiredAt w.now with
    | true =>
      have drops := removeExpired_drops (k := k) hw (Store.findAssignment_mem hf).1
      exact .inl ⟨rfl, by rw [if_pos rfl, perform_bind_ok _ drops, perform_throw]⟩
    | false =>
      refine .inr ⟨rfl, ?_⟩
      rw [if_neg Bool.false_ne_true, perform_bind_ok _ (perform_deleteAssignment hw a.id), dropping]
      generalize (w.store.deleteAssignment a.id).2 = s
      rw [perform_announced (w := w.setStore s) hw
          (perform_touch (w := w.setStore s) hw role w.now),
        perform_bind_ok _ (perform_findRole
          (w := ((w.setStore s).setStore ((w.setStore s).store.touchRole role w.now)).announce
            k (.userRoleUnassigned a)) hw role)]
      exact perform_record actor .unassignRole _

/-- A revocation that succeeds removes the active row of the pair and announces that; after it
come the last use of the role and notes. -/
theorem unassign_ok (hw : w.Reliable) {user : UserId} {role : RoleId} {actor : Option Actor}
    (ok : perform k (Service.unassign user role actor) w = (.ok (), v)) :
    ∃ a ∈ w.store.rows, a.userId = user ∧ a.roleId = role ∧ a.isActiveAt w.now = true ∧
      ∃ u, u = (w.setStore (w.store.deleteAssignment a.id).2).announce k (.userRoleUnassigned a) ∧
        Noted (u.setStore (u.store.touchRole role w.now)) v := by
  rcases unassign_cases (k := k) hw user role actor with
    ⟨-, h⟩ | ⟨a, u, hf, hu, ⟨-, h⟩ | ⟨lasts, x, h, noted⟩⟩
  · simp [h] at ok
  · simp [h] at ok
  · obtain ⟨ha, huser, hrole⟩ := Store.findAssignment_mem hf
    obtain rfl := (Prod.mk.inj (h.symm.trans ok)).2
    exact ⟨a, ha, huser, hrole, by simp [Assignment.isActiveAt, lasts], u, hu, noted⟩

variable {rows : List Assignment}

def shed (k : κ) (w : World κ) (rows : List Assignment) : World κ :=
  rows.foldl (fun w a => w.dropping k (some a)) w

theorem shed_cons (a : Assignment) :
    w.shed k (a :: rows) = (w.dropping k (some a)).shed k rows := rfl

theorem stored_dropping {a : Assignment} (ids : ((a :: rows).map (·.id)).Nodup)
    (stored : ∀ b ∈ a :: rows, b ∈ w.store.rows) :
    ∀ b ∈ rows, b ∈ (w.dropping k (some a)).store.rows := by
  intro b hb
  have apart : b.id ≠ a.id := fun same =>
    (List.nodup_cons.mp ids).1 (List.mem_map.mpr ⟨b, hb, same⟩)
  exact List.mem_filter.mpr ⟨stored b (List.mem_cons_of_mem _ hb), decide_eq_true apart⟩

/-- Rows that are stored are all removed, and counted. -/
theorem removeBatch_sheds (hw : w.Reliable) (ids : (rows.map (·.id)).Nodup)
    (stored : ∀ a ∈ rows, a ∈ w.store.rows) (before : Nat) :
    perform k (Service.removeBatch rows before) w =
      (.ok (before + rows.length), w.shed k rows) := by
  induction rows generalizing w before with
  | nil => rfl
  | cons a rest ih =>
    have hdelete := perform_deleteAssignment (k := k) hw a.id
    rw [Store.deleteAssignment_of_mem (stored a List.mem_cons_self)] at hdelete
    have hemit := perform_emit (k := k) (w := w.setStore (w.store.deleteAssignment a.id).2) hw
      (.userRoleUnassigned a)
    rw [Service.removeBatch, perform_bind_ok _ hdelete]
    refine (perform_bind_ok _ hemit).trans ?_
    refine (ih (w := w.dropping k (some a)) hw (List.nodup_cons.mp ids).2
      (stored_dropping ids stored) (before + 1)).trans ?_
    rw [List.length_cons, Nat.add_assoc, Nat.add_comm 1, shed_cons]

/-- A round sheds a batch of rows that have expired. It is the last if there were too few. -/
theorem sweepRound_sheds (hw : w.Reliable) (ids : (w.store.rows.map (·.id)).Nodup)
    (size : Nat) (time : Instant) (before : Nat) :
    perform k (Service.sweepRound size time before) w =
      (.ok (if (w.store.expiredAssignments time size).length < size ∨
          before + (w.store.expiredAssignments time size).length = before
        then .ended (before + (w.store.expiredAssignments time size).length)
        else .onward (before + (w.store.expiredAssignments time size).length)),
        w.shed k (w.store.expiredAssignments time size)) := by
  have stored (a : Assignment) (ha : a ∈ w.store.expiredAssignments time size) :
      a ∈ w.store.rows := Store.mem_of_mem_expired ha
  have hbatch := removeBatch_sheds (k := k) hw (Store.expired_ids ids) stored before
  rw [Service.sweepRound, perform_bind_ok _ (perform_expiredAssignments hw time size),
    perform_bind_ok _ hbatch]
  split <;> rfl

end Entitlement.World
