import Entitlement.Proofs.Outage.Runs

/-!
# What a failed request leaves behind

Creating, changing and deleting a role, assigning it and taking it away first change the
store and then announce the change. A request that fails has either left the store as it
was, but for a row of its pair that was over, or it has made its change in full and could
not announce it.
-/

set_option autoImplicit false

namespace Entitlement

namespace Request

def IsEdit : Request → Prop
  | .createRole _ _ | .updateRole _ _ _ | .deleteRole _ _
  | .assign _ _ _ _ | .unassign _ _ _ => True
  | _ => False

def pair? : Request → Option (UserId × RoleId)
  | .assign user role _ _ | .unassign user role _ => some (user, role)
  | _ => none

inductive Leaves (q : Request) (told : List Exchange) (s : Store) : Store → Prop
  | same : Leaves q told s s
  | expired {user : UserId} {role : RoleId} {time : Instant} {a : Assignment}
      (pair : q.pair? = some (user, role)) (began : told.head? = some ⟨.now, time⟩)
      (found : s.findAssignment user role = some a) (expired : a.isExpiredAt time = true) :
      Leaves q told s (s.deleteAssignment a.id).2

def Touched (role : RoleId) (usedAt : Instant) (s t : Store) : Prop :=
  t = s ∨ t = s.touchRole role usedAt

inductive Makes (told : List Exchange) (s t : Store) : Request → RoleEvent → Prop
  | created {draft : RoleDraft} {actor : Option Actor} {id : Uuid} {time : Instant} {role : Role}
      (began : told.head? = some ⟨.now, time⟩) (drawn : ⟨.newId, id⟩ ∈ told)
      (drafted : draft.role ⟨id⟩ time = .ok role) (stored : s.insertRole role = .ok t) :
      Makes told s t (.createRole draft actor) (.roleCreated role)
  | updated {id : RoleId} {edit : RoleEdit} {actor : Option Actor} {before edited : Role}
      {time : Instant} (found : s.findRole id = some before)
      (applied : edit.apply before = .ok edited) (read : ⟨.now, time⟩ ∈ told)
      (stored : s.updateRole { edited with updatedAt := max time before.updatedAt } = .ok t) :
      Makes told s t (.updateRole id edit actor)
        (.roleUpdated { edited with updatedAt := max time before.updatedAt })
  | deleted {id : RoleId} {actor : Option Actor} {role : Role} (found : s.findRole id = some role)
      (stored : s.deleteRole id = .ok t) : Makes told s t (.deleteRole id actor) (.roleDeleted role)
  | assigned {user : UserId} {role : RoleId} {expiresAt : Option Instant} {actor : Option Actor}
      {id : Uuid} {time : Instant} {u v : Store} (began : told.head? = some ⟨.now, time⟩)
      (drawn : ⟨.newId, id⟩ ∈ told) (left : Leaves (.assign user role expiresAt actor) told s u)
      (stored : u.insertAssignment ⟨⟨id⟩, role, user, expiresAt, time⟩ = .ok v)
      (touched : Touched role time v t) :
      Makes told s t (.assign user role expiresAt actor)
        (.userRoleAssigned ⟨⟨id⟩, role, user, expiresAt, time⟩)
  | unassigned {user : UserId} {role : RoleId} {actor : Option Actor} {a : Assignment}
      {time : Instant} (began : told.head? = some ⟨.now, time⟩)
      (found : s.findAssignment user role = some a) (active : a.isActiveAt time = true)
      (touched : Touched role time (s.deleteAssignment a.id).2 t) :
      Makes told s t (.unassign user role actor) (.userRoleUnassigned a)

def Fails (q : Request) (told : List Exchange) (fault : Fault) (s t : Store) : Prop :=
  q.Leaves told s t ∨
    ∃ e, q.Makes told s t e ∧ told.getLast? = some ⟨.publish e, .error fault⟩

end Request

namespace Service

variable {s t : Store} {told : List Exchange} {fault : Fault}

/-- Where only courtesies follow an announcement, it is the announcement that fails. -/
theorem Ran.of_announcement {α : Type} {e : RoleEvent} {f : Unit → Service α}
    (h : (emit e >>= f).Ran s told (.error fault) t) (hf : ∀ a, (f a).Sure) :
    t = s ∧ told.getLast? = some ⟨.publish e, .error fault⟩ := by
  rcases h.of_bind_error with failed | ⟨a, u, l, rest, -, afterwards, -⟩
  · obtain ⟨rfl, rfl⟩ := failed.of_emit
    exact ⟨rfl, rfl⟩
  · exact absurd afterwards (hf a _ _ _ _)

/-- Where the name of a role is looked up after an announcement, it is the announcement that
fails unless that look-up does. -/
theorem Ran.of_named_announcement {e : RoleEvent} {role : RoleId} {f : Option Role → Service Unit}
    (h : (do emit e; let found ← findRole role; f found : Service Unit).Ran s told (.error fault) t)
    (hf : ∀ found, (f found).Sure) (named : ∀ f, ⟨.findRole role, .error f⟩ ∉ told) :
    t = s ∧ told.getLast? = some ⟨.publish e, .error fault⟩ := by
  rcases h.of_bind_error with failed | ⟨_, u, l, rest, -, afterEmit, rfl⟩
  · obtain ⟨rfl, rfl⟩ := failed.of_emit
    exact ⟨rfl, rfl⟩
  · rcases afterEmit.of_bind_error with failed | ⟨found, _, _, _, -, afterLook, -⟩
    · obtain ⟨-, rfl⟩ := Procedure.Ran.of_ask (c := .findRole role) failed
      exact absurd (List.mem_append_right _ (List.mem_singleton_self _)) (named fault)
    · exact absurd afterLook (hf found _ _ _ _)

theorem createRole_fails {draft : RoleDraft} {actor : Option Actor}
    (h : (createRole draft actor).Ran s told (.error fault) t) :
    (Request.createRole draft actor).Fails told fault s t := by
  obtain ⟨time, u, l, rest, hnow, afterNow, rfl⟩ := sure_now.of_bind h
  obtain ⟨rfl, rfl⟩ := hnow.of_now
  obtain ⟨id, u, l, rest, hid, afterId, rfl⟩ := sure_newId.of_bind afterNow
  obtain ⟨rfl, rfl⟩ := hid.of_newId
  rcases afterId.of_bind_error with failed | ⟨role, u, l, rest, hdraft, afterDraft, rfl⟩
  · obtain ⟨-, rfl, -⟩ := failed.of_ofExcept
    exact .inl .same
  obtain ⟨drafted, rfl, rfl⟩ := hdraft.of_ofExcept
  rcases afterDraft.of_bind_error with failed | ⟨_, u, l, rest, hinsert, afterInsert, rfl⟩
  · obtain ⟨rfl, -⟩ := Procedure.Ran.of_ask (c := .insertRole role) failed
    exact .inl .same
  obtain ⟨stored, rfl⟩ := Procedure.Ran.of_ask (c := .insertRole role) hinsert
  obtain ⟨rfl, last⟩ := afterInsert.of_announcement fun _ =>
    (sure_record _ _ _).bind fun _ => sure_pure role
  exact .inr ⟨_, .created rfl (by simp) drafted.symm stored,
    by simp only [List.getLast?_append, last, Option.some_or]⟩

theorem updateRole_fails {id : RoleId} {edit : RoleEdit} {actor : Option Actor}
    (h : (updateRole id edit actor).Ran s told (.error fault) t) :
    (Request.updateRole id edit actor).Fails told fault s t := by
  rcases h.of_bind_error with failed | ⟨found, u, l, rest, hfind, afterFind, rfl⟩
  · obtain ⟨rfl, -⟩ := Procedure.Ran.of_ask (c := .findRole id) failed
    exact .inl .same
  obtain ⟨⟨rfl, rfl⟩, rfl⟩ := Procedure.Ran.of_ask (c := .findRole id) hfind
  rcases afterFind.of_bind_error with failed | ⟨before, u, l, rest, hrequire, afterRequire, rfl⟩
  · obtain ⟨rfl, -⟩ := failed.of_require
    exact .inl .same
  obtain ⟨rfl, rfl, hfound⟩ := hrequire.of_require
  rcases afterRequire.of_bind_error with failed | ⟨edited, u, l, rest, happly, afterApply, rfl⟩
  · obtain ⟨-, rfl, -⟩ := failed.of_ofExcept
    exact .inl .same
  obtain ⟨applied, rfl, rfl⟩ := happly.of_ofExcept
  obtain ⟨time, u, l, rest, hnow, afterNow, rfl⟩ := sure_now.of_bind afterApply
  obtain ⟨rfl, rfl⟩ := hnow.of_now
  generalize hafter : ({ edited with updatedAt := max time before.updatedAt } : Role) = after
    at afterNow
  rcases afterNow.of_bind_error with failed | ⟨_, u, l, rest, hstore, afterStore, rfl⟩
  · obtain ⟨rfl, -⟩ := Procedure.Ran.of_ask (c := .updateRole after) failed
    exact .inl .same
  obtain ⟨stored, rfl⟩ := Procedure.Ran.of_ask (c := .updateRole after) hstore
  obtain ⟨rfl, last⟩ := afterStore.of_announcement fun _ =>
    (sure_record _ _ _).bind fun _ => sure_pure after
  subst hafter
  exact .inr ⟨_, .updated (hfound before rfl) applied.symm (by simp) stored,
    by simp only [List.getLast?_append, last, Option.some_or]⟩

theorem deleteRole_fails {id : RoleId} {actor : Option Actor}
    (h : (deleteRole id actor).Ran s told (.error fault) t) :
    (Request.deleteRole id actor).Fails told fault s t := by
  rcases h.of_bind_error with failed | ⟨found, u, l, rest, hfind, afterFind, rfl⟩
  · obtain ⟨rfl, -⟩ := Procedure.Ran.of_ask (c := .findRole id) failed
    exact .inl .same
  obtain ⟨⟨rfl, rfl⟩, rfl⟩ := Procedure.Ran.of_ask (c := .findRole id) hfind
  rcases afterFind.of_bind_error with failed | ⟨role, u, l, rest, hrequire, afterRequire, rfl⟩
  · obtain ⟨rfl, -⟩ := failed.of_require
    exact .inl .same
  obtain ⟨rfl, rfl, hfound⟩ := hrequire.of_require
  rcases afterRequire.of_bind_error with failed | ⟨_, u, l, rest, hremove, afterRemove, rfl⟩
  · obtain ⟨rfl, -⟩ := Procedure.Ran.of_ask (c := .deleteRole id) failed
    exact .inl .same
  obtain ⟨stored, rfl⟩ := Procedure.Ran.of_ask (c := .deleteRole id) hremove
  obtain ⟨rfl, last⟩ := afterRemove.of_announcement fun _ => sure_record _ _ _
  exact .inr ⟨_, .deleted (hfound role rfl) stored,
    by simp only [List.getLast?_append, last, Option.some_or]⟩

/-- A row that has expired is gone or still there. -/
theorem Ran.of_removeExpired {a : Assignment} {r : Except Fault Unit}
    (h : (removeExpired a).Ran s told r t) : t = s ∨ t = (s.deleteAssignment a.id).2 := by
  rw [removeExpired] at h
  rcases h.of_bind with ⟨fault, -, failed⟩ | ⟨removed, u, l, rest, hdelete, afterDelete, rfl⟩
  · obtain ⟨rfl, -⟩ := Procedure.Ran.of_ask (c := .deleteAssignment a.id) failed
    exact .inl rfl
  · obtain ⟨deleted, rfl⟩ := Procedure.Ran.of_ask (c := .deleteAssignment a.id) hdelete
    refine .inr ?_
    rw [← show u = (s.deleteAssignment a.id).2 from congrArg Prod.snd deleted]
    cases removed with
    | true => exact (Ran.of_emit afterDelete).1
    | false =>
      cases afterDelete
      rfl

/-- Making way for a row leaves the store as it was, but for a row that was over. -/
theorem Ran.of_vacate {user : UserId} {role : RoleId} {time : Instant} {r : Except Fault Unit}
    (h : (vacate user role time).Ran s told r t) :
    t = s ∨ ∃ a, s.findAssignment user role = some a ∧ a.isExpiredAt time = true ∧
      t = (s.deleteAssignment a.id).2 := by
  rw [vacate] at h
  rcases h.of_bind with ⟨fault, -, failed⟩ | ⟨found, u, l, rest, hfind, afterFind, rfl⟩
  · obtain ⟨rfl, -⟩ := Procedure.Ran.of_ask (c := .findAssignment user role) failed
    exact .inl rfl
  obtain ⟨⟨hfound, rfl⟩, rfl⟩ := Procedure.Ran.of_ask (c := .findAssignment user role) hfind
  cases found with
  | none =>
    cases afterFind
    exact .inl rfl
  | some a =>
    dsimp only at afterFind
    split at afterFind
    · exact .inl afterFind.of_throw.2
    · next hover =>
      have expired : a.isExpiredAt time = true := by simpa [Assignment.isActiveAt] using hover
      exact afterFind.of_removeExpired.imp_right fun gone => ⟨a, hfound.symm, expired, gone⟩

theorem assign_fails {user : UserId} {role : RoleId} {expiresAt : Option Instant}
    {actor : Option Actor} (h : (assign user role expiresAt actor).Ran s told (.error fault) t) :
    (Request.assign user role expiresAt actor).Fails told fault s t := by
  obtain ⟨time, u, l, rest, hnow, afterNow, rfl⟩ := sure_now.of_bind h
  obtain ⟨rfl, rfl⟩ := hnow.of_now
  rcases afterNow.of_bind_error with failed | ⟨found, v, l, rest, hfind, afterFind, rfl⟩
  · obtain ⟨rfl, -⟩ := Procedure.Ran.of_ask (c := .findRole role) failed
    exact .inl .same
  obtain ⟨⟨rfl, rfl⟩, rfl⟩ := Procedure.Ran.of_ask (c := .findRole role) hfind
  rcases afterFind.of_bind_error with failed | ⟨definition, v, l, rest, hrequire, afterRequire, rfl⟩
  · obtain ⟨rfl, -⟩ := failed.of_require
    exact .inl .same
  obtain ⟨rfl, rfl, -⟩ := hrequire.of_require
  have left {log : List Exchange} {r : Except Fault Unit} {x : Store} {told : List Exchange}
      (began : told.head? = some ⟨.now, time⟩) (h : (vacate user role time).Ran v log r x) :
      (Request.assign user role expiresAt actor).Leaves told v x := by
    rcases h.of_vacate with rfl | ⟨a, found, expired, rfl⟩
    · exact .same
    · exact .expired rfl began found expired
  rcases afterRequire.of_bind_error with failed | ⟨_, u, l, rest, hvacate, afterVacate, rfl⟩
  · exact .inl (left rfl failed)
  obtain ⟨id, x, l, rest, hid, afterId, rfl⟩ := sure_newId.of_bind afterVacate
  obtain ⟨rfl, rfl⟩ := hid.of_newId
  generalize hrow : (⟨⟨id⟩, role, user, expiresAt, time⟩ : Assignment) = row at afterId
  rcases afterId.of_bind_error with failed | ⟨_, x, l, rest, hinsert, afterInsert, rfl⟩
  · obtain ⟨rfl, -⟩ := Procedure.Ran.of_ask (c := .insertAssignment row) failed
    exact .inl (left rfl hvacate)
  obtain ⟨stored, rfl⟩ := Procedure.Ran.of_ask (c := .insertAssignment row) hinsert
  obtain ⟨_, y, l, rest, htouch, afterTouch, rfl⟩ := (sure_touch _ _).of_bind afterInsert
  obtain ⟨rfl, last⟩ := afterTouch.of_announcement fun _ => by
    have ending : Sure (do
        record actor .assignRole
          (.object [("roleId", role.encode), ("roleName", definition.name.encode),
            ("userId", user.encode), ("expiresAt", .ofOption Instant.encode expiresAt)])
        return row) := (sure_record _ _ _).bind fun _ => sure_pure row
    dsimp only
    split
    · exact (sure_notify _ _).bind fun _ => ending
    · exact ending
  subst hrow
  exact .inr ⟨_, .assigned rfl (by simp) (left rfl hvacate) stored htouch.of_touch,
    by simp only [List.getLast?_append, last, Option.some_or]⟩

/-- A revocation whose last look-up does not fail. -/
theorem unassign_fails {user : UserId} {role : RoleId} {actor : Option Actor}
    (h : (unassign user role actor).Ran s told (.error fault) t)
    (named : ∀ f, ⟨.findRole role, .error f⟩ ∉ told) :
    (Request.unassign user role actor).Fails told fault s t := by
  obtain ⟨time, u, l, rest, hnow, afterNow, rfl⟩ := sure_now.of_bind h
  obtain ⟨rfl, rfl⟩ := hnow.of_now
  rcases afterNow.of_bind_error with failed | ⟨found, v, l, rest, hfind, afterFind, rfl⟩
  · obtain ⟨rfl, -⟩ := Procedure.Ran.of_ask (c := .findAssignment user role) failed
    exact .inl .same
  obtain ⟨⟨rfl, rfl⟩, rfl⟩ := Procedure.Ran.of_ask (c := .findAssignment user role) hfind
  rcases afterFind.of_bind_error with failed | ⟨a, v, l, rest, hrequire, afterRequire, rfl⟩
  · obtain ⟨rfl, -⟩ := failed.of_require
    exact .inl .same
  obtain ⟨rfl, rfl, hfound⟩ := hrequire.of_require
  have found := hfound a rfl
  cases hover : a.isExpiredAt time with
  | true =>
    rw [hover] at afterRequire
    have left {log : List Exchange} {r : Except Fault Unit} {x : Store}
        (h : (removeExpired a).Ran v log r x) :
        (Request.unassign user role actor).Leaves
          ([⟨.now, time⟩] ++ ([⟨.findAssignment user role, .ok (v.findAssignment user role)⟩] ++
            ([] ++ rest))) v x := by
      rcases h.of_removeExpired with rfl | rfl
      · exact .same
      · exact .expired rfl rfl found hover
    rcases afterRequire.of_bind_error with failed | ⟨_, x, l, rest, hremove, afterRemove, rfl⟩
    · exact .inl (left failed)
    · obtain ⟨-, rfl⟩ := afterRemove.of_throw
      exact .inl (left hremove)
  | false =>
    rw [hover] at afterRequire
    rcases afterRequire.of_bind_error with failed | ⟨_, x, l, rest, hdelete, afterDelete, rfl⟩
    · obtain ⟨rfl, -⟩ := Procedure.Ran.of_ask (c := .deleteAssignment a.id) failed
      exact .inl .same
    obtain ⟨deleted, rfl⟩ := Procedure.Ran.of_ask (c := .deleteAssignment a.id) hdelete
    obtain rfl : x = (v.deleteAssignment a.id).2 := congrArg Prod.snd deleted
    obtain ⟨_, y, l, rest, htouch, afterTouch, rfl⟩ := (sure_touch _ _).of_bind afterDelete
    obtain ⟨rfl, last⟩ := afterTouch.of_named_announcement (fun _ => sure_record _ _ _)
      fun f hf => named f (by simp [hf])
    exact .inr ⟨_, .unassigned rfl found (by simp [Assignment.isActiveAt, hover]) htouch.of_touch,
      by simp only [List.getLast?_append, last, Option.some_or]⟩

end Service

variable {s t : Store} {told : List Exchange} {fault : Fault}

/-- A request to create, change or delete a role, to assign it or to take it away that fails
has left the store as it was, but for a row of its pair that was over, or its change is stored
in full and the fault is that of the announcement. The look-up with which a revocation ends is
taken not to fail. -/
theorem Request.failed_edit_outcome {q : Request} (edit : q.IsEdit)
    (ran : q.service.Ran s told (.error fault) t)
    (named : ∀ user role actor, q = .unassign user role actor →
      ∀ f, ⟨.findRole role, .error f⟩ ∉ told) :
    q.Fails told fault s t := by
  cases q with
  | createRole draft actor => exact Service.createRole_fails ran
  | updateRole id change actor => exact Service.updateRole_fails ran
  | deleteRole id actor => exact Service.deleteRole_fails ran
  | assign user role expiresAt actor => exact Service.assign_fails ran
  | unassign user role actor => exact Service.unassign_fails ran (named user role actor rfl)
  | _ => exact edit.elim

/-- An assignment that cannot store its row has still removed the one that was over. -/
theorem Request.failed_edit_outcome_over :
    let role : RoleId := ⟨.generated 0⟩
    let user : UserId := ⟨.generated 9⟩
    let w₀ : World Party := .startingAt default 0
    let create := Service.createRole (.manual "r") none
    let w₁ : World Party := { (w₀.perform .main create).2 with nextId := .generated 1 }
    let lend := Service.assign user role (some ⟨1, 0⟩) none
    let w : World Party := { (w₁.perform .main lend).2 with
      now := ⟨1, 0⟩, nextId := .generated 2, failing := [.insertAssignment] }
    let renew := Request.assign user role none none
    w.store.rows.map (·.id.uuid) = [.generated 1] ∧
      ∃ told fault t, renew.service.Ran w.store told (.error fault) t ∧
        renew.Fails told fault w.store t ∧ t = { w.store with rows := [] } := by
  intro role user w₀ create w₁ lend w renew
  obtain ⟨told, fault, failed⟩ := Service.ran_of_perform (k := Party.main) (x := renew.service)
    (w := w) (by decide +kernel)
  exact ⟨by decide +kernel, told, fault, _, failed,
    Request.failed_edit_outcome trivial failed (by simp [renew]), by decide +kernel⟩

/-- A role that could not be announced stays. -/
theorem Request.unannounced_role_stays :
    let w : World Party := { World.startingAt default 0 with failing := [.publish] }
    let made := w.perform .main (Service.createRole (.manual "r") none)
    made.1.toOption = none ∧ w.store = .empty ∧
      made.2.store.roles.map (·.id.uuid) = [.generated 0] := by
  decide +kernel

end Entitlement
