import Entitlement.Proofs.Cache
import Entitlement.Proofs.Crowd.Accounts
import Entitlement.Proofs.Crowd.Editing

/-!
# What the cache makes of overlapping edits

The store holds the record that was written last. The cache holds, of the records it was told
of, the one with the latest stamp, and among those of one stamp the one it was told of last. A
stamp is read before the record is written, and the cache is told afterwards; so the two can
end with different records.
-/

set_option autoImplicit false

namespace Entitlement

namespace Role

def newest (start : Role) : List Role → Role
  | [] => start
  | r :: earlier =>
    if r.updatedAt < (newest start earlier).updatedAt then newest start earlier else r

def Prevails (r : Role) (told : List Role) : Prop :=
  ∃ later earlier, told = later ++ r :: earlier ∧ (∀ x ∈ later, x.updatedAt < r.updatedAt) ∧
    ∀ x ∈ earlier, x.updatedAt ≤ r.updatedAt

variable {r r' start : Role} {told : List Role}

theorem newest_prevails (start : Role) (told : List Role) :
    (newest start told).Prevails (told ++ [start]) := by
  induction told with
  | nil => exact ⟨[], [], rfl, by simp, by simp⟩
  | cons r told ih =>
    obtain ⟨later, earlier, e, hlater, hearlier⟩ := ih
    unfold newest
    split
    · next older =>
      exact ⟨r :: later, earlier, by rw [List.cons_append, e, List.cons_append],
        List.forall_mem_cons.mpr ⟨older, hlater⟩, hearlier⟩
    · next latest =>
      have hle := Instant.not_lt.mp latest
      refine ⟨[], told ++ [start], rfl, by simp, fun x hx => Instant.le_trans ?_ hle⟩
      rw [e] at hx
      rcases List.mem_append.mp hx with hx | hx
      · exact Instant.le_of_lt (hlater x hx)
      · rcases List.mem_cons.mp hx with rfl | hx
        · exact Instant.le_refl _
        · exact hearlier x hx

theorem Prevails.unique (h : r.Prevails told) (h' : r'.Prevails told) : r = r' := by
  obtain ⟨later, earlier, rfl, hlater, hearlier⟩ := h
  obtain ⟨later', earlier', e, hlater', hearlier'⟩ := h'
  rcases List.append_eq_append_iff.mp e with ⟨mid, rfl, hmid⟩ | ⟨mid, rfl, hmid⟩
  · cases mid with
    | nil => exact (List.cons.inj hmid).1
    | cons x mid =>
      obtain ⟨rfl, rfl⟩ := List.cons.inj hmid
      exact absurd (hlater' r (by simp)) (Instant.not_lt.mpr (hearlier r' (by simp)))
  · cases mid with
    | nil => exact (List.cons.inj hmid).1.symm
    | cons x mid =>
      obtain ⟨rfl, rfl⟩ := List.cons.inj hmid
      exact absurd (hlater r' (by simp)) (Instant.not_lt.mpr (hearlier' r (by simp)))

end Role

namespace Trace

variable {κ α : Type}

def drawn (f : Exchange → Option α) : Trace κ → List α
  | [] => []
  | .told _ _ x :: earlier => (f x).toList ++ drawn f earlier
  | .heard _ _ :: earlier => drawn f earlier

def written (trace : Trace κ) : List Role := trace.drawn Exchange.written?

def applied (trace : Trace κ) : List Role := trace.drawn Exchange.applied?

end Trace

def Call.IsEdit : Call → Prop
  | .findRole _ | .now | .updateRole _ | .applyEvent (.roleUpdated _) | .publish _ | .record _ => True
  | _ => False

theorem Service.asks_bind {α β : Type} {P : Call → Prop} {x : Service α} {f : α → Service β}
    (hx : x.run.Asks P) (hf : ∀ a, (f a).run.Asks P) : (x >>= f).run.Asks P := by
  refine Procedure.Asks.andThen hx fun r => ?_
  cases r with
  | error fault => exact .done _
  | ok a => exact hf a

theorem Service.updateRole_asks (id : RoleId) (edit : RoleEdit) (actor : Option Actor) :
    (Service.updateRole id edit actor).run.Asks Call.IsEdit := by
  refine asks_bind (.call trivial fun _ => .done _) fun found => ?_
  refine asks_bind ?_ fun before => ?_
  · cases found <;> exact .done _
  refine asks_bind (.done _) fun edited => ?_
  refine asks_bind (.call trivial fun _ => .done _) fun changedAt => ?_
  refine asks_bind (.call trivial fun _ => .done _) fun _ => ?_
  refine asks_bind (.call trivial fun _ => .call trivial fun _ => .done _) fun _ => ?_
  refine asks_bind ?_ fun _ => .done _
  cases actor with
  | none => exact .done _
  | some actor => exact .call trivial fun _ => .call trivial fun _ => .done _

def Thread.returned {κ : Type} (th : Thread κ) : Bool :=
  match th.rest with
  | .done _ => true
  | .call _ _ => false

def Terms.editing (κ : Type) (role : RoleId) : Terms κ where
  admits q := ∃ edit actor, q = .updateRole role edit actor
  allows _ _ _ _ := True

namespace Crowd

section

variable {κ : Type} [DecidableEq κ] {w : World κ} {issued : List Uuid} {s : Crowd κ} {id : RoleId}
  {trace : Trace κ} {i : Nat} {q : Request} {role : Role}

theorem Runs.edits (run : Runs (.editing κ id) (begin w issued) s) :
    ∀ th ∈ s.threads, th.rest.Asks Call.IsEdit := by
  refine run.forall_threads (fun party q admitted => ?_) fun r asks => asks.told r
  obtain ⟨edit, actor, rfl⟩ := admitted
  exact Service.updateRole_asks id edit actor

theorem Course.own (course : Course (.editing κ id) (begin w issued) trace s)
    (written : .told i q ⟨.updateRole role, .ok ()⟩ ∈ trace) : role.id = id := by
  obtain ⟨earlier, hsuffix⟩ := Trace.exists_suffix written
  obtain ⟨u, t, turn, -⟩ := course.call hsuffix
  obtain ⟨edit, actor, -, -, -, -, hq, -⟩ := course.edited hsuffix
  obtain ⟨edit', actor', hq'⟩ := turn.admitted
  cases hq.symm.trans hq'
  rfl

theorem Course.own_applied (course : Course (.editing κ id) (begin w issued) trace s)
    (told : .told i q ⟨.applyEvent (.roleUpdated role), ()⟩ ∈ trace) : role.id = id := by
  obtain ⟨earlier, hsuffix⟩ := Trace.exists_suffix told
  obtain ⟨u, t, turn, -⟩ := course.call hsuffix
  exact turn.before.own (turn.mine _ turn.due)

end

def shown? {κ : Type} (s : Crowd κ) (party : κ) (id : RoleId) : Option Role :=
  (s.world.caches party).roles.entry.bind fun c => RoleSnapshot.shown id c.value

def Shows {κ : Type} (s : Crowd κ) (party : κ) (id : RoleId) : Prop :=
  s.shown? party id = (s.world.store.findRole id).map Role.definition

instance {κ : Type} (s : Crowd κ) (party : κ) (id : RoleId) : Decidable (s.Shows party id) :=
  inferInstanceAs (Decidable (_ = _))

end Crowd

theorem Exchange.revise_edit {x : Exchange} {id : RoleId} {r : Role} (edits : x.call.IsEdit)
    (own : ∀ after, x = ⟨.updateRole after, .ok ()⟩ → after.id = id) :
    x.revise id r = x.written?.getD r := by
  unfold revise
  split
  · next after => exact if_pos (own after rfl)
  · exact edits.elim
  · next hupdate _ =>
    unfold written?
    split
    · exact absurd rfl (hupdate _)
    · rfl

/-- A cache that is told of a record shows the newest of what it was told of. -/
theorem Call.shown_recache {c : Call} {id : RoleId} {start : Role} {told : List Role} {cache : Cache}
    (edits : c.IsEdit) (own : ∀ role, c = .applyEvent (.roleUpdated role) → role.id = id)
    (h : (cache.roles.entry.bind fun e => RoleSnapshot.shown id e.value) =
      some (Role.newest start told).definition) (r : c.Answer) (lifetimes : Lifetimes) (now : Moment) :
    ((c.recache lifetimes now cache).roles.entry.bind fun e => RoleSnapshot.shown id e.value) =
      some (Role.newest start ((Exchange.applied? ⟨c, r⟩).toList ++ told)).definition := by
  cases c with
  | applyEvent event =>
    cases event with
    | roleUpdated role =>
      obtain rfl := own role rfl
      obtain ⟨e, he, hshown⟩ := Option.bind_eq_some_iff.mp h
      show ((cache.roles.entry.map _).bind _) = some (Role.newest start (role :: told)).definition
      rw [he]
      show RoleSnapshot.shown role.id (RoleSnapshot.replaceOlder role e.value) = _
      rw [RoleSnapshot.shown_replaceOlder, hshown, Role.newest, apply_ite Role.definition]
      rfl
    | _ => exact edits.elim
  | _ => first | exact h | exact edits.elim

namespace Crowd

variable {w : World Unit} {issued : List Uuid} {s : Crowd Unit} {id : RoleId} {start : Role}
  {trace : Trace Unit}

structure Follows (id : RoleId) (start : Role) (trace : Trace Unit) (s : Crowd Unit) : Prop where
  stored : s.world.store.findRole id = some (trace.written.headD start)
  shown : s.shown? () id = some (Role.newest start trace.applied).definition

theorem Course.follows (course : Course (.editing Unit id) (begin w issued) trace s)
    (stored : w.store.findRole id = some start) (warm : (begin w issued).Shows () id)
    (unheard : trace.Unheard) : s.Follows id start trace := by
  induction course with
  | start => exact ⟨stored, warm.trans (stored ▸ rfl)⟩
  | accepts _ party admitted ih => exact { ih unheard with }
  | arrives _ party announced ih => exact absurd List.mem_cons_self (unheard party _)
  | passes _ now moment nextId people instancePolicies failing feed ih => exact { ih unheard with }
  | @proceeds trace s i party q log c next before running allowed ih =>
    have h := ih fun party event mem => unheard party event (List.mem_cons_of_mem _ mem)
    have edits : c.IsEdit := (before.runs.edits _ (List.mem_of_getElem? running)).due
    have after := before.proceeds running allowed
    constructor
    case stored =>
      have fits := World.answer_fits party c s.world
      refine (fits.revise h.stored fun e => ?_).trans (congrArg some ?_)
      · obtain rfl := congrArg Exchange.call e
        exact edits
      · have own (role : Role) (e : (⟨c, (s.world.answer party c).1⟩ : Exchange) =
            ⟨.updateRole role, .ok ()⟩) : role.id = id := by
          rw [e] at after
          exact after.own List.mem_cons_self
        rw [Exchange.revise_edit edits own]
        show _ = ((Exchange.written? ⟨c, (s.world.answer party c).1⟩).toList ++ trace.written).headD start
        cases Exchange.written? ⟨c, (s.world.answer party c).1⟩ <;> rfl
    case shown =>
      show (((World.answer party c s.world).2.caches ()).roles.entry.bind _) = _
      rw [World.answer_caches, if_pos rfl]
      refine Call.shown_recache edits (fun role e => ?_) h.shown _ _ _
      subst e
      exact after.own_applied List.mem_cons_self

section

variable {κ α : Type} [DecidableEq κ] {terms : Terms κ} {w : World κ} {issued : List Uuid}
  {s : Crowd κ} {trace : Trace κ}

/-- A trace and the logs of the requests tell of the same answers. -/
theorem Course.drawn_perm (course : Course terms (begin w issued) trace s)
    (f : Exchange → Option α) :
    (trace.drawn f).Perm (s.threads.flatMap fun th => th.log.filterMap f) := by
  induction course with
  | start => exact .nil
  | accepts _ party admitted ih => simpa [accept] using ih
  | arrives _ party announced ih => exact ih
  | passes _ now moment nextId people instancePolicies failing feed ih => exact ih
  | @proceeds trace s i party q log c next before running allowed ih =>
    have new : (⟨c, (s.world.answer party c).1⟩ :: log : Log).filterMap f =
        (f ⟨c, (s.world.answer party c).1⟩).toList ++ log.filterMap f := by
      rw [List.filterMap_cons]
      cases f ⟨c, (s.world.answer party c).1⟩ <;> rfl
    exact (List.perm_append_comm.trans (ih.append_right _)).trans
      (flatMap_set_perm (f := fun th : Thread κ => th.log.filterMap f) running new).symm

end

/-- Once every edit has returned, the cache has been told of all records that were written. -/
theorem Course.told_perm (course : Course (.editing Unit id) (begin w issued) trace s)
    (returned : ∀ th ∈ s.threads, th.returned = true) : trace.applied.Perm trace.written := by
  have same : ∀ th ∈ s.threads, th.log.filterMap Exchange.applied? =
      th.log.filterMap Exchange.written? := by
    rintro ⟨party, q, log, rest⟩ mem
    obtain ⟨edit, actor, rfl⟩ := course.runs.admitted _ mem
    have ret := returned _ mem
    cases rest with
    | call c next => simp [Thread.returned] at ret
    | done r => exact (course.runs.conducts _ mem).ended.symm
  have equal : (s.threads.flatMap fun th => th.log.filterMap Exchange.applied?) =
      s.threads.flatMap fun th => th.log.filterMap Exchange.written? :=
    List.flatMap_congr same
  exact (course.drawn_perm _).trans (equal ▸ (course.drawn_perm _).symm)

structure Settled (id : RoleId) (start : Role) (trace : Trace Unit) (s : Crowd Unit) : Prop where
  stored : s.world.store.findRole id = some (trace.written.headD start)
  shown : s.shown? () id = some (Role.newest start trace.applied).definition
  told : trace.applied.Perm trace.written
  shows_iff : s.Shows () id ↔ ∃ r, Role.Prevails r (trace.applied ++ [start]) ∧
    r.definition = (trace.written.headD start).definition
  in_order : trace.applied = trace.written →
    (∀ r ∈ trace.written ++ [start], r.updatedAt ≤ (trace.written.headD start).updatedAt) →
    s.Shows () id

/-- After overlapping edits the cache shows the role as it is stored, exactly if the record that
prevails by its stamp among those the cache was told of is the one that was written last. -/
theorem last_written_shown_iff (stored : w.store.findRole id = some start)
    (warm : (begin w issued).Shows () id)
    (course : Course (.editing Unit id) (begin w issued) trace s)
    (unheard : trace.Unheard)
    (returned : ∀ th ∈ s.threads, th.returned = true) : s.Settled id start trace := by
  have h := course.follows stored warm unheard
  have shows_iff : s.Shows () id ↔ ∃ r, Role.Prevails r (trace.applied ++ [start]) ∧
      r.definition = (trace.written.headD start).definition := by
    rw [Shows, h.shown, h.stored, Option.map_some, Option.some.injEq]
    constructor
    · exact fun e => ⟨_, Role.newest_prevails start trace.applied, e⟩
    · rintro ⟨r, prevails, e⟩
      rwa [(Role.newest_prevails start trace.applied).unique prevails]
  refine ⟨h.stored, h.shown, course.told_perm returned, shows_iff, fun same latest => ?_⟩
  refine shows_iff.mpr ⟨trace.written.headD start, ?_, rfl⟩
  rw [same]
  cases hw : trace.written with
  | nil => exact ⟨[], [], rfl, by simp, by simp⟩
  | cons r earlier =>
    rw [hw] at latest
    exact ⟨[], earlier ++ [start], rfl, by simp, fun x hx => latest x (List.mem_cons_of_mem _ hx)⟩

def warmed : World Unit :=
  (((begin (.startingAt default 0) []).acceptAll
    [((), .createRole (.manual "r") none), ((), .cachedRoles)]).turns
      (List.replicate 5 0 ++ List.replicate 3 1)).world

/-- Two edits of one stamp are written in one order, and the cache is told of them in the other. -/
theorem last_written_shown_iff_crossing :
    let role : RoleId := ⟨.generated 0⟩
    let w := warmed
    let s := ((begin w [role.uuid]).acceptAll [
      ((), .updateRole role { RoleEdit.nothing with name := some "a" } none),
      ((), .updateRole role { RoleEdit.nothing with name := some "b" } none)]).turns
        [0, 0, 1, 1, 0, 1, 1, 1, 0, 0]
    ∃ start trace, (w.store.findRole role = some start ∧ (begin w [role.uuid]).Shows () role ∧
        Course (.editing Unit role) (begin w [role.uuid]) trace s ∧ trace.Unheard ∧
        ∀ th ∈ s.threads, th.returned = true) ∧
      ¬ s.Shows () role ∧ s.Settled role start trace := by
  intro role w s
  obtain ⟨start, stored⟩ : ∃ start, w.store.findRole role = some start :=
    Option.isSome_iff_exists.mp (by decide +kernel)
  have warm : (begin w [role.uuid]).Shows () role := by decide +kernel
  obtain ⟨trace, course, unheard⟩ : ∃ trace,
      Course (.editing Unit role) (begin w [role.uuid]) trace s ∧ trace.Unheard :=
    (Course.acceptAll .start (by simp [Terms.editing])).turns (by simp [Trace.Unheard])
      fun _ _ _ _ => trivial
  have returned : ∀ th ∈ s.threads, th.returned = true := by decide +kernel
  exact ⟨start, trace, ⟨stored, warm, course, unheard, returned⟩, by decide +kernel,
    last_written_shown_iff stored warm course unheard returned⟩

/-- An edit reads the clock, another one comes and goes, and then the first is written: the store
holds the first one, the cache keeps the other for its later stamp. -/
theorem later_stamp_kept :
    let role : RoleId := ⟨.generated 0⟩
    let w := warmed
    let paused := ((begin w [role.uuid]).acceptAll [
      ((), .updateRole role { RoleEdit.nothing with name := some "a" } none),
      ((), .updateRole role { RoleEdit.nothing with name := some "b" } none)]).turns [0, 0]
    let s := { paused with world.now := ⟨1, 0⟩ }.turns (List.replicate 5 1 ++ List.replicate 3 0)
    (((w.caches ()).roles.freshValue? w.moment).isSome = true ∧ (begin w [role.uuid]).Shows () role ∧
      (∃ trace, Course (.editing Unit role) (begin w [role.uuid]) trace s ∧ trace.Unheard) ∧
      ∀ th ∈ s.threads, th.returned = true) ∧
      (s.world.store.findRole role).map (·.name.text) = some "a" ∧
      (s.shown? () role).map (·.name.text) = some "b" ∧ ¬ s.Shows () role := by
  intro role w paused s
  obtain ⟨before, course, unheard⟩ : ∃ trace,
      Course (.editing Unit role) (begin w [role.uuid]) trace paused ∧ trace.Unheard :=
    (Course.acceptAll .start (by simp [Terms.editing])).turns (by simp [Trace.Unheard])
      fun _ _ _ _ => trivial
  have resumed := course.passes ⟨1, 0⟩ paused.world.moment paused.world.nextId paused.world.people
    paused.world.instancePolicies paused.world.failing paused.world.feed
  exact ⟨⟨by decide +kernel, by decide +kernel, resumed.turns unheard fun _ _ _ _ => trivial,
    by decide +kernel⟩, by decide +kernel, by decide +kernel, by decide +kernel⟩

end Crowd

end Entitlement
