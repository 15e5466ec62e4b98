import Entitlement.Proofs.Crowd.Course
import Entitlement.Proofs.Crowd.Pairs

/-!
# Overlapping edits of a role

An edit reads the whole record, sets the fields it names and writes the whole record back. So
it keeps the other fields as they were when it read them, not as they are when it writes: what
others have written in between is lost, unless it is the same.
-/

set_option autoImplicit false

namespace Entitlement

inductive Role.Field where
  | name
  | description
  | color
  | iconUrl
  | target
  | isPublic
  | isModerator
  | isAdministrator
  | isExplorable
  | asBadge
  | canEditMembersByModerator
  | displayOrder
  | policies
  deriving DecidableEq

@[reducible] def Role.Field.Value : Role.Field → Type
  | .name => Name
  | .description => String
  | .color | .iconUrl => Option String
  | .target => RoleTarget
  | .isPublic | .isModerator | .isAdministrator | .isExplorable | .asBadge
  | .canEditMembersByModerator => Bool
  | .displayOrder => Int32
  | .policies => PolicyOverrides

def Role.get (role : Role) : (f : Role.Field) → f.Value
  | .name => role.name
  | .description => role.description
  | .color => role.color
  | .iconUrl => role.iconUrl
  | .target => role.target
  | .isPublic => role.isPublic
  | .isModerator => role.isModerator
  | .isAdministrator => role.isAdministrator
  | .isExplorable => role.isExplorable
  | .asBadge => role.asBadge
  | .canEditMembersByModerator => role.canEditMembersByModerator
  | .displayOrder => role.displayOrder
  | .policies => role.policies

theorem Role.get_timed (role : Role) (updatedAt lastUsedAt : Instant) (f : Role.Field) :
    { role with updatedAt, lastUsedAt }.get f = role.get f := by
  cases f <;> rfl

namespace RoleEdit

def nothing : RoleEdit :=
  ⟨none, none, none, none, none, none, none, none, none, none, none, none, none⟩

def sets? (edit : RoleEdit) : (f : Role.Field) → Option f.Value
  | .name => edit.name.bind fun s => (Name.ofText s).toOption
  | .description => edit.description
  | .color => edit.color
  | .iconUrl => edit.iconUrl
  | .target => edit.target
  | .isPublic => edit.isPublic
  | .isModerator => edit.isModerator
  | .isAdministrator => edit.isAdministrator
  | .isExplorable => edit.isExplorable
  | .asBadge => edit.asBadge
  | .canEditMembersByModerator => edit.canEditMembersByModerator
  | .displayOrder => edit.displayOrder
  | .policies => edit.policies

def Keeps (edit : RoleEdit) (old new : Role) : Prop :=
  (∀ f, edit.sets? f = none → new.get f = old.get f) ∧ new.lastUsedAt = old.lastUsedAt

variable {edit : RoleEdit} {before after edited stored : Role} {time : Instant}

theorem Keeps.iff (h : edit.Keeps before after) :
    edit.Keeps stored after ↔ edit.Keeps stored before := by
  simp only [Keeps, h.2]
  exact and_congr_left fun _ => forall_congr' fun f => imp_congr_right fun unnamed => by
    rw [h.1 f unnamed]

/-- An edit sets what it names and nothing else. -/
theorem apply_get (h : edit.apply before = .ok after) (f : Role.Field) :
    after.get f = (edit.sets? f).getD (before.get f) := by
  unfold apply at h
  cases hname : edit.name with
  | none =>
    simp only [hname] at h
    obtain rfl := Except.ok.inj h
    cases f <;> simp [Role.get, sets?, hname]
  | some s =>
    simp only [hname] at h
    cases hs : Name.ofText s with
    | error fault =>
      rw [hs] at h
      cases h
    | ok name =>
      rw [hs] at h
      obtain rfl := Except.ok.inj h
      cases f <;> simp [Role.get, sets?, hname, hs, Except.toOption]

theorem sets_of_apply (h : edit.apply before = .ok edited)
    (hafter : after = { edited with updatedAt := time }) :
    (∀ f v, edit.sets? f = some v → after.get f = v) ∧ edit.Keeps before after := by
  obtain ⟨-, -, hused⟩ := World.edit_keeps h
  have get (f : Role.Field) : after.get f = (edit.sets? f).getD (before.get f) :=
    hafter ▸ (Role.get_timed edited time edited.lastUsedAt f).trans (apply_get h f)
  refine ⟨fun f v named => ?_, fun f unnamed => ?_, ?_⟩
  · rw [get, named, Option.getD_some]
  · rw [get, unnamed, Option.getD_none]
  · rw [hafter, ← hused]

end RoleEdit

namespace Exchange

def revise (id : RoleId) (record : Role) : Exchange → Role
  | ⟨.updateRole after, .ok ()⟩ => if after.id = id then after else record
  | ⟨.touchRole touched usedAt, .ok ()⟩ =>
    if touched = id then { record with lastUsedAt := usedAt } else record
  | _ => record

variable {x : Exchange} {s t : Store} {id : RoleId} {r : Role}

/-- A record stays as it is, another one takes its place, or its last use is noted. -/
theorem revise_cases (x : Exchange) (id : RoleId) (r : Role) : x.revise id r = r ∨
    (∃ after, x = ⟨.updateRole after, .ok ()⟩ ∧ after.id = id ∧ x.revise id r = after) ∨
    ∃ usedAt, x = ⟨.touchRole id usedAt, .ok ()⟩ ∧
      x.revise id r = { r with lastUsedAt := usedAt } := by
  unfold revise
  split
  · next after =>
    split
    · next hid => exact .inr (.inl ⟨after, rfl, hid, rfl⟩)
    · exact .inl rfl
  · next touched usedAt =>
    split
    · next hid => exact .inr (.inr ⟨usedAt, hid ▸ rfl, rfl⟩)
    · exact .inl rfl
  · exact .inl rfl

theorem Fits.revise (fits : x.Fits s t) (h : s.findRole id = some r)
    (kept : x ≠ ⟨.deleteRole id, .ok ()⟩) : t.findRole id = some (x.revise id r) := by
  unfold Fits at fits
  split at fits
  · exact fits.2 ▸ h
  · exact fits.2 ▸ h
  · obtain ⟨-, rfl⟩ := Store.insertRole_ok.mp fits
    rw [Store.findRole, List.find?_append, ← Store.findRole, h]
    rfl
  · next after =>
    obtain ⟨-, rfl⟩ := Store.updateRole_ok.mp fits
    refine (Store.find_modifyFirst _ fun _ _ => rfl).trans ?_
    rw [show List.find? _ _ = some r from h]
    rfl
  · next deleted =>
    obtain ⟨-, rfl⟩ := Store.deleteRole_ok.mp fits
    have hne : id ≠ deleted := fun e => kept (e ▸ rfl)
    exact (Keyed.find_filter_ne Role.id hne).trans h
  · next touched usedAt =>
    subst fits
    refine (Store.find_modifyFirst (f := fun r => { r with lastUsedAt := usedAt }) _
      fun _ hid => hid).trans ?_
    rw [show List.find? _ _ = some r from h]
    rfl
  · exact fits.2 ▸ h
  · exact fits.2 ▸ h
  · obtain ⟨-, rfl⟩ := Store.insertAssignment_iff.mp fits
    exact h
  · obtain ⟨-, rfl⟩ := Prod.mk.inj fits
    exact h
  · exact fits.2 ▸ h
  · next hupdate _ htouch _ _ _ _ _ =>
    subst fits
    unfold Exchange.revise
    split
    · exact absurd rfl (hupdate _)
    · exact absurd rfl (htouch _ _)
    · exact h

end Exchange

namespace Trace

variable {κ : Type}

def record (id : RoleId) (start : Role) : Trace κ → Role
  | [] => start
  | .told _ _ x :: earlier => x.revise id (record id start earlier)
  | .heard _ _ :: earlier => record id start earlier

def Writes (trace : Trace κ) (id : RoleId) (i : Nat) (edit : RoleEdit) (after : Role)
    (earlier : Trace κ) : Prop :=
  ∃ actor, .told i (.updateRole id edit actor) ⟨.updateRole after, .ok ()⟩ :: earlier <:+ trace

def Lossless (trace : Trace κ) (id : RoleId) (start : Role) : Prop :=
  ∀ i edit after earlier, trace.Writes id i edit after earlier →
    edit.Keeps (record id start earlier) after

variable {id : RoleId} {start : Role}

theorem record_stays {α : Type} (g : Role → α) {later base : Trace κ}
    (same : ∀ i q x before, .told i q x :: before <:+ later ++ base → .told i q x ∈ later →
      base <:+ before → g (x.revise id (record id start before)) = g (record id start before)) :
    g (record id start (later ++ base)) = g (record id start base) := by
  induction later with
  | nil => rfl
  | cons entry later ih =>
    have rest := ih fun i q x before h mem =>
      same i q x before (h.trans (List.suffix_cons _ _)) (List.mem_cons_of_mem _ mem)
    cases entry with
    | heard party event => exact rest
    | told i q x =>
      exact (same i q x _ (List.suffix_refl _) List.mem_cons_self (List.suffix_append _ _)).trans rest

end Trace

def Terms.keeping (κ : Type) (role : RoleId) : Terms κ where
  admits
    | .deleteRole r _ => r ≠ role
    | _ => True
  allows _ _ _ _ := True

def Thread.edited? {κ : Type} : Thread κ → Option Role
  | ⟨_, .updateRole _ _ _, _, .done (.ok role)⟩ => some role
  | _ => none

namespace Crowd

variable {κ : Type} [DecidableEq κ] {id : RoleId} {start after former : Role} {terms : Terms κ}
  {w : World κ} {issued : List Uuid} {s : Crowd κ} {trace earlier : Trace κ} {i : Nat}
  {q q' : Request} {edit : RoleEdit} {actor : Option Actor}

/-- Whoever wrote a record was asked to edit its role, was shown the record before, and set the
fields of the edit in it. -/
theorem Course.edited (course : Course terms (begin w issued) trace s)
    (written : .told i q ⟨.updateRole after, .ok ()⟩ :: earlier <:+ trace) :
    ∃ edit actor before seen edited time, q = .updateRole after.id edit actor ∧
      .told i q ⟨.findRole after.id, .ok (some before)⟩ :: seen <:+ earlier ∧
      edit.apply before = .ok edited ∧
      after = { edited with updatedAt := max time before.updatedAt } := by
  obtain ⟨u, t, turn, -⟩ := course.call written
  obtain ⟨id, edit, actor, before, edited, time, hq, hlog, hedited, hafter⟩ := turn.due
  have shown : ⟨.findRole id, .ok (some before)⟩ ∈ earlier.log i := by simp [hlog]
  obtain ⟨seen, hseen⟩ := Trace.exists_suffix (turn.mine _ shown)
  obtain ⟨u', t', turn', -⟩ := turn.before.call hseen
  have found : some before = u'.world.store.findRole id := turn'.fits.1
  obtain rfl : id = after.id := by
    rw [← Store.findRole_id found.symm, ← (World.edit_keeps hedited).1, hafter]
  exact ⟨edit, actor, before, seen, edited, time, hq, hseen, hedited, hafter⟩

theorem Course.writes_once (course : Course terms (begin w issued) trace s)
    (written : .told i q ⟨.updateRole after, .ok ()⟩ :: earlier <:+ trace) :
    .told i q' ⟨.updateRole former, .ok ()⟩ ∉ earlier := by
  intro mem
  obtain ⟨u, t, turn, -⟩ := course.call written
  obtain ⟨id', edit, actor, before, edited, time, -, hlog, -⟩ := turn.due
  have told := Trace.mem_log_of_told mem
  simp [hlog] at told

section

variable (keeps : ∀ actor, ¬ terms.admits (.deleteRole id actor))
  (stored : w.store.findRole id = some start)

include keeps stored

/-- As long as nobody may delete a role, its record is what the writes have made of it. -/
theorem Course.record (course : Course terms (begin w issued) trace s) :
    s.world.store.findRole id = some (trace.record id start) := by
  induction course with
  | start => exact stored
  | accepts _ party admitted ih => exact ih
  | arrives _ party announced ih => exact ih
  | passes _ now moment nextId people instancePolicies failing feed ih => exact ih
  | @proceeds trace s i party q log c next before running allowed ih =>
    refine (World.answer_fits party c s.world).revise ih fun e => ?_
    have mem := List.mem_of_getElem? running
    obtain rfl := congrArg Exchange.call e
    obtain ⟨actor, rfl⟩ := (before.runs.conducts _ mem).due
    exact keeps actor (before.runs.admitted _ mem)

/-- A write is based on the record that was stored when its request looked the role up. -/
theorem Course.based (course : Course terms (begin w issued) trace s)
    (written : .told i q ⟨.updateRole after, .ok ()⟩ :: earlier <:+ trace) (hid : after.id = id) :
    ∃ edit actor seen edited time, q = .updateRole id edit actor ∧
      .told i q ⟨.findRole id, .ok (some (Trace.record id start seen))⟩ :: seen <:+ earlier ∧
      edit.apply (Trace.record id start seen) = .ok edited ∧
      after = { edited with updatedAt := max time (Trace.record id start seen).updatedAt } := by
  subst hid
  obtain ⟨edit, actor, before, seen, edited, time, hq, hseen, hedited, hafter⟩ := course.edited written
  obtain ⟨u, t, turn, -⟩ := course.call
    (hseen.trans ((List.suffix_cons _ _).trans written))
  obtain rfl : before = Trace.record after.id start seen :=
    Option.some.inj (turn.fits.1.trans (turn.before.record keeps stored))
  exact ⟨edit, actor, seen, edited, time, hq, hseen, hedited, hafter⟩

/-- A write sets what its edit names, and has the rest from the record that its request was shown. -/
theorem Course.keeps_seen (course : Course terms (begin w issued) trace s)
    (written : .told i (.updateRole id edit actor) ⟨.updateRole after, .ok ()⟩ :: earlier <:+ trace) :
    after.id = id ∧ (∀ f v, edit.sets? f = some v → after.get f = v) ∧ ∃ seen,
      .told i (.updateRole id edit actor) ⟨.findRole id, .ok (some (Trace.record id start seen))⟩ ::
        seen <:+ earlier ∧ edit.Keeps (Trace.record id start seen) after := by
  obtain ⟨_, _, _, _, _, _, hq, -⟩ := course.edited written
  cases hq
  obtain ⟨_, _, seen, edited, time, hq, hseen, hedited, hafter⟩ :=
    course.based keeps stored written rfl
  cases hq
  obtain ⟨sets, kept⟩ := RoleEdit.sets_of_apply hedited hafter
  exact ⟨rfl, sets, seen, hseen, kept⟩

variable {j : Nat} {r : Request} {x : Exchange} {before : Trace κ} {f : Role.Field}

/-- No answer changes a field but one to a write of an edit that names it. -/
theorem Course.field_stays (course : Course terms (begin w issued) trace s)
    (lossless : trace.Lossless id start) (told : .told j r x :: before <:+ trace)
    (unnamed : ∀ other actor after, r = .updateRole id other actor →
      x = ⟨.updateRole after, .ok ()⟩ → other.sets? f = none) :
    (x.revise id (Trace.record id start before)).get f = (Trace.record id start before).get f := by
  rcases x.revise_cases id (Trace.record id start before) with e | ⟨after, rfl, hid, e⟩ |
    ⟨usedAt, rfl, e⟩
  · rw [e]
  · obtain ⟨other, actor, -, -, -, rfl, -⟩ := course.based keeps stored told hid
    rw [e]
    exact (lossless j other after before ⟨actor, told⟩).1 f (unnamed other actor after rfl rfl)
  · rw [e]
    exact Role.get_timed _ _ _ f

/-- No answer changes the time of the last use but one to a touch. -/
theorem Course.lastUsed_stays (course : Course terms (begin w issued) trace s)
    (lossless : trace.Lossless id start) (told : .told j r x :: before <:+ trace)
    (untouched : ∀ usedAt, x ≠ ⟨.touchRole id usedAt, .ok ()⟩) :
    (x.revise id (Trace.record id start before)).lastUsedAt =
      (Trace.record id start before).lastUsedAt := by
  rcases x.revise_cases id (Trace.record id start before) with e | ⟨after, rfl, hid, e⟩ |
    ⟨usedAt, e, -⟩
  · rw [e]
  · obtain ⟨edit, actor, -, -, -, rfl, -⟩ := course.based keeps stored told hid
    rw [e]
    exact (lossless j edit after before ⟨actor, told⟩).2
  · exact absurd e (untouched usedAt)

end

/-- What edits and touches have made of the record of a role. Each edit is based on the record that
was stored when it was read, and it keeps what it does not name exactly if that has not changed
since. If every edit does, then each field has the value that the last edit has set it to, and the
last use is that of the last touch. -/
structure Edited (id : RoleId) (start : Role) (trace : Trace κ) (s : Crowd κ) : Prop where
  stored : s.world.store.findRole id = some (trace.record id start)
  based : ∀ i edit after earlier, trace.Writes id i edit after earlier → ∃ actor seen,
    .told i (.updateRole id edit actor) ⟨.findRole id, .ok (some (Trace.record id start seen))⟩ ::
      seen <:+ earlier ∧
    (∀ f v, edit.sets? f = some v → after.get f = v) ∧
    edit.Keeps (Trace.record id start seen) after ∧
    (edit.Keeps (Trace.record id start earlier) after ↔
      edit.Keeps (Trace.record id start earlier) (Trace.record id start seen))
  fields : trace.Lossless id start → ∀ i edit actor after earlier later f v,
    trace = later ++ .told i (.updateRole id edit actor) ⟨.updateRole after, .ok ()⟩ :: earlier →
    edit.sets? f = some v →
    (∀ j other actor r, j ≠ i → .told j (.updateRole id other actor) ⟨.updateRole r, .ok ()⟩ ∈ later →
      other.sets? f = none) →
    (trace.record id start).get f = v
  lastUsed : trace.Lossless id start → ∀ i q usedAt earlier later,
    trace = later ++ .told i q ⟨.touchRole id usedAt, .ok ()⟩ :: earlier →
    (∀ j r t, .told j r ⟨.touchRole id t, .ok ()⟩ ∉ later) →
    (trace.record id start).lastUsedAt = usedAt

theorem edits_keep_what_they_saw (stored : w.store.findRole id = some start)
    (course : Course (.keeping κ id) (begin w issued) trace s) : s.Edited id start trace := by
  have keeps (actor : Option Actor) : ¬ (Terms.keeping κ id).admits (.deleteRole id actor) :=
    fun h => h rfl
  constructor
  case stored => exact course.record keeps stored
  case based =>
    rintro i edit after earlier ⟨actor, written⟩
    obtain ⟨-, sets, seen, hseen, kept⟩ := course.keeps_seen keeps stored written
    exact ⟨actor, seen, hseen, sets, kept, kept.iff⟩
  case fields =>
    rintro lossless i edit actor after earlier later f v rfl named last
    have written := List.suffix_append later
      (.told i (.updateRole id edit actor) ⟨.updateRole after, .ok ()⟩ :: earlier)
    obtain ⟨hid, sets, -⟩ := course.keeps_seen keeps stored written
    have set : (Trace.record id start (.told i (.updateRole id edit actor)
        ⟨.updateRole after, .ok ()⟩ :: earlier)).get f = v := by
      rw [Trace.record, Exchange.revise, if_pos hid]
      exact sets f v named
    refine (Trace.record_stays (fun r => r.get f) fun j r x before told mem rest => ?_).trans set
    refine course.field_stays keeps stored lossless told fun other actor' next hr hx => ?_
    subst hr hx
    -- The request that has written does not write again.
    exact last j other actor' next (fun hj => course.writes_once (hj ▸ told)
      (rest.mem List.mem_cons_self)) mem
  case lastUsed =>
    rintro lossless i q usedAt earlier later rfl last
    have touched : (Trace.record id start
        (.told i q ⟨.touchRole id usedAt, .ok ()⟩ :: earlier)).lastUsedAt = usedAt := by
      simp [Trace.record, Exchange.revise]
    refine (Trace.record_stays Role.lastUsedAt fun j r x before told mem _ => ?_).trans touched
    exact course.lastUsed_stays keeps stored lossless told fun t e => last j r t (e ▸ mem)

/-- A role is described and assigned while another edit, which has read it before, gives it a new
name. -/
theorem edits_keep_what_they_saw_overlapping :
    let role : RoleId := ⟨.generated 0⟩
    let row : Assignment := ⟨⟨.generated 8⟩, role, ⟨.generated 9⟩, none, default⟩
    let w := holding row
    let issued := [row.id.uuid, role.uuid]
    let s := ((begin w issued).acceptAll [
      (.main, .updateRole role { RoleEdit.nothing with name := some "a" } none),
      (.peer, .updateRole role { RoleEdit.nothing with description := some "d" } none),
      (.peer, .assign ⟨.generated 7⟩ role none none)]).turns
        (List.replicate 2 0 ++ List.replicate 5 1 ++ List.replicate 8 2 ++ List.replicate 3 0)
    ∃ start trace, (w.store.findRole role = some start ∧
        Course (.keeping Party role) (begin w issued) trace s) ∧ s.Edited role start trace := by
  intro role row w issued s
  obtain ⟨start, stored⟩ : ∃ start, w.store.findRole role = some start :=
    Option.isSome_iff_exists.mp (by decide +kernel)
  have run : Runs (.keeping Party role) (begin w issued) s :=
    Runs.turns (Runs.acceptAll .refl (by simp [Terms.keeping])) (fun _ _ _ _ _ _ _ => trivial)
      (show Smooth w.now _ _ by decide +kernel)
  obtain ⟨trace, course⟩ := run.course
  exact ⟨start, trace, ⟨stored, course⟩, edits_keep_what_they_saw stored course⟩

/-- Two edits succeed, one of which names the description and the other one only the name: the
description that the first has set is gone in the end. -/
theorem description_lost :
    let role : RoleId := ⟨.generated 0⟩
    let w := holding ⟨⟨.generated 8⟩, role, ⟨.generated 9⟩, none, default⟩
    let issued := [.generated 8, role.uuid]
    let s := ((begin w issued).acceptAll [
      (.main, .updateRole role { RoleEdit.nothing with name := some "a" } none),
      (.peer, .updateRole role { RoleEdit.nothing with description := some "d" } none)]).turns
        (List.replicate 2 0 ++ List.replicate 5 1 ++ List.replicate 3 0)
    (Runs (.keeping Party role) (begin w issued) s ∧ s.threads.map (fun th =>
        th.edited?.map fun r => (r.name.text, r.description)) = [some ("a", ""), some ("r", "d")]) ∧
      (w.store.findRole role).map (·.description) = some "" ∧
      (s.world.store.findRole role).map (fun r => (r.name.text, r.description)) = some ("a", "") := by
  intro role w issued s
  have run : Runs (.keeping Party role) (begin w issued) s :=
    Runs.turns (Runs.acceptAll .refl (by simp [Terms.keeping])) (fun _ _ _ _ _ _ _ => trivial)
      (show Smooth w.now _ _ by decide +kernel)
  exact ⟨⟨run, by decide +kernel⟩, by decide +kernel, by decide +kernel⟩

end Crowd

end Entitlement
