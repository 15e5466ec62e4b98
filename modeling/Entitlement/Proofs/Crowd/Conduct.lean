import Entitlement.Proofs.Asks
import Entitlement.Proofs.Crowd.Request

/-!
# The conduct of a request

Which call a request may make depends on what it was told before: it spreads only what it
has stored or read, grants a row only after it has made way for it, and removes only rows
that it was shown and may remove. Every request keeps to that, whatever the answers, and
what it was told explains how it ends.
-/

set_option autoImplicit false

namespace Entitlement

def ModerationEntry.isUnassign (entry : ModerationEntry) (user : UserId) (role : RoleId) : Bool :=
  match entry.action, entry.details with
  | .unassignRole, .object [("roleId", .text r), _, ("userId", .text u)] =>
    r = role.toText && u = user.toText
  | _, _ => false

namespace Log

def Snapshot (log : Log) (roles : List Role) : Prop :=
  ⟨.lookupRoles, .fresh roles⟩ ∈ log ∨
    ∃ version loaded, ⟨.installRoles version loaded, roles⟩ ∈ log

def Rows (log : Log) (user : UserId) (rows : List Assignment) : Prop :=
  ⟨.lookupAssignments user, .fresh rows⟩ ∈ log ∨
    ∃ version loaded, ⟨.installAssignments user version loaded, rows⟩ ∈ log

def Cleared (log : Log) (user : UserId) (role : RoleId) : Prop :=
  ⟨.findAssignment user role, .ok none⟩ ∈ log ∨
    ∃ b removed, ⟨.findAssignment user role, .ok (some b)⟩ ∈ log ∧
      ⟨.deleteAssignment b.id, .ok removed⟩ ∈ log

end Log

theorem Log.Cleared.mono {log log' : Log} {user : UserId} {role : RoleId}
    (h : log.Cleared user role) (hlog : log <:+ log') : log'.Cleared user role := by
  rcases h with h | ⟨b, removed, shown, hr⟩
  · exact .inl (hlog.mem h)
  · exact .inr ⟨b, removed, hlog.mem shown, hlog.mem hr⟩

namespace Request

inductive Suspects (q : Request) (log : Log) (a : Assignment) : Prop
  | found {user : UserId} {role : RoleId} {time : Instant}
      (shown : ⟨.findAssignment user role, .ok (some a)⟩ ∈ log) (began : log.Began time)
      (expired : a.isExpiredAt time = true)
  | listed {time : Instant} {limit : Nat} {batch : List Assignment}
      (shown : ⟨.expiredAssignments time limit, .ok batch⟩ ∈ log) (mem : a ∈ batch)
  | named {user : UserId} {role : RoleId} {actor : Option Actor}
      (request : q = .unassign user role actor)
      (shown : ⟨.findAssignment user role, .ok (some a)⟩ ∈ log)

def Earned (q : Request) (log : Log) : RoleEvent → Prop
  | .roleCreated role => ⟨.insertRole role, .ok ()⟩ ∈ log
  | .roleUpdated role => ⟨.updateRole role, .ok ()⟩ ∈ log
  | .roleDeleted role =>
    ∃ id, ⟨.findRole id, .ok (some role)⟩ ∈ log ∧ ⟨.deleteRole id, .ok ()⟩ ∈ log
  | .userRoleAssigned a => ⟨.insertAssignment a, .ok ()⟩ ∈ log
  | .userRoleUnassigned a => q.Suspects log a ∧ ∃ removed, ⟨.deleteAssignment a.id, .ok removed⟩ ∈ log

def Revises (q : Request) (log : Log) (after : Role) : Prop :=
  ∃ id edit actor before edited time, q = .updateRole id edit actor ∧
    log = [⟨.now, time⟩, ⟨.findRole id, .ok (some before)⟩] ∧ edit.apply before = .ok edited ∧
    after = { edited with updatedAt := max time before.updatedAt }

structure Grants (q : Request) (log : Log) (a : Assignment) : Prop where
  request : ∃ actor, q = .assign a.userId a.roleId a.expiresAt actor
  defined : ∃ definition, ⟨.findRole a.roleId, .ok (some definition)⟩ ∈ log
  drawn : ∃ before, log = ⟨.newId, a.id.uuid⟩ :: before
  cleared : log.Cleared a.userId a.roleId

/-- The calls that a request may make after what it was told. -/
def May (q : Request) (log : Log) : Call → Prop
  | .updateRole after => q.Revises log after
  | .deleteRole id => ∃ actor, q = .deleteRole id actor
  | .findAssignment user role =>
    (∃ expiresAt actor, q = .assign user role expiresAt actor) ∨
      ∃ actor, q = .unassign user role actor
  | .expiredAssignments time _ => (∃ batchSize rounds, q = .sweep batchSize rounds) ∧ log.Began time
  | .insertAssignment a => q.Grants log a
  | .deleteAssignment id => ∃ a, a.id = id ∧ q.Suspects log a
  | .applyEvent event | .publish event => q.Earned log event
  | .installRoles _ loaded => ⟨.listRoles, .ok loaded⟩ ∈ log
  | .installAssignments user _ loaded => ⟨.assignmentsOfUser user, .ok loaded⟩ ∈ log
  | .record entry => ∀ user role, entry.isUnassign user role = true →
    ∃ actor, q = .unassign user role actor
  | _ => True

def Refuses (user : UserId) (role : RoleId) (log : Log) (fault : Fault) : Prop :=
  (∃ x ∈ log, x.fault? = some fault) ∨
  (fault = .roleNotFound role ∧ ⟨.findRole role, .ok none⟩ ∈ log) ∨
  (fault = .alreadyAssigned role user ∧ ∃ b time,
    ⟨.findAssignment user role, .ok (some b)⟩ ∈ log ∧ log.Began time ∧ b.isActiveAt time = true)

def AssignFails (user : UserId) (role : RoleId) (log : Log) (fault : Fault) : Prop :=
  (log.inserted = [] ∧ Refuses user role log fault) ∨
    ∃ event, ⟨.publish event, .error fault⟩ ∈ log

def Notes (user : UserId) (role : RoleId) (log : Log) : Option Actor → Prop
  | none => log.entries = []
  | some _ => ∃ entry, log.entries = [entry] ∧ entry.isUnassign user role = true

structure Revokes (user : UserId) (role : RoleId) (actor : Option Actor) (log : Log)
    (a : Assignment) : Prop where
  shown : ⟨.findAssignment user role, .ok (some a)⟩ ∈ log
  removed : ∃ removed, ⟨.deleteAssignment a.id, .ok removed⟩ ∈ log
  published : log.published = [.userRoleUnassigned a]
  notes : Notes user role log actor

def UnassignFails (user : UserId) (role : RoleId) (log : Log) (fault : Fault) : Prop :=
  (∃ x ∈ log, x.fault? = some fault) ∨
  (fault = .notAssigned role user ∧ ⟨.findAssignment user role, .ok none⟩ ∈ log ∧
    (∀ b, ⟨.findAssignment user role, .ok (some b)⟩ ∉ log) ∧
    log.published = [] ∧ log.entries = []) ∨
  (fault = .notAssigned role user ∧ ∃ b time,
    ⟨.findAssignment user role, .ok (some b)⟩ ∈ log ∧ log.Began time ∧ b.isExpiredAt time = true)

def Resolves (user : UserId) (time : Instant) (eligible : Role → Bool) (log : Log)
    (manual met : List Role) : Prop :=
  ∃ snapshot rows, log.Snapshot snapshot ∧ log.Rows user rows ∧
    manual = Service.assignedRoles (snapshot.filter eligible) rows time ∧
    ∀ role ∈ met, ∃ c, (role, c) ∈ Service.candidates (snapshot.filter eligible) manual

def Ends : (q : Request) → Log → Except Fault q.Value → Prop
  | .updateRole _ _ _, log, _ => log.written = log.applied
  | .assign _ _ _ _, log, .ok a => ⟨.insertAssignment a, .ok ()⟩ ∈ log
  | .assign user role _ _, log, .error fault => AssignFails user role log fault
  | .unassign user role actor, log, .ok () => ∃ a, Revokes user role actor log a
  | .unassign user role _, log, .error fault => UnassignFails user role log fault
  | .userRoles user, log, .ok roles =>
    ∃ time manual met, log.readings = [time] ∧
      Resolves user time (fun _ => true) log manual met ∧ roles = manual ++ met
  | _, _, _ => True

variable {q : Request} {log log' : Log} {a : Assignment} {e : RoleEvent}

theorem Suspects.mono (h : q.Suspects log a) (hlog : log <:+ log') : q.Suspects log' a := by
  cases h with
  | found shown began expired => exact .found (hlog.mem shown) (began.mono hlog) expired
  | listed shown mem => exact .listed (hlog.mem shown) mem
  | named request shown => exact .named request (hlog.mem shown)

theorem Earned.mono (h : q.Earned log e) (hlog : log <:+ log') : q.Earned log' e := by
  cases e with
  | roleDeleted role =>
    obtain ⟨id, found, deleted⟩ := h
    exact ⟨id, hlog.mem found, hlog.mem deleted⟩
  | userRoleUnassigned a =>
    obtain ⟨suspect, removed, hr⟩ := h
    exact ⟨suspect.mono hlog, removed, hlog.mem hr⟩
  | _ => exact hlog.mem h

end Request

inductive Abides {α : Type} (may : Log → Call → Prop) (ends : Log → α → Prop) :
    Log → Procedure α → Prop
  | done {log : Log} {a : α} (fits : ends log a) : Abides may ends log (.done a)
  | call {log : Log} {c : Call} {next : c.Answer → Procedure α} (due : may log c)
      (rest : ∀ r, Abides may ends (⟨c, r⟩ :: log) (next r)) : Abides may ends log (.call c next)

namespace Abides

variable {α β : Type} {may : Log → Call → Prop} {ends mid : Log → α → Prop}
  {ends' : Log → β → Prop} {log : Log}

theorem andThen {p : Procedure α} {f : α → Procedure β} (hp : Abides may mid log p)
    (hf : ∀ log a, mid log a → Abides may ends' log (f a)) : Abides may ends' log (p.andThen f) := by
  induction hp with
  | done fits => exact hf _ _ fits
  | call due _ ih => exact .call due ih

theorem mono {p : Procedure α} (hp : Abides may mid log p) (h : ∀ log a, mid log a → ends log a) :
    Abides may ends log p :=
  p.andThen_done ▸ hp.andThen fun log a ha => .done (h log a ha)

theorem ask {c : Call} (due : may log c) :
    Abides may (fun log' r => log' = ⟨c, r⟩ :: log) log (.ask c) :=
  .call due fun _ => .done rfl

end Abides

def Log.Onward (log log' : Log) : Prop :=
  ∃ later, log' = later ++ log ∧ ∀ x ∈ later, x.reading? = none ∧ x.inserted? = none

namespace Log.Onward

variable {log log' log'' : Log} {x : Exchange}

theorem refl (log : Log) : log.Onward log := ⟨[], rfl, by simp⟩

theorem trans (h : log.Onward log') (h' : log'.Onward log'') : log.Onward log'' := by
  obtain ⟨xs, rfl, hxs⟩ := h
  obtain ⟨ys, rfl, hys⟩ := h'
  refine ⟨ys ++ xs, by simp, fun x hx => ?_⟩
  exact (List.mem_append.mp hx).elim (hys x) (hxs x)

theorem cons (h : log.Onward log') (hx : x.reading? = none) (hins : x.inserted? = none) :
    log.Onward (x :: log') :=
  h.trans ⟨[x], rfl, by simpa using ⟨hx, hins⟩⟩

theorem suffix (h : log.Onward log') : log <:+ log' := by
  obtain ⟨xs, rfl, -⟩ := h
  exact List.suffix_append xs log

theorem readings (h : log.Onward log') : log'.readings = log.readings := by
  obtain ⟨xs, rfl, hxs⟩ := h
  rw [Log.readings, List.filterMap_append,
    List.filterMap_eq_nil_iff.mpr fun x hx => (hxs x hx).1, List.nil_append]
  rfl

theorem inserted (h : log.Onward log') : log'.inserted = log.inserted := by
  obtain ⟨xs, rfl, hxs⟩ := h
  rw [Log.inserted, List.filterMap_append,
    List.filterMap_eq_nil_iff.mpr fun x hx => (hxs x hx).2, List.nil_append]
  rfl

theorem snapshot {roles : List Role} (h : log.Onward log') (hs : log.Snapshot roles) :
    log'.Snapshot roles :=
  hs.imp h.suffix.mem fun ⟨version, loaded, hi⟩ => ⟨version, loaded, h.suffix.mem hi⟩

theorem rows {user : UserId} {rows : List Assignment} (h : log.Onward log')
    (hr : log.Rows user rows) : log'.Rows user rows :=
  hr.imp h.suffix.mem fun ⟨version, loaded, hi⟩ => ⟨version, loaded, h.suffix.mem hi⟩

end Log.Onward

namespace Service

open Request

variable {α β : Type} {q : Request} {log : Log} {ends mid : Log → Except Fault α → Prop}
  {ends' : Log → Except Fault β → Prop}

def Heeds (q : Request) (ends : Log → Except Fault α → Prop) (log : Log) (x : Service α) : Prop :=
  Abides q.May ends log x.run

theorem Heeds.bind {x : Service α} {f : α → Service β} (hx : Heeds q mid log x)
    (hf : ∀ log a, mid log (.ok a) → Heeds q ends' log (f a))
    (hfault : ∀ log fault, mid log (.error fault) → ends' log (.error fault)) :
    Heeds q ends' log (x >>= f) := by
  apply Abides.andThen hx
  intro log r h
  cases r with
  | ok a => exact hf log a h
  | error fault => exact .done (hfault log fault h)

theorem Heeds.mono {x : Service α} (hx : Heeds q mid log x)
    (h : ∀ log r, mid log r → ends log r) : Heeds q ends log x :=
  Abides.mono hx h

/-- A part goes on after one whose answer determines the log. -/
theorem Heeds.next {x : Service α} {f : α → Service β} {after : Except Fault α → Log}
    (hx : Heeds q (fun log' r => log' = after r) log x)
    (hf : ∀ a, Heeds q ends' (after (.ok a)) (f a))
    (hfault : ∀ fault, ends' (after (.error fault)) (.error fault)) :
    Heeds q ends' log (x >>= f) :=
  hx.bind (fun _ a h => h ▸ hf a) fun _ fault h => h ▸ hfault fault

theorem heeds_pure {a : α} (h : ends log (.ok a)) : Heeds q ends log (pure a) := .done h

theorem heeds_throw {fault : Fault} (h : ends log (.error fault)) :
    Heeds q ends log (throw fault) := .done h

theorem heeds_require {fault : Fault} {o : Option α} {f : α → Service β}
    (hf : ∀ a, o = some a → Heeds q ends' log (f a))
    (hfault : o = none → ends' log (.error fault)) :
    Heeds q ends' log (require fault o >>= f) := by
  cases o with
  | none => exact .done (hfault rfl)
  | some a => exact hf a rfl

theorem heeds_ofExcept {r : Except Fault α} {f : α → Service β}
    (hf : ∀ a, r = .ok a → Heeds q ends' log (f a))
    (hfault : ∀ fault, r = .error fault → ends' log (.error fault)) :
    Heeds q ends' log (ofExcept r >>= f) := by
  cases r with
  | error fault => exact .done (hfault fault rfl)
  | ok a => exact hf a rfl

theorem heeds_procedure {c : Call} {f : c.Answer → Service β} (due : q.May log c)
    (hf : ∀ r, Heeds q ends' (⟨c, r⟩ :: log) (f r)) :
    Heeds q ends' log (ofProcedure (.ask c) >>= f) :=
  .call due hf

theorem heeds_ofProcedure {p : Procedure α} {f : α → Service β} {given : Log → α → Prop}
    (hp : Abides q.May given log p) (hf : ∀ log a, given log a → Heeds q ends' log (f a)) :
    Heeds q ends' log (ofProcedure p >>= f) := by
  have hx : Heeds q (fun log r => ∃ a, r = .ok a ∧ given log a) log (ofProcedure p) :=
    hp.andThen fun _ a h => .done ⟨a, rfl, h⟩
  refine hx.bind (fun log a h => ?_) fun _ _ h => by simp at h
  obtain ⟨b, e, h⟩ := h
  obtain rfl := Except.ok.inj e
  exact hf log a h

theorem heeds_now {f : Instant → Service β}
    (hf : ∀ time, Heeds q ends' (⟨.now, time⟩ :: log) (f time)) :
    Heeds q ends' log (Service.now >>= f) := .call trivial hf

theorem heeds_newId {f : Uuid → Service β}
    (hf : ∀ id, Heeds q ends' (⟨.newId, id⟩ :: log) (f id)) :
    Heeds q ends' log (Service.newId >>= f) := .call trivial hf

theorem heeds_touch (role : RoleId) (usedAt : Instant) {f : Unit → Service β}
    (hf : ∀ r, Heeds q ends' (⟨.touchRole role usedAt, r⟩ :: log) (f ())) :
    Heeds q ends' log (touch role usedAt >>= f) := .call trivial hf

theorem heeds_notify (user : UserId) (notification : Notification) {f : Unit → Service β}
    (hf : ∀ r, Heeds q ends' (⟨.notify user notification, r⟩ :: log) (f ())) :
    Heeds q ends' log (notify user notification >>= f) := .call trivial hf

theorem heeds_emit {e : RoleEvent} (earned : q.Earned log e) :
    Heeds q (fun log' r => log' = ⟨.publish e, r⟩ :: ⟨.applyEvent e, ()⟩ :: log) log (emit e) :=
  .call earned fun _ => .call (earned.mono (List.suffix_cons _ _)) fun r => by
    cases r <;> exact .done rfl

def Recorded (action : ModerationAction) (details : Json) (log log' : Log) : Option Actor → Prop
  | none => log' = log
  | some actor => ∃ time r,
    log' = ⟨.record ⟨actor.userId, action, details, time⟩, r⟩ :: ⟨.now, time⟩ :: log

theorem Recorded.suffix {action : ModerationAction} {details : Json} {log' : Log}
    {actor : Option Actor} (h : Recorded action details log log' actor) : log <:+ log' := by
  cases actor with
  | none =>
    obtain rfl : log' = log := h
    exact List.suffix_refl _
  | some actor =>
    obtain ⟨time, r, rfl⟩ := h
    exact List.suffix_append [_, _] _

theorem heeds_record (actor : Option Actor) {action : ModerationAction} {details : Json}
    (due : ∀ id time, q.May log (.record ⟨id, action, details, time⟩)) :
    Heeds q (fun log' r => r = .ok () ∧ Recorded action details log log' actor) log
      (record actor action details) := by
  cases actor with
  | none => exact .done ⟨rfl, rfl⟩
  | some actor =>
    exact .call trivial fun time => .call (due actor.userId time) fun r => .done ⟨rfl, time, r, rfl⟩

/-- Acts other than taking a role away leave entries of their own. -/
theorem may_record {id : UserId} {action : ModerationAction} {details : Json} {time : Instant}
    (h : action ≠ .unassignRole) : q.May log (.record ⟨id, action, details, time⟩) := by
  intro user role about
  cases action <;> simp [ModerationEntry.isUnassign] at about h

end Service

end Entitlement
