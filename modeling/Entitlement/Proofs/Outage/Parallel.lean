import Entitlement.Proofs.Outage.Edits
import Entitlement.Proofs.Outage.LastUse

/-!
# Requests side by side

A request is carried out twice. As long as all that it is told both times differs in the last uses
of roles at most, it makes the same calls, apart from last uses, and ends in the same way. What its
courtesies come to makes no difference.
-/

set_option autoImplicit false

namespace Entitlement

def Call.IsPlain : Call → Prop
  | .deleteRole _ | .findAssignment _ _ | .insertAssignment _ | .deleteAssignment _
  | .expiredAssignments _ _ | .now | .newId => True
  | _ => False

inductive Exchange.Alike : Exchange → Exchange → Prop
  | same {c : Call} (plain : c.IsPlain) (r : c.Answer) : Alike ⟨c, r⟩ ⟨c, r⟩
  | findRole {id : RoleId} {o p : Option Role}
      (alike : o.map Role.definition = p.map Role.definition) :
      Alike ⟨.findRole id, .ok o⟩ ⟨.findRole id, .ok p⟩
  | insertRole {a b : Role} (alike : a.Same b) (r : Except Fault Unit) :
      Alike ⟨.insertRole a, r⟩ ⟨.insertRole b, r⟩
  | updateRole {a b : Role} (alike : a.Same b) (r : Except Fault Unit) :
      Alike ⟨.updateRole a, r⟩ ⟨.updateRole b, r⟩
  | applyEvent {e f : RoleEvent} (alike : e.definition = f.definition) :
      Alike ⟨.applyEvent e, ()⟩ ⟨.applyEvent f, ()⟩
  | publish {e f : RoleEvent} (alike : e.definition = f.definition) (r : Except Fault Unit) :
      Alike ⟨.publish e, r⟩ ⟨.publish f, r⟩
  | touchRole {id : RoleId} {usedAt : Instant} (r s : Except Fault Unit) :
      Alike ⟨.touchRole id usedAt, r⟩ ⟨.touchRole id usedAt, s⟩
  | notify {user : UserId} {n : Notification} (r s : Except Fault Unit) :
      Alike ⟨.notify user n, r⟩ ⟨.notify user n, s⟩
  | record {e f : ModerationEntry} (alike : e.definition = f.definition)
      (r s : Except Fault Unit) : Alike ⟨.record e, r⟩ ⟨.record f, s⟩

def Call.Alike (c d : Call) : Prop := ∃ r s, Exchange.Alike ⟨c, r⟩ ⟨d, s⟩

/-- Two procedures that make the same calls and end in the same way as long as they are told the
same, all of it apart from last uses. -/
inductive Procedure.Parallel {α β : Type} (R : α → β → Prop) : Procedure α → Procedure β → Prop
  | done {a : α} {b : β} (alike : R a b) : Parallel R (.done a) (.done b)
  | call {c d : Call} {next : c.Answer → Procedure α} {next' : d.Answer → Procedure β}
      (asked : c.Alike d)
      (goes : ∀ r s, Exchange.Alike ⟨c, r⟩ ⟨d, s⟩ → Parallel R (next r) (next' s)) :
      Parallel R (.call c next) (.call d next')

inductive Ends {α β : Type} (R : α → β → Prop) : Except Fault α → Except Fault β → Prop
  | ok {a : α} {b : β} (alike : R a b) : Ends R (.ok a) (.ok b)
  | error (fault : Fault) : Ends R (.error fault) (.error fault)

theorem Ends.map_eq {α β : Type} {f : α → β} {r s : Except Fault α}
    (h : Ends (fun a b => f a = f b) r s) : r.map f = s.map f := by
  cases h with
  | ok alike => exact congrArg Except.ok alike
  | error fault => rfl

namespace Procedure

variable {α β γ δ : Type} {R : α → β → Prop} {S : γ → δ → Prop} {p : Procedure α} {q : Procedure β}

theorem Parallel.andThen {f : α → Procedure γ} {g : β → Procedure δ} (h : Parallel R p q)
    (goes : ∀ a b, R a b → Parallel S (f a) (g b)) : Parallel S (p.andThen f) (q.andThen g) := by
  induction h with
  | done alike => exact goes _ _ alike
  | call asked _ ih => exact .call asked ih

theorem Parallel.mono {T : α → β → Prop} (h : Parallel R p q) (weaker : ∀ a b, R a b → T a b) :
    Parallel T p q := by
  induction h with
  | done alike => exact .done (weaker _ _ alike)
  | call asked _ ih => exact .call asked ih

theorem parallel_ask {c : Call} (plain : c.IsPlain) (r : c.Answer) :
    Parallel Eq (.ask c) (.ask c) := by
  refine .call ⟨r, r, .same plain r⟩ fun r s told => .done ?_
  cases told <;> first | rfl | exact plain.elim

end Procedure

open Procedure (parallel_ask)

namespace Service

variable {α β γ δ : Type} {R : α → β → Prop} {S : γ → δ → Prop} {x : Service α} {y : Service β}

def Parallel (R : α → β → Prop) (x : Service α) (y : Service β) : Prop :=
  Procedure.Parallel (Ends R) x.run y.run

theorem Parallel.bind {f : α → Service γ} {g : β → Service δ} (h : Parallel R x y)
    (goes : ∀ a b, R a b → Parallel S (f a) (g b)) : Parallel S (x >>= f) (y >>= g) := by
  refine Procedure.Parallel.andThen h fun a b ends => ?_
  cases ends with
  | ok alike => exact goes _ _ alike
  | error fault => exact .done (.error fault)

theorem Parallel.bind_same {f : α → Service γ} {g : α → Service δ} {x y : Service α}
    (h : Parallel Eq x y) (goes : ∀ a, Parallel S (f a) (g a)) :
    Parallel S (x >>= f) (y >>= g) :=
  h.bind fun a _ same => same ▸ goes a

theorem parallel_pure {a : α} {b : β} (alike : R a b) :
    Parallel R (pure a : Service α) (pure b : Service β) := .done (.ok alike)

theorem parallel_throw (fault : Fault) :
    Parallel R (throw fault : Service α) (throw fault : Service β) := .done (.error fault)

theorem parallel_ofExcept {e : Except Fault α} {f : Except Fault β} (ends : Ends R e f) :
    Parallel R (ofExcept e) (ofExcept f) := .done ends

theorem parallel_ofProcedure {p : Procedure α} {q : Procedure β} (h : Procedure.Parallel R p q) :
    Parallel R (ofProcedure p) (ofProcedure q) :=
  Procedure.Parallel.andThen h fun _ _ alike => .done (.ok alike)

theorem parallel_ofCall {p : Procedure (Except Fault α)} (h : Procedure.Parallel Eq p p) :
    Parallel Eq (ofCall p) (ofCall p) :=
  h.mono fun r s same => by
    subst same
    cases r with
    | ok a => exact .ok rfl
    | error fault => exact .error fault

theorem parallel_now : Parallel Eq now now :=
  parallel_ofProcedure (parallel_ask (c := .now) trivial default)

theorem parallel_newId : Parallel Eq newId newId :=
  parallel_ofProcedure (parallel_ask (c := .newId) trivial (.generated 0))

theorem parallel_findAssignment (user : UserId) (role : RoleId) :
    Parallel Eq (findAssignment user role) (findAssignment user role) :=
  parallel_ofCall (parallel_ask (c := .findAssignment user role) trivial (.ok none))

theorem parallel_insertAssignment (a : Assignment) :
    Parallel Eq (insertAssignment a) (insertAssignment a) :=
  parallel_ofCall (parallel_ask (c := .insertAssignment a) trivial (.ok ()))

theorem parallel_deleteAssignment (a : AssignmentId) :
    Parallel Eq (deleteAssignment a) (deleteAssignment a) :=
  parallel_ofCall (parallel_ask (c := .deleteAssignment a) trivial (.ok true))

theorem parallel_expiredAssignments (time : Instant) (limit : Nat) :
    Parallel Eq (expiredAssignments time limit) (expiredAssignments time limit) :=
  parallel_ofCall (parallel_ask (c := .expiredAssignments time limit) trivial (.ok []))

theorem parallel_removeRole (id : RoleId) : Parallel Eq (removeRole id) (removeRole id) :=
  parallel_ofCall (parallel_ask (c := .deleteRole id) trivial (.ok ()))

theorem parallel_findRole (id : RoleId) :
    Parallel (fun o p => o.map Role.definition = p.map Role.definition)
      (findRole id) (findRole id) := by
  refine .call ⟨_, _, .findRole (o := none) (p := none) rfl⟩ fun r s told => ?_
  cases told with
  | same plain => exact plain.elim
  | findRole alike => exact .done (.ok alike)

section

variable {a b : Role} {e f : RoleEvent}

theorem ends_self (r : Except Fault Unit) : Ends Eq r r := by
  cases r with
  | ok => exact .ok rfl
  | error fault => exact .error fault

theorem parallel_insertRole (alike : a.Same b) :
    Parallel Eq (insertRole a) (insertRole b) := by
  refine .call ⟨_, _, .insertRole alike (.ok ())⟩ fun r s told => .done ?_
  cases told <;> exact ends_self _

theorem parallel_storeRole (alike : a.Same b) :
    Parallel Eq (storeRole a) (storeRole b) := by
  refine .call ⟨_, _, .updateRole alike (.ok ())⟩ fun r s told => .done ?_
  cases told <;> exact ends_self _

theorem parallel_emit (alike : e.definition = f.definition) : Parallel Eq (emit e) (emit f) := by
  refine .bind (R := Eq) ?_ fun _ _ _ => ?_
  · exact parallel_ofProcedure
      (.call ⟨_, _, .applyEvent alike⟩ fun _ _ _ => .done rfl)
  · refine .call ⟨_, _, .publish alike (.ok ())⟩ fun r s told => .done ?_
    cases told <;> exact ends_self _

end

theorem parallel_courtesy {p q : Procedure (Except Fault Unit)}
    (h : Procedure.Parallel (fun _ _ => True) p q) : Parallel Eq (courtesy p) (courtesy q) :=
  (parallel_ofProcedure h).bind fun _ _ _ => parallel_pure rfl

theorem parallel_touch (id : RoleId) (usedAt : Instant) :
    Parallel Eq (touch id usedAt) (touch id usedAt) :=
  parallel_courtesy
    (.call ⟨_, _, .touchRole (.ok ()) (.ok ())⟩ fun _ _ _ => .done trivial)

theorem parallel_notify (user : UserId) (n : Notification) :
    Parallel Eq (notify user n) (notify user n) :=
  parallel_courtesy
    (.call ⟨_, _, .notify (.ok ()) (.ok ())⟩ fun _ _ _ => .done trivial)

theorem parallel_record {j l : Json} (alike : j.without "lastUsedAt" = l.without "lastUsedAt")
    (actor : Option Actor) (action : ModerationAction) :
    Parallel Eq (record actor action j) (record actor action l) := by
  cases actor with
  | none => exact parallel_pure rfl
  | some actor =>
    refine parallel_now.bind_same fun time => ?_
    refine parallel_courtesy (.call ⟨_, _, .record ?_ (.ok ()) (.ok ())⟩ fun _ _ _ => .done trivial)
    exact congrArg (fun details => ModerationEntry.mk actor.userId action details time) alike

theorem parallel_require {o p : Option Role} (fault : Fault)
    (alike : o.map Role.definition = p.map Role.definition) :
    Parallel Role.Same (require fault o) (require fault p) := by
  cases o with
  | none =>
    cases p with
    | none => exact parallel_throw fault
    | some b => cases alike
  | some a =>
    cases p with
    | none => cases alike
    | some b => exact parallel_pure (Option.some.inj alike)

theorem parallel_createRole (draft : RoleDraft) (actor : Option Actor) :
    Parallel Role.Same (createRole draft actor) (createRole draft actor) := by
  refine parallel_now.bind_same fun time => parallel_newId.bind_same fun id => ?_
  refine (parallel_ofExcept (R := Eq) ?_).bind_same fun role => ?_
  · cases draft.role ⟨id⟩ time with
    | ok role => exact .ok rfl
    | error fault => exact .error fault
  · exact (parallel_insertRole rfl).bind_same fun _ => (parallel_emit rfl).bind_same fun _ =>
      (parallel_record rfl actor _).bind_same fun _ => parallel_pure rfl

theorem ends_apply (edit : RoleEdit) {a b : Role} (alike : a.Same b) :
    Ends Role.Same (edit.apply a) (edit.apply b) := by
  have both : (edit.apply a).map Role.definition = (edit.apply b).map Role.definition := by
    rw [← edit.apply_definition, ← edit.apply_definition, alike]
  cases ha : edit.apply a with
  | error fault =>
    rw [ha] at both
    cases hb : edit.apply b with
    | error other =>
      rw [hb] at both
      cases both
      exact .error fault
    | ok b => rw [hb] at both; cases both
  | ok a =>
    rw [ha] at both
    cases hb : edit.apply b with
    | error fault => rw [hb] at both; cases both
    | ok b =>
      rw [hb] at both
      exact .ok (Except.ok.inj both)

theorem parallel_updateRole (id : RoleId) (edit : RoleEdit) (actor : Option Actor) :
    Parallel Role.Same (updateRole id edit actor) (updateRole id edit actor) := by
  refine (parallel_findRole id).bind fun _ _ found => ?_
  refine (parallel_require _ found).bind fun before before' alike => ?_
  refine (parallel_ofExcept (ends_apply edit alike)).bind fun edited edited' changed => ?_
  refine parallel_now.bind_same fun time => ?_
  have after := changed.dated (max time before.updatedAt)
  rw [← alike.updatedAt]
  refine (parallel_storeRole after).bind_same fun _ => ?_
  refine (parallel_emit after.updated).bind_same fun _ => ?_
  refine (parallel_record ?_ actor _).bind_same fun _ => parallel_pure after
  simp [Json.without, Json.withoutMembers, alike.encode, after.encode]

theorem parallel_deleteRole (id : RoleId) (actor : Option Actor) :
    Parallel Eq (deleteRole id actor) (deleteRole id actor) := by
  refine (parallel_findRole id).bind fun _ _ found => ?_
  refine (parallel_require _ found).bind fun role role' alike => ?_
  refine (parallel_removeRole id).bind_same fun _ => ?_
  refine (parallel_emit alike.deleted).bind_same fun _ => ?_
  refine parallel_record ?_ actor _
  simp [Json.without, Json.withoutMembers, alike.encode]

theorem parallel_removeExpired (a : Assignment) :
    Parallel Eq (removeExpired a) (removeExpired a) := by
  refine (parallel_deleteAssignment a.id).bind_same fun removed => ?_
  cases removed with
  | true => exact parallel_emit rfl
  | false => exact parallel_pure rfl

theorem parallel_vacate (user : UserId) (role : RoleId) (time : Instant) :
    Parallel Eq (vacate user role time) (vacate user role time) := by
  refine (parallel_findAssignment user role).bind_same fun found => ?_
  cases found with
  | none => exact parallel_pure rfl
  | some existing =>
    dsimp only
    split
    · exact parallel_throw _
    · exact parallel_removeExpired existing

theorem parallel_assign (user : UserId) (role : RoleId) (expiresAt : Option Instant)
    (actor : Option Actor) :
    Parallel Eq (assign user role expiresAt actor) (assign user role expiresAt actor) := by
  refine parallel_now.bind_same fun time => (parallel_findRole role).bind fun _ _ found => ?_
  refine (parallel_require _ found).bind fun record record' alike => ?_
  refine (parallel_vacate user role time).bind_same fun _ => ?_
  refine parallel_newId.bind_same fun id => (parallel_insertAssignment _).bind_same fun _ => ?_
  refine (parallel_touch role time).bind_same fun _ => (parallel_emit rfl).bind_same fun _ => ?_
  rw [alike.isPublic, alike.name]
  cases record'.isPublic with
  | true =>
    exact (parallel_notify user _).bind_same fun _ =>
      (parallel_record rfl actor _).bind_same fun _ => parallel_pure rfl
  | false => exact (parallel_record rfl actor _).bind_same fun _ => parallel_pure rfl

theorem parallel_unassign (user : UserId) (role : RoleId) (actor : Option Actor) :
    Parallel Eq (unassign user role actor) (unassign user role actor) := by
  refine parallel_now.bind_same fun time => ?_
  refine (parallel_findAssignment user role).bind_same fun found => ?_
  cases found with
  | none => exact parallel_throw _
  | some existing =>
    refine (parallel_pure (R := Eq) rfl).bind_same fun existing => ?_
    split
    · exact (parallel_removeExpired existing).bind_same fun _ => parallel_throw _
    · refine (parallel_deleteAssignment existing.id).bind_same fun _ => ?_
      refine (parallel_touch role time).bind_same fun _ => (parallel_emit rfl).bind_same fun _ => ?_
      refine (parallel_findRole role).bind fun o p found => ?_
      have names : o.map (·.name) = p.map (·.name) := by
        have both := congrArg (Option.map Role.name) found
        rwa [Option.map_map, Option.map_map] at both
      rw [names]
      exact parallel_record rfl actor _

theorem parallel_removeBatch (batch : List Assignment) (removed : Nat) :
    Parallel Eq (removeBatch batch removed) (removeBatch batch removed) := by
  induction batch generalizing removed with
  | nil => exact parallel_pure rfl
  | cons a rest ih =>
    refine (parallel_deleteAssignment a.id).bind_same fun there => ?_
    cases there with
    | true => exact (parallel_emit rfl).bind_same fun _ => ih (removed + 1)
    | false => exact ih removed

theorem parallel_sweepRound (batchSize : Nat) (time : Instant) (removed : Nat) :
    Parallel Eq (sweepRound batchSize time removed) (sweepRound batchSize time removed) := by
  refine (parallel_expiredAssignments time batchSize).bind_same fun batch => ?_
  refine (parallel_removeBatch batch removed).bind_same fun total => ?_
  split <;> exact parallel_pure rfl

theorem parallel_sweepRounds (batchSize : Nat) (time : Instant) (rounds removed : Nat) :
    Parallel Eq (sweepRounds batchSize time rounds removed)
      (sweepRounds batchSize time rounds removed) := by
  induction rounds generalizing removed with
  | zero => exact (parallel_sweepRound batchSize time removed).bind_same fun _ => parallel_pure rfl
  | succ rounds ih =>
    refine (parallel_sweepRound batchSize time removed).bind_same fun sweep => ?_
    cases sweep with
    | ended total => exact parallel_pure rfl
    | onward total => exact ih total

theorem parallel_sweep (batchSize rounds : Nat) :
    Parallel Eq (sweep batchSize rounds) (sweep batchSize rounds) := by
  unfold sweep
  split
  · exact parallel_throw _
  · exact parallel_now.bind_same fun time => parallel_sweepRounds batchSize time rounds 0

end Service

namespace Request

def Writes (q : Request) : Prop := q.IsEdit ∨ ∃ batchSize rounds, q = .sweep batchSize rounds

def definition : (q : Request) → q.Value → q.Value
  | .createRole _ _, role => role.definition
  | .updateRole _ _ _, role => role.definition
  | _, value => value

theorem Writes.parallel {q : Request} (h : q.Writes) :
    Service.Parallel (fun a b => q.definition a = q.definition b) q.service q.service := by
  rcases h with edits | ⟨batchSize, rounds, rfl⟩
  · cases q with
    | createRole draft actor => exact Service.parallel_createRole draft actor
    | updateRole id edit actor => exact Service.parallel_updateRole id edit actor
    | deleteRole id actor => exact Service.parallel_deleteRole id actor
    | assign user role expiresAt actor =>
      exact Service.parallel_assign user role expiresAt actor
    | unassign user role actor => exact Service.parallel_unassign user role actor
    | _ => exact edits.elim
  · exact Service.parallel_sweep batchSize rounds

end Request

end Entitlement
