import Entitlement.World

/-!
# Requests on a world

A request is carried out on a world by answering its calls one after the other. While
the store and the feed answer, each request made of one call has the effect of its
operation, and to announce an event is to apply it and to publish it.
-/

set_option autoImplicit false

namespace Entitlement.World

variable {κ α β : Type}

def Reliable (w : World κ) : Prop :=
  ∀ port, (port.isStore = true ∨ port = .publish) → port ∉ w.failing

theorem reliable_of_failing {w : World κ} (h : w.failing = []) : w.Reliable := by
  simp [Reliable, h]

def setStore (w : World κ) (store : Store) : World κ := { w with store }

def Noted (w v : World κ) : Prop :=
  ∃ effects, v = { w with effects } ∧ effects.events = w.effects.events

theorem Noted.refl (w : World κ) : Noted w w := ⟨w.effects, rfl, rfl⟩

theorem Noted.trans {w v u : World κ} (h : Noted w v) (k : Noted v u) : Noted w u := by
  obtain ⟨e, rfl, he⟩ := h
  obtain ⟨f, rfl, hf⟩ := k
  exact ⟨f, rfl, hf.trans he⟩

variable [DecidableEq κ]

def perform (k : κ) (request : Service α) (w : World κ) : Except Fault α × World κ :=
  request.run.runOn (answer k) w

def announce (k : κ) (event : RoleEvent) (w : World κ) : World κ :=
  { w.setCache k ((w.caches k).apply event) with
    feed := w.feed.publish event
    effects.events := w.effects.events ++ [event] }

variable {k : κ} {w v : World κ}

@[simp] theorem perform_pure (a : α) : perform k (pure a) w = (.ok a, w) := rfl

@[simp] theorem perform_throw (fault : Fault) :
    perform k (throw fault : Service α) w = (.error fault, w) := rfl

theorem perform_bind (x : Service α) (f : α → Service β) :
    perform k (x >>= f) w =
      match perform k x w with
      | (.ok a, v) => perform k (f a) v
      | (.error fault, v) => (.error fault, v) := by
  show Procedure.runOn _ (Procedure.andThen x.run _) w = _
  rw [Procedure.runOn_andThen]
  unfold perform
  rcases Procedure.runOn (answer k) x.run w with ⟨_ | _, _⟩ <;> rfl

theorem perform_bind_ok {x : Service α} {a : α} (f : α → Service β)
    (h : perform k x w = (.ok a, v)) :
    perform k (x >>= f) w = perform k (f a) v := by
  rw [perform_bind, h]

theorem perform_bind_error {x : Service α} {fault : Fault} (f : α → Service β)
    (h : perform k x w = (.error fault, v)) :
    perform k (x >>= f) w = (.error fault, v) := by
  rw [perform_bind, h]

@[simp] theorem perform_ofProcedure (p : Procedure α) :
    perform k (Service.ofProcedure p) w =
      (.ok (p.runOn (answer k) w).1, (p.runOn (answer k) w).2) := by
  show Procedure.runOn _ (Procedure.andThen p _) w = _
  rw [Procedure.runOn_andThen]
  rfl

@[simp] theorem perform_ofCall (p : Procedure (Except Fault α)) :
    perform k (Service.ofCall p) w = p.runOn (answer k) w := rfl

@[simp] theorem perform_ofExcept (e : Except Fault α) :
    perform k (Service.ofExcept e) w = (e, w) := rfl

@[simp] theorem perform_require_some (fault : Fault) (a : α) :
    perform k (Service.require fault (some a)) w = (.ok a, w) := rfl

@[simp] theorem perform_require_none (fault : Fault) :
    perform k (Service.require fault none : Service α) w = (.error fault, w) := rfl

theorem perform_courtesy (p : Procedure (Except Fault Unit)) :
    perform k (Service.courtesy p) w = (.ok (), (p.runOn (answer k) w).2) := by
  rw [Service.courtesy, perform_bind, perform_ofProcedure]
  rfl

@[simp] theorem perform_now : perform k Service.now w = (.ok w.now, w) := rfl

@[simp] theorem perform_newId : perform k Service.newId w = (.ok w.nextId, w) := rfl

theorem answer_of_works (c : Call) {port : Port} (h : w.Reliable) (hc : c.port? = some port)
    (hp : port.isStore = true ∨ port = .publish) :
    answer k c w = serve k c ((w.noteLoad c).noteInquiry c) := by
  have hfailing : ((w.noteLoad c).noteInquiry c).failing = w.failing := by
    cases c <;> rfl
  have hport : ((w.noteLoad c).noteInquiry c).fails c = false := by
    unfold fails
    rw [hc, hfailing]
    cases port with
    | instancePolicies => simp [Port.isStore] at hp
    | _ => simpa using h _ hp
  simp [answer, hport]

theorem perform_findRole (h : w.Reliable) (id : RoleId) :
    perform k (Service.findRole id) w = (.ok (w.store.findRole id), w) :=
  answer_of_works (.findRole id) h rfl (.inl rfl)

theorem perform_insertRole (h : w.Reliable) (role : Role) :
    perform k (Service.insertRole role) w = w.change (w.store.insertRole role) :=
  answer_of_works (.insertRole role) h rfl (.inl rfl)

theorem perform_storeRole (h : w.Reliable) (role : Role) :
    perform k (Service.storeRole role) w = w.change (w.store.updateRole role) :=
  answer_of_works (.updateRole role) h rfl (.inl rfl)

theorem perform_removeRole (h : w.Reliable) (id : RoleId) :
    perform k (Service.removeRole id) w = w.change (w.store.deleteRole id) :=
  answer_of_works (.deleteRole id) h rfl (.inl rfl)

theorem perform_findAssignment (h : w.Reliable) (user : UserId) (id : RoleId) :
    perform k (Service.findAssignment user id) w =
      (.ok (w.store.findAssignment user id), w) :=
  answer_of_works (.findAssignment user id) h rfl (.inl rfl)

theorem perform_insertAssignment (h : w.Reliable) (a : Assignment) :
    perform k (Service.insertAssignment a) w = w.change (w.store.insertAssignment a) :=
  answer_of_works (.insertAssignment a) h rfl (.inl rfl)

theorem perform_deleteAssignment (h : w.Reliable) (id : AssignmentId) :
    perform k (Service.deleteAssignment id) w =
      (.ok (w.store.deleteAssignment id).1, w.setStore (w.store.deleteAssignment id).2) :=
  answer_of_works (.deleteAssignment id) h rfl (.inl rfl)

theorem perform_expiredAssignments (h : w.Reliable) (now : Instant) (limit : Nat) :
    perform k (Service.expiredAssignments now limit) w =
      (.ok (w.store.expiredAssignments now limit), w) :=
  answer_of_works (.expiredAssignments now limit) h rfl (.inl rfl)

theorem perform_touch (h : w.Reliable) (id : RoleId) (usedAt : Instant) :
    perform k (Service.touch id usedAt) w =
      (.ok (), w.setStore (w.store.touchRole id usedAt)) := by
  rw [Service.touch, perform_courtesy]
  exact congrArg (fun r => (Except.ok (), r.2))
    (answer_of_works (k := k) (.touchRole id usedAt) h rfl (.inl rfl))

theorem perform_emit (h : w.Reliable) (event : RoleEvent) :
    perform k (Service.emit event) w = (.ok (), w.announce k event) := by
  rw [Service.emit, perform_bind, perform_ofProcedure]
  exact answer_of_works (w := w.setCache k ((w.caches k).apply event))
    (.publish event) h rfl (.inr rfl)

end Entitlement.World
