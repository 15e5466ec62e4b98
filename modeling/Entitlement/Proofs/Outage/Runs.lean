import Entitlement.Proofs.Crowd.Answers
import Entitlement.Proofs.World.Perform

/-!
# Runs with failing calls

A run of a procedure on a store: every call is answered as the store answers it, or fails
and has no effect, each call for itself. What each request made of one call leaves behind
is read off the one exchange of its run.
-/

set_option autoImplicit false

namespace Entitlement

inductive Procedure.Ran {α : Type} : Procedure α → Store → List Exchange → α → Store → Prop
  | done (a : α) (s : Store) : Ran (.done a) s [] a s
  | call {c : Call} {next : c.Answer → Procedure α} {r : c.Answer} {s u t : Store}
      {rest : List Exchange} {a : α} (answered : Exchange.Fits s u ⟨c, r⟩)
      (goes : Ran (next r) u rest a t) : Ran (.call c next) s (⟨c, r⟩ :: rest) a t

namespace Procedure

variable {α β : Type} {s t : Store} {told : List Exchange}

/-- Whatever fails in a world, what happens there is a run. -/
theorem ran_of_runOn {κ : Type} [DecidableEq κ] (k : κ) (p : Procedure α) (w : World κ) :
    ∃ told, p.Ran w.store told (p.runOn (World.answer k) w).1
      (p.runOn (World.answer k) w).2.store := by
  induction p generalizing w with
  | done a => exact ⟨[], .done a w.store⟩
  | call c next ih =>
    obtain ⟨told, ran⟩ := ih (World.answer k c w).1 (World.answer k c w).2
    exact ⟨_, .call (World.answer_fits k c w) ran⟩

theorem Ran.of_andThen {p : Procedure α} {f : α → Procedure β} {b : β}
    (h : (p.andThen f).Ran s told b t) :
    ∃ a u first rest, p.Ran s first a u ∧ (f a).Ran u rest b t ∧ told = first ++ rest := by
  induction p generalizing s told with
  | done a => exact ⟨a, s, [], told, .done a s, h, rfl⟩
  | call c next ih =>
    cases h with
    | call answered goes =>
      obtain ⟨a, u, first, rest, hp, hf, rfl⟩ := ih _ goes
      exact ⟨a, u, _ :: first, rest, .call answered hp, hf, rfl⟩

theorem Ran.of_ask {c : Call} {r : c.Answer} (h : (ask c).Ran s told r t) :
    Exchange.Fits s t ⟨c, r⟩ ∧ told = [⟨c, r⟩] := by
  cases h with
  | call answered goes =>
    cases goes
    exact ⟨answered, rfl⟩

end Procedure

namespace Service

variable {α β : Type} {s t : Store} {told : List Exchange}

abbrev Ran (x : Service α) (s : Store) (told : List Exchange) (r : Except Fault α) (t : Store) :
    Prop :=
  x.run.Ran s told r t

/-- A request that fails in a world has failed in a run on its store. -/
theorem ran_of_perform {κ : Type} [DecidableEq κ] {k : κ} {x : Service α} {w : World κ}
    (failed : (w.perform k x).1.toOption = none) :
    ∃ told fault, x.Ran w.store told (.error fault) (w.perform k x).2.store := by
  obtain ⟨told, ran⟩ := Procedure.ran_of_runOn k x.run w
  change Ran x w.store told (w.perform k x).1 (w.perform k x).2.store at ran
  cases h : (w.perform k x).1 with
  | ok a =>
    rw [h] at failed
    cases failed
  | error fault =>
    rw [h] at ran
    exact ⟨told, fault, ran⟩

/-- A request that goes on after another one fails where that one fails, or later. -/
theorem Ran.of_bind {x : Service α} {f : α → Service β} {r : Except Fault β}
    (h : (x >>= f).Ran s told r t) :
    (∃ fault, r = .error fault ∧ x.Ran s told (.error fault) t) ∨
      ∃ a u first rest, x.Ran s first (.ok a) u ∧ (f a).Ran u rest r t ∧ told = first ++ rest := by
  obtain ⟨_ | a, u, first, rest, hx, hf, rfl⟩ := Procedure.Ran.of_andThen h
  · cases hf
    exact .inl ⟨_, rfl, (List.append_nil first).symm ▸ hx⟩
  · exact .inr ⟨a, u, first, rest, hx, hf, rfl⟩

theorem Ran.of_bind_error {x : Service α} {f : α → Service β} {fault : Fault}
    (h : (x >>= f).Ran s told (.error fault) t) :
    x.Ran s told (.error fault) t ∨
      ∃ a u first rest, x.Ran s first (.ok a) u ∧ (f a).Ran u rest (.error fault) t ∧
        told = first ++ rest := by
  rcases h.of_bind with ⟨_, e, hx⟩ | h
  · cases e
    exact .inl hx
  · exact .inr h

theorem Ran.of_throw {fault : Fault} {r : Except Fault α}
    (h : (throw fault : Service α).Ran s told r t) : r = .error fault ∧ t = s := by
  cases h
  exact ⟨rfl, rfl⟩

theorem Ran.of_ofExcept {e r : Except Fault α} (h : (ofExcept e).Ran s told r t) :
    r = e ∧ t = s ∧ told = [] := by
  cases h
  exact ⟨rfl, rfl, rfl⟩

theorem Ran.of_require {fault : Fault} {o : Option α} {r : Except Fault α}
    (h : (require fault o).Ran s told r t) :
    t = s ∧ told = [] ∧ ∀ a, r = .ok a → o = some a := by
  cases o with
  | none =>
    cases h
    exact ⟨rfl, rfl, by simp⟩
  | some a =>
    cases h
    exact ⟨rfl, rfl, by simp⟩

def Sure (x : Service α) : Prop :=
  ∀ s told fault t, ¬ x.Ran s told (.error fault) t

theorem sure_pure (a : α) : Sure (pure a) := by
  intro s told fault t h
  cases h

theorem sure_ofProcedure (p : Procedure α) : (ofProcedure p).Sure := by
  intro s told fault t h
  obtain ⟨a, u, first, rest, -, h, -⟩ := Procedure.Ran.of_andThen h
  cases h

theorem Sure.bind {x : Service α} {f : α → Service β} (hx : x.Sure) (hf : ∀ a, (f a).Sure) :
    (x >>= f).Sure := by
  intro s told fault t h
  rcases h.of_bind_error with h | ⟨a, u, first, rest, -, h, -⟩
  · exact hx _ _ _ _ h
  · exact hf a _ _ _ _ h

theorem Sure.of_bind {x : Service α} {f : α → Service β} (hx : x.Sure) {fault : Fault}
    (h : (x >>= f).Ran s told (.error fault) t) :
    ∃ a u first rest, x.Ran s first (.ok a) u ∧ (f a).Ran u rest (.error fault) t ∧
      told = first ++ rest :=
  h.of_bind_error.resolve_left (hx _ _ _ _)

theorem sure_courtesy (p : Procedure (Except Fault Unit)) : (courtesy p).Sure :=
  (sure_ofProcedure p).bind fun _ => sure_pure ()

theorem sure_now : now.Sure := sure_ofProcedure _

theorem sure_newId : newId.Sure := sure_ofProcedure _

theorem sure_touch (role : RoleId) (usedAt : Instant) : (touch role usedAt).Sure := sure_courtesy _

theorem sure_notify (user : UserId) (n : Notification) : (notify user n).Sure := sure_courtesy _

theorem sure_record (actor : Option Actor) (action : ModerationAction) (details : Json) :
    (record actor action details).Sure := by
  cases actor with
  | none => exact sure_pure ()
  | some actor => exact sure_now.bind fun _ => sure_courtesy _

theorem Ran.of_ofProcedure {p : Procedure α} {a : α} (h : (ofProcedure p).Ran s told (.ok a) t) :
    p.Ran s told a t := by
  obtain ⟨b, u, first, rest, hp, hdone, rfl⟩ :=
    Procedure.Ran.of_andThen (p := p) (f := fun b => .done (.ok b : Except Fault α)) h
  cases hdone
  simpa using hp

theorem Ran.of_now {time : Instant} (h : now.Ran s told (.ok time) t) :
    t = s ∧ told = [⟨.now, time⟩] :=
  h.of_ofProcedure.of_ask

theorem Ran.of_newId {id : Uuid} (h : newId.Ran s told (.ok id) t) :
    t = s ∧ told = [⟨.newId, id⟩] :=
  h.of_ofProcedure.of_ask

theorem Ran.of_touch {role : RoleId} {usedAt : Instant} {r : Except Fault Unit}
    (h : (touch role usedAt).Ran s told r t) : t = s ∨ t = s.touchRole role usedAt := by
  rw [touch, courtesy] at h
  rcases h.of_bind with ⟨fault, -, failed⟩ | ⟨answer, u, first, rest, asked, hpure, rfl⟩
  · exact absurd failed (sure_ofProcedure _ _ _ _ _)
  · cases hpure
    obtain ⟨fits, -⟩ := asked.of_ofProcedure.of_ask
    cases answer with
    | ok _ => exact .inr fits
    | error _ => exact .inl fits

/-- To announce an event is to publish it last, and the store has no part in that. -/
theorem Ran.of_emit {event : RoleEvent} {r : Except Fault Unit}
    (h : (emit event).Ran s told r t) :
    t = s ∧ told = [⟨.applyEvent event, ()⟩, ⟨.publish event, r⟩] := by
  rw [emit] at h
  rcases h.of_bind with ⟨fault, -, failed⟩ | ⟨_, u, first, rest, happly, hpublish, rfl⟩
  · exact absurd failed (sure_ofProcedure _ _ _ _ _)
  · obtain ⟨rfl, rfl⟩ := happly.of_ofProcedure.of_ask
    obtain ⟨fits, rfl⟩ := hpublish.of_ask
    refine ⟨?_, rfl⟩
    cases r <;> exact fits

end Service

end Entitlement
