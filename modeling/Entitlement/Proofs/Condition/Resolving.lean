import Entitlement.Proofs.Condition.Holders

/-!
# The course of a resolution

Once the roles and the rows of a user are at hand, a resolution looks the user up and evaluates
the conditions of roles that no row assigns, one after the other. It asks nothing else, whatever
it is told.
-/

set_option autoImplicit false

namespace Entitlement

namespace Procedure

variable {α β : Type} {p : Procedure α} {log log' rest rest' : List Exchange} {a a' : α}

theorem Told.bind {f : α → Procedure β} {b : β} (h : p.Told log a) (h' : (f a).Told rest b) :
    (p >>= f).Told (log ++ rest) b := by
  show (p.andThen f).Told (log ++ rest) b
  induction h with
  | done a => exact h'
  | call goes ih => exact .call (ih h')

/-- What a procedure is told tells where it ends, and with which value. -/
theorem Told.unique (h : p.Told log a) (h' : p.Told log' a') (same : log ++ rest = log' ++ rest') :
    log = log' ∧ a = a' := by
  induction h generalizing log' with
  | done a =>
    obtain ⟨rfl, rfl⟩ := h'.of_done
    exact ⟨rfl, rfl⟩
  | call goes ih =>
    obtain ⟨r, later, rfl, goes'⟩ := h'.of_call
    obtain ⟨first, onward⟩ := List.cons.inj same
    obtain rfl := eq_of_heq (Exchange.mk.inj first).2
    obtain ⟨rfl, rfl⟩ := ih goes' onward
    exact ⟨rfl, rfl⟩

end Procedure

open Procedure

namespace Service

section

variable {α β : Type} {p : Service α} {f : α → Service β} {log rest : List Exchange} {a : α}
  {result : Except Fault β}

/-- A request that was told enough to succeed goes on with what it was told after that. -/
theorem told_bind_iff (h : p.run.Told log (.ok a)) :
    (p >>= f).run.Told (log ++ rest) result ↔ (f a).run.Told rest result := by
  constructor
  · intro all
    obtain ⟨value, first, later, hp, hf, same⟩ := Told.of_bind all
    obtain ⟨rfl, rfl⟩ := h.unique hp same
    obtain rfl := List.append_cancel_left same
    exact hf
  · intro hf
    exact Told.bind h hf

theorem told_ofProcedure {p : Procedure α} {result : Except Fault α}
    (h : (ofProcedure p).run.Told log result) : ∃ a, result = .ok a ∧ p.Told log a := by
  obtain ⟨a, first, last, hp, hdone, rfl⟩ := Told.of_bind h
  obtain ⟨rfl, rfl⟩ := hdone.of_done
  exact ⟨a, rfl, (List.append_nil first).symm ▸ hp⟩

end

structure Evaluation where
  role : Role
  condition : Condition
  asked : List Exchange
  met : Bool

def Evaluation.candidate (e : Evaluation) : Role × Condition := (e.role, e.condition)

def Evaluation.Fits (s : Subject) (e : Evaluation) : Prop :=
  (e.condition.evaluate s).Told e.asked e.met

theorem meeting_told {s : Subject} {log : List Exchange} {met : List Role} :
    ∀ {among : List (Role × Condition)}, (meeting s among).Told log met →
      ∃ evaluations : List Evaluation, evaluations.map (·.candidate) = among ∧
        log = evaluations.flatMap (·.asked) ∧
        met = (evaluations.filter (·.met)).map (·.role) ∧ ∀ e ∈ evaluations, e.Fits s
  | [], h => by
    obtain ⟨rfl, rfl⟩ := h.of_done
    exact ⟨[], rfl, rfl, rfl, by simp⟩
  | (role, c) :: among, h => by
    obtain ⟨b, first, rest, hc, hrest, rfl⟩ := h.of_bind
    cases b with
    | true =>
      obtain ⟨roles, later, last, hlater, hdone, rfl⟩ := Told.of_bind hrest
      obtain ⟨rfl, rfl⟩ := hdone.of_done
      obtain ⟨evaluations, rfl, rfl, rfl, fits⟩ := meeting_told hlater
      exact ⟨⟨role, c, first, true⟩ :: evaluations, rfl, by simp, by simp,
        List.forall_mem_cons.mpr ⟨hc, fits⟩⟩
    | false =>
      obtain ⟨evaluations, rfl, rfl, rfl, fits⟩ := meeting_told hrest
      exact ⟨⟨role, c, first, false⟩ :: evaluations, rfl, by simp, by simp,
        List.forall_mem_cons.mpr ⟨hc, fits⟩⟩

def resolveAmong (user : UserId) (time : Instant) (roles : List Role) (rows : List Assignment) :
    Service (List Role) := do
  let assigned := assignedRoles roles rows time
  let conditional := candidates roles assigned
  if conditional.isEmpty then return assigned
  else match ← findUser user with
    | none => return assigned
    | some found =>
      let met ← ofProcedure (meeting ⟨found, assigned.map (·.id), time⟩ conditional)
      return assigned ++ met

theorem resolveRoles_eq (user : UserId) (time : Instant) (eligible : Role → Bool) :
    resolveRoles user time eligible = (do
      let snapshot ← cachedRoles
      let rows ← cachedAssignments user
      resolveAmong user time (snapshot.filter eligible) rows) := rfl

structure Resolution (user : UserId) (time : Instant) (roles : List Role) (rows : List Assignment)
    (looked : List Exchange) (evaluations : List Evaluation) (result : Except Fault (List Role)) :
    Prop where
  looked : ∀ e ∈ looked, e.call = .findUser user
  among : (evaluations.map (·.candidate)).Sublist
    (candidates roles (assignedRoles roles rows time))
  fits : ∀ e ∈ evaluations, ∃ s, e.Fits s
  resolved : ∀ resolved, result = .ok resolved →
    resolved = assignedRoles roles rows time ++ (evaluations.filter (·.met)).map (·.role)

theorem resolveAmong_told {user : UserId} {time : Instant} {roles : List Role}
    {rows : List Assignment} {log : List Exchange} {result : Except Fault (List Role)}
    (h : (resolveAmong user time roles rows).run.Told log result) :
    ∃ looked evaluations, log = looked ++ evaluations.flatMap (·.asked) ∧
      Resolution user time roles rows looked evaluations result := by
  unfold resolveAmong at h
  dsimp only at h
  split at h
  · obtain ⟨rfl, rfl⟩ := Told.of_done h
    exact ⟨[], [], rfl, by simp, List.nil_sublist _, by simp, by simp⟩
  · obtain ⟨found, looked, rest, hlook, hrest, rfl⟩ := Told.of_bind h
    obtain ⟨answer, later, rfl, hdone⟩ := hlook.of_call
    obtain ⟨rfl, rfl⟩ := hdone.of_done
    cases found with
    | error fault =>
      obtain ⟨rfl, rfl⟩ := Told.of_done hrest
      exact ⟨_, [], rfl, by simp, List.nil_sublist _, by simp, by simp⟩
    | ok found =>
      cases found with
      | none =>
        obtain ⟨rfl, rfl⟩ := Told.of_done hrest
        exact ⟨_, [], rfl, by simp, List.nil_sublist _, by simp, by simp⟩
      | some found =>
        obtain ⟨value, asked, last, hmeeting, hdone, rfl⟩ := Told.of_bind hrest
        obtain ⟨met, rfl, hmet⟩ := told_ofProcedure hmeeting
        obtain ⟨rfl, rfl⟩ := Told.of_done hdone
        obtain ⟨evaluations, same, rfl, rfl, fits⟩ := meeting_told hmet
        refine ⟨_, evaluations, by rw [List.append_nil], by simp, same ▸ List.Sublist.refl _,
          fun e he => ⟨_, fits e he⟩, by simp⟩

end Service

end Entitlement
