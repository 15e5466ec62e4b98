import Mathlib.Data.List.Perm.Basic
import Entitlement.Proofs.Crowd.Steps

/-!
# What the requests announce and put on record

Nothing gets on the feed or on the record of acts but through the requests of a crowd: each
holds what was there at the start and what the requests have added, in some order.
-/

set_option autoImplicit false

namespace Entitlement

section

variable {α β : Type} {f : α → List β} {l : List α} {i : Nat} {a b : α} {new : List β}

/-- What is drawn from a list grows with what is drawn from one of its places. -/
theorem flatMap_set_perm (h : l[i]? = some a) (hb : f b = new ++ f a) :
    ((l.set i b).flatMap f).Perm (l.flatMap f ++ new) := by
  induction l generalizing i with
  | nil => simp at h
  | cons x l ih =>
    cases i with
    | zero =>
      obtain rfl : x = a := by simpa using h
      rw [List.set_cons_zero, List.flatMap_cons, List.flatMap_cons, hb, List.append_assoc]
      exact List.perm_append_comm
    | succ i =>
      rw [List.set_cons_succ, List.flatMap_cons, List.flatMap_cons, List.append_assoc]
      exact (ih (by simpa using h)).append_left _

theorem countP_flatMap_of {p : β → Bool} {q : α → Bool}
    (h : ∀ a ∈ l, (f a).countP p = (q a).toNat) : (l.flatMap f).countP p = l.countP q := by
  induction l with
  | nil => rfl
  | cons x l ih =>
    rw [List.flatMap_cons, List.countP_append, List.countP_cons, h x List.mem_cons_self,
      ih fun a ha => h a (List.mem_cons_of_mem _ ha), Nat.add_comm]
    cases q x <;> rfl

end

theorem filterMap_cons_toList {α β : Type} (f : α → Option β) (a : α) (l : List α) :
    (a :: l).filterMap f = (f a).toList ++ l.filterMap f := by
  rw [List.filterMap_cons]
  cases f a <;> rfl

theorem Log.published_cons (x : Exchange) (log : Log) :
    Log.published (x :: log) = x.published?.toList ++ log.published :=
  filterMap_cons_toList _ x log

theorem Log.entries_cons (x : Exchange) (log : Log) :
    Log.entries (x :: log) = x.entry?.toList ++ log.entries :=
  filterMap_cons_toList _ x log

namespace Crowd

variable {κ : Type} {w : World κ} {s t : Crowd κ}

structure Accounts (w : World κ) (s : Crowd κ) : Prop where
  events : s.world.effects.events.Perm
    (w.effects.events ++ s.threads.flatMap (·.log.published))
  keepsLog : s.world.keepsLog = w.keepsLog
  entries : w.keepsLog = true → s.world.effects.entries.Perm
    (w.effects.entries ++ s.threads.flatMap (·.log.entries))

theorem Accounts.accept (h : s.Accounts w) (party : κ) (q : Request) :
    (s.accept party q).Accounts w where
  events := by simpa [Crowd.accept, Log.published] using h.events
  keepsLog := h.keepsLog
  entries keeps := by simpa [Crowd.accept, Log.entries] using h.entries keeps

/-- The events of a kind on the feed are those of the start and those of the requests. -/
theorem Accounts.countP_events (h : s.Accounts w) {p : RoleEvent → Bool} {q : Thread κ → Bool}
    (counts : ∀ th ∈ s.threads, th.log.published.countP p = (q th).toNat) :
    s.world.effects.events.countP p = w.effects.events.countP p + s.threads.countP q := by
  rw [h.events.countP_eq, List.countP_append, countP_flatMap_of counts]

theorem Accounts.countP_entries (h : s.Accounts w) (keeps : w.keepsLog = true)
    {p : ModerationEntry → Bool} {q : Thread κ → Bool}
    (counts : ∀ th ∈ s.threads, th.log.entries.countP p = (q th).toNat) :
    s.world.effects.entries.countP p = w.effects.entries.countP p + s.threads.countP q := by
  rw [(h.entries keeps).countP_eq, List.countP_append, countP_flatMap_of counts]

variable [DecidableEq κ] {terms : Terms κ} {issued : List Uuid}

theorem Accounts.answered {i : Nat} {party : κ} {q : Request} {log : Log} {c : Call}
    {next : c.Answer → Procedure (Except Fault q.Value)} (h : s.Accounts w)
    (running : s.threads[i]? = some ⟨party, q, log, .call c next⟩)
    (works : .record ∉ s.world.failing) : (s.answered i party q log c next).Accounts w where
  events := by
    show (World.answer party c s.world).2.effects.events.Perm _
    rw [World.answer_events]
    refine (h.events.append_right _).trans ?_
    rw [List.append_assoc]
    exact (flatMap_set_perm running (Log.published_cons _ _)).symm.append_left _
  keepsLog := (World.answer_keepsLog party c s.world).trans h.keepsLog
  entries keeps := by
    show (World.answer party c s.world).2.effects.entries.Perm _
    rw [World.answer_entries party c s.world (h.keepsLog.trans keeps) works]
    refine ((h.entries keeps).append_right _).trans ?_
    rw [List.append_assoc]
    exact (flatMap_set_perm running (Log.entries_cons _ _)).symm.append_left _

theorem Step.accounts (step : Step terms s t)
    (works : ∀ s q log c, terms.allows s q log c → .record ∉ s.world.failing)
    (h : s.Accounts w) : t.Accounts w := by
  cases step with
  | accepts party admitted => exact h.accept party _
  | proceeds running allowed => exact h.answered running (works _ _ _ _ allowed)
  | arrives party announced => exact { h with }
  | passes now moment nextId people instancePolicies failing feed => exact { h with }

/-- While the record of acts answers, every run keeps the accounts. -/
theorem Runs.accounts (run : Runs terms (begin w issued) s)
    (works : ∀ s q log c, terms.allows s q log c → .record ∉ s.world.failing) : s.Accounts w := by
  induction run with
  | refl => exact ⟨by simp [begin], rfl, fun _ => by simp [begin]⟩
  | tail _ step ih => exact step.accounts works ih

end Crowd

end Entitlement
