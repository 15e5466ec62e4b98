import Entitlement.Proofs.Crowd.Answers
import Entitlement.Proofs.Crowd.Requests

/-!
# Services that work at once

A crowd holds a world and the requests that run on it, of any parties, each as far as it
has come and with all that it was told. A step answers the next call of one of them, takes
in a further request, brings an announced event to some cache once more, or changes the
surroundings; so every interleaving, and every order and number of deliveries, is a run.
-/

set_option autoImplicit false

namespace Entitlement

structure Thread (κ : Type) where
  party : κ
  request : Request
  log : Log
  rest : Procedure (Except Fault request.Value)

/-- A world, the requests taken in so far, the identifiers in use, and every store there was,
the latest first. -/
structure Crowd (κ : Type) where
  world : World κ
  threads : List (Thread κ)
  issued : List Uuid
  history : List Store

structure Terms (κ : Type) where
  admits : Request → Prop
  allows : Crowd κ → Request → Log → Call → Prop

def Terms.any (κ : Type) : Terms κ := ⟨fun _ => True, fun _ _ _ _ => True⟩

namespace Crowd

variable {κ : Type}

def begin (w : World κ) (issued : List Uuid) : Crowd κ := ⟨w, [], issued, [w.store]⟩

def accept (party : κ) (q : Request) (s : Crowd κ) : Crowd κ :=
  { s with threads := s.threads ++ [⟨party, q, [], q.service.run⟩] }

def acceptAll (requests : List (κ × Request)) (s : Crowd κ) : Crowd κ :=
  requests.foldl (fun s r => s.accept r.1 r.2) s

variable [DecidableEq κ]

def answered (s : Crowd κ) (i : Nat) (party : κ) (q : Request) (log : Log) (c : Call)
    (next : c.Answer → Procedure (Except Fault q.Value)) : Crowd κ where
  world := (s.world.answer party c).2
  threads := s.threads.set i
    ⟨party, q, ⟨c, (s.world.answer party c).1⟩ :: log, next (s.world.answer party c).1⟩
  issued := Pool.draw s.world c s.issued
  history := (s.world.answer party c).2.store :: s.history

inductive Step (terms : Terms κ) : Crowd κ → Crowd κ → Prop
  | accepts {s : Crowd κ} (party : κ) {q : Request} (admitted : terms.admits q) :
      Step terms s (s.accept party q)
  | proceeds {s : Crowd κ} {i : Nat} {party : κ} {q : Request} {log : Log} {c : Call}
      {next : c.Answer → Procedure (Except Fault q.Value)}
      (running : s.threads[i]? = some ⟨party, q, log, .call c next⟩)
      (allowed : terms.allows s q log c) : Step terms s (s.answered i party q log c next)
  | arrives {s : Crowd κ} (party : κ) {event : RoleEvent}
      (announced : event ∈ s.world.effects.events) :
      Step terms s { s with
        world := s.world.setCache party ((s.world.caches party).apply event) }
  | passes {s : Crowd κ} (now : Instant) (moment : Moment) (nextId : Uuid) (people : List Person)
      (instancePolicies : Option InstancePolicies) (failing : List Port) (feed : Feed κ) :
      Step terms s { s with world := { s.world with
        now, moment, nextId, people, instancePolicies, failing, feed } }

abbrev Runs (terms : Terms κ) : Crowd κ → Crowd κ → Prop := Relation.ReflTransGen (Step terms)

def turn (s : Crowd κ) (i : Nat) : Crowd κ :=
  match s.threads[i]? with
  | some ⟨party, q, log, .call c next⟩ =>
    { s with world.nextId := .generated s.issued.length }.answered i party q log c next
  | _ => s

def turns (order : List Nat) (s : Crowd κ) : Crowd κ := order.foldl turn s

def Smooth (now : Instant) : List Nat → Crowd κ → Prop
  | [], _ => True
  | i :: order, s => s.world.failing = [] ∧ s.world.now = now ∧
      .generated s.issued.length ∉ s.issued ∧ Smooth now order (s.turn i)

instance Smooth.decidable {now : Instant} :
    ∀ (order : List Nat) (s : Crowd κ), Decidable (Smooth now order s)
  | [], _ => inferInstanceAs (Decidable True)
  | i :: order, s =>
    have : Decidable (Smooth now order (s.turn i)) := Smooth.decidable order _
    inferInstanceAs (Decidable (_ ∧ _ ∧ _ ∧ _))

end Crowd

def Log.Lawful (may : Log → Call → Prop) : Log → Prop
  | [] => True
  | x :: log => may log x.call ∧ Log.Lawful may log

theorem Log.Lawful.due {may : Log → Call → Prop} {log : Log} {x : Exchange}
    (h : log.Lawful may) (hx : x ∈ log) : ∃ before, x :: before <:+ log ∧ may before x.call := by
  induction log with
  | nil => simp at hx
  | cons y log ih =>
    rcases List.mem_cons.mp hx with rfl | hx
    · exact ⟨log, List.suffix_refl _, h.1⟩
    · obtain ⟨before, hsuffix, hmay⟩ := ih h.2 hx
      exact ⟨before, hsuffix.trans (List.suffix_cons _ _), hmay⟩

structure Thread.Conducts {κ : Type} (th : Thread κ) : Prop where
  lawful : th.log.Lawful th.request.May
  abides : Abides th.request.May th.request.Ends th.log th.rest

namespace Thread.Conducts

variable {κ : Type} {party : κ} {q : Request} {log : Log}

theorem start (party : κ) (q : Request) :
    Thread.Conducts ⟨party, q, [], q.service.run⟩ := ⟨trivial, Service.request_abides q⟩

theorem due {c : Call} {next : c.Answer → Procedure (Except Fault q.Value)}
    (h : Thread.Conducts ⟨party, q, log, .call c next⟩) : q.May log c := by
  cases h.abides with
  | call due _ => exact due

theorem told {c : Call} {next : c.Answer → Procedure (Except Fault q.Value)}
    (h : Thread.Conducts ⟨party, q, log, .call c next⟩) (r : c.Answer) :
    Thread.Conducts ⟨party, q, ⟨c, r⟩ :: log, next r⟩ := by
  refine ⟨⟨h.due, h.lawful⟩, ?_⟩
  cases h.abides with
  | call _ rest => exact rest r

theorem ended {r : Except Fault q.Value} (h : Thread.Conducts ⟨party, q, log, .done r⟩) :
    q.Ends log r := by
  cases h.abides with
  | done fits => exact fits

end Thread.Conducts

namespace Crowd

variable {κ : Type} {s t : Crowd κ} {th : Thread κ}

theorem thread_of_accept {party : κ} {q : Request} {j : Nat}
    (h : (s.accept party q).threads[j]? = some th) :
    s.threads[j]? = some th ∨ th = ⟨party, q, [], q.service.run⟩ := by
  rcases Nat.lt_or_ge j s.threads.length with hj | hj
  · rw [accept, List.getElem?_append_left hj] at h
    exact .inl h
  · rw [accept, List.getElem?_append_right hj, List.getElem?_singleton] at h
    split at h
    · exact .inr (Option.some.inj h).symm
    · simp at h

theorem mem_accept {party : κ} {q : Request} (h : th ∈ (s.accept party q).threads) :
    th ∈ s.threads ∨ th = ⟨party, q, [], q.service.run⟩ := by
  simpa [accept] using h

def Told (P : Request → Exchange → Prop) (s : Crowd κ) : Prop :=
  ∀ th ∈ s.threads, ∀ x ∈ th.log, P th.request x

theorem Told.mono {P Q : Request → Exchange → Prop} (h : s.Told P)
    (keeps : ∀ r x, P r x → Q r x) : s.Told Q :=
  fun th hth x hx => keeps _ _ (h th hth x hx)

theorem Told.accept {P : Request → Exchange → Prop} (h : s.Told P) (party : κ) (q : Request) :
    (s.accept party q).Told P := by
  intro th hth x hx
  rcases mem_accept hth with hth | rfl
  · exact h th hth x hx
  · simp at hx

variable [DecidableEq κ] {terms : Terms κ}

section

variable {i : Nat} {party : κ} {q : Request} {log : Log} {c : Call}
  {next : c.Answer → Procedure (Except Fault q.Value)}

theorem thread_of_answered {j : Nat} (h : (s.answered i party q log c next).threads[j]? = some th) :
    (j = i ∧ th = ⟨party, q, ⟨c, (s.world.answer party c).1⟩ :: log,
        next (s.world.answer party c).1⟩) ∨
      (j ≠ i ∧ s.threads[j]? = some th) := by
  rw [answered, List.getElem?_set] at h
  split at h
  · next e =>
    split at h
    · exact .inl ⟨e.symm, (Option.some.inj h).symm⟩
    · simp at h
  · next e => exact .inr ⟨fun e' => e e'.symm, h⟩

theorem mem_answered (h : th ∈ (s.answered i party q log c next).threads) : th ∈ s.threads ∨ th =
    ⟨party, q, ⟨c, (s.world.answer party c).1⟩ :: log, next (s.world.answer party c).1⟩ :=
  List.mem_or_eq_of_mem_set h

/-- After an answer each request has gone on, one of them by the answer. -/
theorem later_of_answered (running : s.threads[i]? = some ⟨party, q, log, .call c next⟩)
    (h : th ∈ s.threads) : ∃ later ∈ (s.answered i party q log c next).threads,
      later.request = th.request ∧ th.log <:+ later.log := by
  obtain ⟨j, hj⟩ := List.getElem?_of_mem h
  rcases eq_or_ne i j with rfl | hne
  · obtain rfl := Option.some.inj (running.symm.trans hj)
    have hi := (List.getElem?_eq_some_iff.mp running).1
    exact ⟨_, List.mem_of_getElem? (List.getElem?_set_self hi), rfl, List.suffix_cons _ _⟩
  · exact ⟨th, List.mem_of_getElem? ((List.getElem?_set_ne hne).trans hj), rfl, List.suffix_refl _⟩

theorem Told.answered {P Q : Request → Exchange → Prop} (h : s.Told P)
    (running : s.threads[i]? = some ⟨party, q, log, .call c next⟩)
    (keeps : ∀ r x, P r x → Q r x) (new : Q q ⟨c, (s.world.answer party c).1⟩) :
    (s.answered i party q log c next).Told Q := by
  intro th hth x hx
  rcases mem_answered hth with hth | rfl
  · exact keeps _ _ (h th hth x hx)
  · rcases List.mem_cons.mp hx with rfl | hx
    · exact new
    · exact keeps _ _ (h _ (List.mem_of_getElem? running) x hx)

end

section

variable {P : Thread κ → Prop}
  (start : ∀ party q, terms.admits q → P ⟨party, q, [], q.service.run⟩)
  (told : ∀ {party : κ} {q : Request} {log : Log} {c : Call}
    {next : c.Answer → Procedure (Except Fault q.Value)} (r : c.Answer),
    P ⟨party, q, log, .call c next⟩ → P ⟨party, q, ⟨c, r⟩ :: log, next r⟩)

include start told

/-- What a request has when it comes in, and keeps whatever it is told, all of them have. -/
theorem Step.forall_threads (step : Step terms s t) (h : ∀ th ∈ s.threads, P th) :
    ∀ th ∈ t.threads, P th := by
  intro th hth
  cases step with
  | accepts party admitted =>
    rcases mem_accept hth with hth | rfl
    · exact h th hth
    · exact start party _ admitted
  | proceeds running allowed =>
    rcases mem_answered hth with hth | rfl
    · exact h th hth
    · exact told _ (h _ (List.mem_of_getElem? running))
  | arrives party announced => exact h th hth
  | passes now moment nextId people instancePolicies failing feed => exact h th hth

theorem Runs.forall_threads {w : World κ} {issued : List Uuid}
    (run : Runs terms (begin w issued) s) : ∀ th ∈ s.threads, P th := by
  induction run with
  | refl => simp [begin]
  | tail _ step ih => exact step.forall_threads start told ih

end

theorem Runs.conducts {w : World κ} {issued : List Uuid} (run : Runs terms (begin w issued) s) :
    ∀ th ∈ s.threads, th.Conducts :=
  run.forall_threads (fun party q _ => .start party q) fun r h => h.told r

variable {s₀ : Crowd κ}

theorem Runs.acceptAll {requests : List (κ × Request)} (run : Runs terms s₀ s)
    (admits : ∀ r ∈ requests, terms.admits r.2) : Runs terms s₀ (s.acceptAll requests) := by
  induction requests generalizing s with
  | nil => exact run
  | cons r requests ih =>
    exact ih (run.tail (.accepts r.1 (admits r List.mem_cons_self)))
      fun r hr => admits r (List.mem_cons_of_mem _ hr)

theorem Runs.turn {now : Instant} (i : Nat) (run : Runs terms s₀ s)
    (allows : ∀ s q log c, s.world.failing = [] → s.world.now = now →
      s.world.nextId ∉ s.issued → terms.allows s q log c)
    (works : s.world.failing = []) (reads : s.world.now = now)
    (fresh : .generated s.issued.length ∉ s.issued) : Runs terms s₀ (s.turn i) := by
  unfold Crowd.turn
  split
  · next party q log c next running =>
    have ready := run.tail (.passes s.world.now s.world.moment (.generated s.issued.length)
      s.world.people s.world.instancePolicies s.world.failing s.world.feed)
    exact ready.tail (.proceeds running (allows _ q log c works reads fresh))
  · exact run

theorem Runs.turns {now : Instant} {order : List Nat} (run : Runs terms s₀ s)
    (allows : ∀ s q log c, s.world.failing = [] → s.world.now = now →
      s.world.nextId ∉ s.issued → terms.allows s q log c)
    (smooth : Smooth now order s) : Runs terms s₀ (s.turns order) := by
  induction order generalizing s with
  | nil => exact run
  | cons i order ih =>
    obtain ⟨works, reads, fresh, rest⟩ := smooth
    exact ih (run.turn i allows works reads fresh) rest

end Crowd

end Entitlement
