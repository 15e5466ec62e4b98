import Entitlement.Proofs.Crowd.History

/-!
# The course of a run

A run leaves a trace: each call that was answered, with the request that made it, and each
event that came to a cache once more. What a request was told is the part of the trace that is
about it, and every call of a trace was made and answered in a state that the run went through.
-/

set_option autoImplicit false

namespace Entitlement

inductive Entry (κ : Type) where
  | told (i : Nat) (request : Request) (exchange : Exchange)
  | heard (party : κ) (event : RoleEvent)

def Entry.toldTo? {κ : Type} (i : Nat) : Entry κ → Option Exchange
  | .told j _ x => if j = i then some x else none
  | .heard _ _ => none

abbrev Trace (κ : Type) := List (Entry κ)

namespace Trace

variable {κ : Type} {i j : Nat} {q : Request} {x : Exchange} {trace : Trace κ}

def log (i : Nat) (trace : Trace κ) : Log := trace.filterMap (·.toldTo? i)

theorem log_told : log i (.told i q x :: trace) = x :: log i trace := by
  simp [log, Entry.toldTo?]

theorem log_told_other (h : j ≠ i) : log i (.told j q x :: trace) = log i trace := by
  simp [log, Entry.toldTo?, h]

theorem mem_log (h : x ∈ log i trace) : ∃ q, .told i q x ∈ trace := by
  obtain ⟨entry, hentry, e⟩ := List.mem_filterMap.mp h
  unfold Entry.toldTo? at e
  split at e
  · next j q y =>
    split at e
    · next hj => exact ⟨q, hj ▸ Option.some.inj e ▸ hentry⟩
    · simp at e
  · simp at e

theorem mem_log_of_told (h : .told i q x ∈ trace) : x ∈ log i trace :=
  List.mem_filterMap.mpr ⟨_, h, if_pos rfl⟩

def Unheard (trace : Trace κ) : Prop := ∀ party event, .heard party event ∉ trace

theorem exists_suffix {entry : Entry κ} (h : entry ∈ trace) :
    ∃ earlier, entry :: earlier <:+ trace := by
  obtain ⟨later, earlier, rfl⟩ := List.append_of_mem h
  exact ⟨earlier, List.suffix_append later _⟩

end Trace

namespace Crowd

variable {κ : Type} [DecidableEq κ]

inductive Course (terms : Terms κ) (s₀ : Crowd κ) : Trace κ → Crowd κ → Prop
  | start : Course terms s₀ [] s₀
  | accepts {trace : Trace κ} {s : Crowd κ} (before : Course terms s₀ trace s) (party : κ)
      {q : Request} (admitted : terms.admits q) : Course terms s₀ trace (s.accept party q)
  | proceeds {trace : Trace κ} {s : Crowd κ} {i : Nat} {party : κ} {q : Request} {log : Log}
      {c : Call} {next : c.Answer → Procedure (Except Fault q.Value)}
      (before : Course terms s₀ trace s)
      (running : s.threads[i]? = some ⟨party, q, log, .call c next⟩)
      (allowed : terms.allows s q log c) :
      Course terms s₀ (.told i q ⟨c, (s.world.answer party c).1⟩ :: trace)
        (s.answered i party q log c next)
  | arrives {trace : Trace κ} {s : Crowd κ} (before : Course terms s₀ trace s) (party : κ)
      {event : RoleEvent} (announced : event ∈ s.world.effects.events) :
      Course terms s₀ (.heard party event :: trace) { s with
        world := s.world.setCache party ((s.world.caches party).apply event) }
  | passes {trace : Trace κ} {s : Crowd κ} (before : Course terms s₀ trace s) (now : Instant)
      (moment : Moment) (nextId : Uuid) (people : List Person)
      (instancePolicies : Option InstancePolicies) (failing : List Port) (feed : Feed κ) :
      Course terms s₀ trace { s with world := { s.world with
        now, moment, nextId, people, instancePolicies, failing, feed } }

variable {terms : Terms κ} {s₀ s t : Crowd κ} {trace earlier : Trace κ} {i : Nat} {q : Request}
  {x : Exchange} {th : Thread κ}

theorem Course.runs (course : Course terms s₀ trace s) : Runs terms s₀ s := by
  induction course with
  | start => exact .refl
  | accepts _ party admitted ih => exact ih.tail (.accepts party admitted)
  | proceeds _ running allowed ih => exact ih.tail (.proceeds running allowed)
  | arrives _ party announced ih => exact ih.tail (.arrives party announced)
  | passes _ now moment nextId people instancePolicies failing feed ih =>
    exact ih.tail (.passes now moment nextId people instancePolicies failing feed)

theorem Runs.course (run : Runs terms s₀ s) : ∃ trace, Course terms s₀ trace s := by
  induction run with
  | refl => exact ⟨[], .start⟩
  | tail _ step ih =>
    obtain ⟨trace, course⟩ := ih
    cases step with
    | accepts party admitted => exact ⟨_, course.accepts party admitted⟩
    | proceeds running allowed => exact ⟨_, course.proceeds running allowed⟩
    | arrives party announced => exact ⟨_, course.arrives party announced⟩
    | passes now moment nextId people instancePolicies failing feed =>
      exact ⟨_, course.passes now moment nextId people instancePolicies failing feed⟩

theorem Course.acceptAll {requests : List (κ × Request)} (course : Course terms s₀ trace s)
    (admits : ∀ r ∈ requests, terms.admits r.2) : Course terms s₀ trace (s.acceptAll requests) := by
  induction requests generalizing s with
  | nil => exact course
  | cons r requests ih =>
    exact ih (course.accepts r.1 (admits r List.mem_cons_self))
      fun r hr => admits r (List.mem_cons_of_mem _ hr)

theorem Course.turns {order : List Nat} (course : Course terms s₀ trace s)
    (unheard : trace.Unheard) (allows : ∀ s q log c, terms.allows s q log c) :
    ∃ later, Course terms s₀ later (s.turns order) ∧ later.Unheard := by
  induction order generalizing s trace with
  | nil => exact ⟨trace, course, unheard⟩
  | cons i order ih =>
    show ∃ later, Course terms s₀ later ((s.turn i).turns order) ∧ later.Unheard
    unfold Crowd.turn
    split
    · next party q log c next running =>
      have ready := course.passes s.world.now s.world.moment (.generated s.issued.length)
        s.world.people s.world.instancePolicies s.world.failing s.world.feed
      exact ih (ready.proceeds running (allows _ q log c))
        fun party event => by simpa using unheard party event
    · exact ih course unheard

theorem Runs.admitted {w : World κ} {issued : List Uuid} (run : Runs terms (begin w issued) s) :
    ∀ th ∈ s.threads, terms.admits th.request :=
  run.forall_threads (fun _ _ admitted => admitted) fun _ h => h

structure Traced (trace : Trace κ) (s : Crowd κ) : Prop where
  logs : ∀ i th, s.threads[i]? = some th → th.log = trace.log i
  requests : ∀ i q x, .told i q x ∈ trace → ∃ th, s.threads[i]? = some th ∧ th.request = q

omit [DecidableEq κ] in
theorem Traced.accept (h : s.Traced trace) (party : κ) (q : Request) :
    (s.accept party q).Traced trace := by
  have kept {j : Nat} {th : Thread κ} (hj : s.threads[j]? = some th) :
      (s.accept party q).threads[j]? = some th :=
    (List.getElem?_append_left (List.getElem?_eq_some_iff.mp hj).1).trans hj
  refine ⟨fun j th hj => ?_, fun j q x hx => ?_⟩
  · rcases thread_of_accept hj with hj | rfl
    · exact h.logs j th hj
    · refine (List.eq_nil_iff_forall_not_mem.mpr fun x hx => ?_).symm
      obtain ⟨r, hr⟩ := Trace.mem_log hx
      obtain ⟨former, hformer, -⟩ := h.requests j r x hr
      obtain rfl := Option.some.inj ((kept hformer).symm.trans hj)
      simp [← h.logs j _ hformer] at hx
  · obtain ⟨th, hj, hq⟩ := h.requests j q x hx
    exact ⟨th, kept hj, hq⟩

theorem Traced.answered {party : κ} {log : Log} {c : Call}
    {next : c.Answer → Procedure (Except Fault q.Value)} (h : s.Traced trace)
    (running : s.threads[i]? = some ⟨party, q, log, .call c next⟩) :
    (s.answered i party q log c next).Traced
      (.told i q ⟨c, (s.world.answer party c).1⟩ :: trace) := by
  refine ⟨fun j th hj => ?_, fun j r x hx => ?_⟩
  · rcases thread_of_answered hj with ⟨rfl, rfl⟩ | ⟨hne, hj⟩
    · exact (Trace.log_told.trans (congrArg _ (h.logs _ _ running).symm)).symm
    · exact (h.logs j th hj).trans (Trace.log_told_other hne.symm).symm
  · have hi := (List.getElem?_eq_some_iff.mp running).1
    by_cases hji : j = i
    · subst hji
      refine ⟨_, List.getElem?_set_self hi, ?_⟩
      rcases List.mem_cons.mp hx with e | hx
      · cases e
        rfl
      · obtain ⟨th, hj, hq⟩ := h.requests j r x hx
        obtain rfl := Option.some.inj (running.symm.trans hj)
        exact hq
    · rcases List.mem_cons.mp hx with e | hx
      · cases e
        exact absurd rfl hji
      · obtain ⟨th, hj, hq⟩ := h.requests j r x hx
        exact ⟨th, (List.getElem?_set_ne fun e => hji e.symm).trans hj, hq⟩

variable {w : World κ} {issued : List Uuid}

theorem Course.traced (course : Course terms (begin w issued) trace s) : s.Traced trace := by
  induction course with
  | start => exact ⟨by simp [begin], by simp⟩
  | accepts _ party admitted ih => exact ih.accept party _
  | proceeds _ running allowed ih => exact ih.answered running
  | arrives _ party announced ih =>
    exact ⟨ih.logs, fun i q x hx => ih.requests i q x (by simpa using hx)⟩
  | passes _ now moment nextId people instancePolicies failing feed ih => exact { ih with }

structure Turn (terms : Terms κ) (s₀ : Crowd κ) (earlier : Trace κ) (i : Nat) (q : Request)
    (x : Exchange) (s t : Crowd κ) : Prop where
  before : Course terms s₀ earlier s
  after : Course terms s₀ (.told i q x :: earlier) t
  admitted : terms.admits q
  due : q.May (earlier.log i) x.call
  fits : x.Fits s.world.store t.world.store
  mine : ∀ y ∈ earlier.log i, .told i q y ∈ earlier

/-- Every call of a trace was made and answered during the run. -/
theorem Course.call (course : Course terms (begin w issued) trace s)
    (h : .told i q x :: earlier <:+ trace) :
    ∃ u t, Turn terms (begin w issued) earlier i q x u t ∧ t.world.store ∈ s.history := by
  induction course with
  | start => simp at h
  | accepts _ party admitted ih => exact ih h
  | arrives _ party announced ih =>
    exact ih ((List.suffix_cons_iff.mp h).resolve_left (by simp))
  | passes _ now moment nextId people instancePolicies failing feed ih => exact ih h
  | @proceeds trace s j party r log c next before running allowed ih =>
    rcases List.suffix_cons_iff.mp h with e | h
    · obtain ⟨e, rfl⟩ := List.cons.inj e
      cases e
      have traced := before.traced
      have hlog : log = earlier.log i := traced.logs _ _ running
      have mem := List.mem_of_getElem? running
      refine ⟨s, _, ⟨before, before.proceeds running allowed, ?_, ?_, ?_, ?_⟩, List.mem_cons_self⟩
      · exact before.runs.admitted _ mem
      · exact hlog ▸ (before.runs.conducts _ mem).due
      · exact World.answer_fits party c s.world
      · intro y hy
        obtain ⟨q', hq'⟩ := Trace.mem_log hy
        obtain ⟨th, hth, rfl⟩ := traced.requests i q' y hq'
        obtain rfl := Option.some.inj (running.symm.trans hth)
        exact hq'
    · obtain ⟨u, t, turn, mem⟩ := ih h
      exact ⟨u, t, turn, List.mem_cons_of_mem _ mem⟩

end Crowd

end Entitlement
