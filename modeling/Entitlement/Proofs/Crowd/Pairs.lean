import Entitlement.Proofs.Crowd.Identifiers
import Entitlement.Proofs.Instant

/-!
# Requests about one pair

Which requests may take a row of a user and a role away: those that find it over, and those
that were made to take it away. While nothing fails and all of them judge by given times, a
row that lasts beyond these times is removed on purpose only.
-/

set_option autoImplicit false

namespace Entitlement

namespace Request

def assigns (user : UserId) (role : RoleId) : Request → Bool
  | .assign u r _ _ => u = user ∧ r = role
  | _ => false

def unassigns (user : UserId) (role : RoleId) : Request → Bool
  | .unassign u r _ => u = user ∧ r = role
  | _ => false

def judges (user : UserId) (role : RoleId) : Request → Bool
  | .sweep _ _ => true
  | q => q.assigns user role || q.unassigns user role

variable {q : Request} {log : Log} {a : Assignment}

/-- A request that suspects a row has found it to be over, or was made to take it away. -/
theorem Suspects.judged (h : q.Suspects log a) (lawful : log.Lawful q.May)
    {history : List Store} (told : ∀ y ∈ log, y.StoredIn history) :
    (∃ time, q.judges a.userId a.roleId = true ∧ log.Began time ∧ a.isExpiredAt time = true) ∨
      (q.unassigns a.userId a.roleId = true ∧
        ⟨.findAssignment a.userId a.roleId, .ok (some a)⟩ ∈ log) := by
  cases h with
  | @found user role time shown began expired =>
    obtain ⟨-, rfl, rfl⟩ := told _ shown
    obtain ⟨before, -, may⟩ := lawful.due shown
    refine .inl ⟨time, ?_, began, expired⟩
    rcases may with ⟨expiresAt, actor, rfl⟩ | ⟨actor, rfl⟩ <;> simp [judges, assigns, unassigns]
  | @listed time limit batch shown mem =>
    obtain ⟨before, hsuffix, ⟨size, rounds, rfl⟩, began⟩ := lawful.due shown
    exact .inl ⟨time, rfl, began.mono ((List.suffix_cons _ _).trans hsuffix), (told _ shown a mem).2⟩
  | @named user role actor request shown =>
    obtain ⟨-, rfl, rfl⟩ := told _ shown
    exact .inr ⟨by simp [request, unassigns], shown⟩

end Request

def Assignment.Lasts (times : Instant → Prop) (a : Assignment) : Prop :=
  ∀ time, times time → a.isExpiredAt time = false

structure Terms.Tend {κ : Type} (terms : Terms κ) (user : UserId) (role : RoleId)
    (times : Instant → Prop) : Prop where
  reliable : ∀ s q log c, terms.allows s q log c → s.world.Reliable
  draws : terms.DrawsNew
  timely : ∀ s q log, terms.allows s q log .now → log.readings = [] →
    q.judges user role = true → times s.world.now
  keeps : ∀ actor, ¬ terms.admits (.deleteRole role actor)

namespace Crowd

variable {κ : Type} {terms : Terms κ} {user : UserId} {role : RoleId} {times : Instant → Prop}
  {s t : Crowd κ} {th : Thread κ} {a : Assignment}

structure Tended (terms : Terms κ) (user : UserId) (role : RoleId) (times : Instant → Prop)
    (s : Crowd κ) : Prop where
  admitted : ∀ th ∈ s.threads, terms.admits th.request
  timely : ∀ th ∈ s.threads, th.request.judges user role = true →
    ∀ time, th.log.Began time → times time
  sure : s.Told fun _ x => ∀ fault, x.fault? = some fault →
    ∃ a, x = ⟨.insertAssignment a, .error fault⟩ ∧ fault = .alreadyAssigned a.roleId a.userId

variable [DecidableEq κ]

section

variable {i : Nat} {party : κ} {q : Request} {log : Log} {c : Call}
  {next : c.Answer → Procedure (Except Fault q.Value)}

theorem Tended.answered (h : s.Tended terms user role times) (tend : terms.Tend user role times)
    (running : s.threads[i]? = some ⟨party, q, log, .call c next⟩)
    (allowed : terms.allows s q log c) :
    (s.answered i party q log c next).Tended terms user role times where
  admitted th hth := by
    have admitted : terms.admits q := h.admitted _ (List.mem_of_getElem? running)
    rcases mem_answered hth with hth | rfl
    · exact h.admitted th hth
    · exact admitted
  timely th hth judges time began := by
    rcases mem_answered hth with hth | rfl
    · exact h.timely th hth judges time began
    · rcases began.of_cons with began | ⟨hfirst, hnow⟩
      · exact h.timely _ (List.mem_of_getElem? running) judges time began
      · obtain ⟨rfl, rfl⟩ := World.answer_reading party c hnow
        exact tend.timely _ _ _ allowed hfirst judges
  sure := by
    refine h.sure.answered running (fun _ _ hx => hx) fun fault hfault => ?_
    obtain ⟨a, e, hins⟩ := World.answer_fault party c (tend.reliable _ _ _ _ allowed) hfault
    exact ⟨a, e, (Store.insertAssignment_error.mp hins).2⟩

end

theorem Step.tended (step : Step terms s t) (tend : terms.Tend user role times)
    (h : s.Tended terms user role times) : t.Tended terms user role times := by
  cases step with
  | @accepts party q admitted =>
    refine ⟨fun th hth => ?_, fun th hth judges time began => ?_, h.sure.accept party q⟩
    · rcases mem_accept hth with hth | rfl
      · exact h.admitted th hth
      · exact admitted
    · rcases mem_accept hth with hth | rfl
      · exact h.timely th hth judges time began
      · simp [Log.Began, Log.readings] at began
  | proceeds running allowed => exact h.answered tend running allowed
  | arrives party announced => exact { h with }
  | passes now moment nextId people instancePolicies failing feed => exact { h with }

structure Orderly (terms : Terms κ) (user : UserId) (role : RoleId) (times : Instant → Prop)
    (s : Crowd κ) : Prop where
  conducts : ∀ th ∈ s.threads, th.Conducts
  stored : s.Stored
  rows : s.Distinguished
  tended : s.Tended terms user role times

theorem Runs.orderly {w : World κ} {issued : List Uuid} (run : Runs terms (begin w issued) s)
    (tend : terms.Tend user role times) (distinct : Store.Distinct w.store.rows)
    (known : ∀ a ∈ w.store.rows, a.id.uuid ∈ issued) : s.Orderly terms user role times := by
  refine ⟨Runs.conducts run, Runs.stored run, Runs.distinguished run tend.draws distinct known, ?_⟩
  induction run with
  | refl => exact ⟨by simp [begin], by simp [begin], by simp [Told, begin]⟩
  | tail _ step ih => exact step.tended tend ih

section

variable (h : s.Orderly terms user role times) (hu : a.userId = user) (hr : a.roleId = role)
  (lasts : a.Lasts times)

include h hu hr lasts

omit [DecidableEq κ] in
/-- Only a request made to take a lasting row away suspects it. -/
theorem Orderly.suspects (mem : th ∈ s.threads) (suspect : th.request.Suspects th.log a) :
    th.request.unassigns user role = true ∧
      ⟨.findAssignment user role, .ok (some a)⟩ ∈ th.log := by
  subst hu hr
  rcases suspect.judged (h.conducts th mem).lawful (h.stored.told th mem) with
    ⟨time, judges, began, expired⟩ | unassigns
  · have lasting := lasts time (h.tended.timely th mem judges time began)
    simp [lasting] at expired
  · exact unassigns

/-- A lasting row stays until it is taken away on purpose. -/
theorem Orderly.stays (tend : terms.Tend user role times) {i : Nat} {party : κ} {q : Request}
    {log : Log} {c : Call} {next : c.Answer → Procedure (Except Fault q.Value)}
    (running : s.threads[i]? = some ⟨party, q, log, .call c next⟩) (ha : a ∈ s.world.store.rows) :
    a ∈ (s.answered i party q log c next).world.store.rows ∨
      (q.unassigns user role = true ∧ ⟨.findAssignment user role, .ok (some a)⟩ ∈ log) := by
  have mem := List.mem_of_getElem? running
  have may := (h.conducts _ mem).due
  rcases h.rows.kept_of_answered h.stored running may ha with ha | rfl | rfl
  · exact .inl ha
  · obtain ⟨b, hid, suspect⟩ := may
    have held := suspect.held (h.stored.told _ mem)
    obtain rfl := h.rows.row_of_id b a held ⟨_, h.stored.current, ha⟩ hid
    exact .inr (h.suspects hu hr lasts mem suspect)
  · obtain ⟨actor, rfl⟩ := may
    exact absurd (hr ▸ h.tended.admitted _ mem) (tend.keeps actor)

end

structure Shown (rows : List Assignment) (user : UserId) (role : RoleId) (s : Crowd κ) : Prop where
  held : ∀ a ∈ rows, a.HeldIn s.history
  looked : s.Told fun _ x => ∀ found, x = ⟨.findAssignment user role, .ok found⟩ →
    ∀ a ∈ rows, a.userId = user → a.roleId = role → a ∈ s.world.store.rows → found = some a

variable {rows : List Assignment}

omit [DecidableEq κ] in
theorem shown_begin (w : World κ) (issued : List Uuid) :
    (begin w issued).Shown w.store.rows user role :=
  ⟨fun _ ha => ⟨_, List.mem_cons_self, ha⟩, by simp [Told, begin]⟩

omit [DecidableEq κ] in
theorem Shown.accept (h : s.Shown rows user role) (party : κ) (q : Request) :
    (s.accept party q).Shown rows user role := ⟨h.held, h.looked.accept party q⟩

theorem Shown.answered {i : Nat} {party : κ} {q : Request} {log : Log} {c : Call}
    {next : c.Answer → Procedure (Except Fault q.Value)} (h : s.Shown rows user role)
    (orderly : s.Orderly terms user role times)
    (running : s.threads[i]? = some ⟨party, q, log, .call c next⟩) :
    (s.answered i party q log c next).Shown rows user role where
  held a ha := (h.held a ha).mono history_grows
  looked := by
    have may := (orderly.conducts _ (List.mem_of_getElem? running)).due
    have still {a} (ha : a ∈ rows)
        (there : a ∈ (s.answered i party q log c next).world.store.rows) :
        a ∈ s.world.store.rows :=
      by_contra fun gone => orderly.rows.gone_of_answered running may (h.held a ha) gone there
    refine h.looked.answered running
      (fun _ x hx found e a ha hu hr there => hx found e a ha hu hr (still ha there))
      fun found e a ha hu hr there => ?_
    have fits := World.answer_fits party c s.world
    rw [e] at fits
    obtain ⟨rfl, -⟩ := fits
    exact orderly.rows.distinct.findAssignment_iff.mpr ⟨still ha there, hu, hr⟩

def holding (row : Assignment) : World Party :=
  let start : World Party := .startingAt default 0
  let defined := ((begin start []).acceptAll [(.main, .createRole (.manual "r") none)]).turns
    (List.replicate 6 0)
  { start with store := ⟨defined.world.store.roles, [row]⟩ }

end Crowd

end Entitlement
