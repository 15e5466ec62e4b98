import Entitlement.Proofs.Crowd.Accounts
import Entitlement.Proofs.Crowd.Course
import Entitlement.Proofs.Crowd.Pace
import Entitlement.Proofs.Crowd.Pairs

/-!
# Sweeps that work at once

Any number of sweeps share a store, beside requests that assign rows and take them away. A row is
removed by one of them at most, which counts and announces it, and it was over when that sweep
began. The rows there have ever been bound how long each sweep works.
-/

set_option autoImplicit false

namespace Entitlement

def Terms.sweeping (κ : Type) : Terms κ where
  admits
    | .sweep size _ => 0 < size
    | _ => True
  allows s _ _ c := s.world.Reliable ∧ (c = .newId → s.world.nextId ∉ s.issued)

theorem Terms.sweeping_draws {κ : Type} : (Terms.sweeping κ).DrawsNew :=
  fun _ _ _ h => h.2 rfl

namespace Request

def isSweep : Request → Bool
  | .sweep _ _ => true
  | _ => false

def isAssign : Request → Bool
  | .assign _ _ _ _ => true
  | _ => false

end Request

structure Thread.Paces {κ : Type} (th : Thread κ) : Prop where
  lawful : th.log.Lawful th.request.Pace
  abides : Abides th.request.Pace th.request.Closes th.log th.rest

namespace Thread.Paces

variable {κ : Type} {party : κ} {q : Request} {log : Log} {c : Call}
  {next : c.Answer → Procedure (Except Fault q.Value)}

theorem told (h : Thread.Paces ⟨party, q, log, .call c next⟩) (r : c.Answer) :
    Thread.Paces ⟨party, q, ⟨c, r⟩ :: log, next r⟩ := by
  cases h.abides with
  | call due rest => exact ⟨⟨due, h.lawful⟩, rest r⟩

theorem closed {r : Except Fault q.Value} (h : Thread.Paces ⟨party, q, log, .done r⟩) :
    q.Closes log r := by
  cases h.abides with
  | done fits => exact fits

end Thread.Paces

namespace Crowd

variable {κ : Type} [DecidableEq κ] {terms : Terms κ} {s t : Crowd κ} {w : World κ}
  {issued : List Uuid} {th : Thread κ}

theorem Runs.paces (run : Runs terms (begin w issued) s) : ∀ th ∈ s.threads, th.Paces :=
  run.forall_threads (fun _ q _ => ⟨trivial, Service.request_paces q⟩) fun r h => h.told r

end Crowd

namespace Exchange

variable {s t : Store} {x : Exchange} {id : AssignmentId}

theorem Fits.removal (fits : x.Fits s t) (removed : x.removal? = some id) :
    (∃ a ∈ s.rows, a.id = id) ∧ t.rows.length < s.rows.length := by
  obtain rfl := eq_of_removal removed
  obtain ⟨was, rfl⟩ := Prod.mk.inj fits
  obtain ⟨a, ha, same⟩ := List.any_eq_true.mp was.symm
  refine ⟨⟨a, ha, of_decide_eq_true same⟩, ?_⟩
  exact List.length_filter_lt_length_iff_exists.mpr ⟨a, ha, by simpa using same⟩

theorem Fits.batch_length_le {batch : List Assignment} (fits : x.Fits s t)
    (listed : x.batch? = some batch) : batch.length ≤ s.rows.length := by
  unfold batch? at listed
  split at listed
  · obtain rfl := Option.some.inj listed
    rw [fits.1]
    refine Nat.le_trans (List.length_take_le' _ _) ?_
    rw [List.length_mergeSort]
    exact List.length_filter_le _ _
  · simp at listed

/-- No more rows come than are stored. -/
theorem Rewrites.length_le (h : x.Rewrites s t) :
    t.rows.length ≤ s.rows.length + x.inserted?.toList.length := by
  cases h with
  | keeps same => exact same ▸ Nat.le_add_right _ _
  | inserts free rows =>
    rw [rows, List.length_append]
    exact Nat.add_le_add_right (List.length_filter_le _ _) 1
  | removes rows => exact rows ▸ Nat.le_add_right_of_le (List.length_filter_le _ _)
  | drops rows => exact rows ▸ Nat.le_add_right_of_le (List.length_filter_le _ _)

end Exchange

theorem Assignment.expired_later {a : Assignment} {time later : Instant}
    (expired : a.isExpiredAt time = true) (le : time ≤ later) : a.isExpiredAt later = true := by
  unfold isExpiredAt at *
  split at expired
  · exact decide_eq_true (Instant.le_trans (of_decide_eq_true expired) le)
  · simp at expired

namespace World

variable {κ : Type} [DecidableEq κ] {w : World κ}

/-- No call on which a sweep depends fails in a reliable world. -/
theorem answer_steady (k : κ) (c : Call) (reliable : w.Reliable) :
    Exchange.falters ⟨c, (answer k c w).1⟩ = false := by
  cases c with
  | expiredAssignments time limit =>
    rw [answer_of_works (.expiredAssignments time limit) reliable rfl (.inl rfl)]
    rfl
  | deleteAssignment id =>
    rw [answer_of_works (.deleteAssignment id) reliable rfl (.inl rfl)]
    rfl
  | publish event =>
    rw [answer_of_works (.publish event) reliable rfl (.inr rfl)]
    rfl
  | _ => rfl

end World

namespace Crowd

variable {κ : Type} {w : World κ} {s t : Crowd κ} {th : Thread κ}

def removals (s : Crowd κ) : List AssignmentId := s.threads.flatMap (·.log.removals)

def stock (w : World κ) (s : Crowd κ) : Nat :=
  w.store.rows.length + (s.threads.flatMap (·.log.inserted)).length

structure Shares (w : World κ) (s : Crowd κ) : Prop where
  steady : s.Told fun _ x => x.falters = false
  apart : s.removals.Nodup
  enough : s.removals.length + s.world.store.rows.length ≤ s.stock w
  listed : s.Told fun _ x => ∀ batch, x.batch? = some batch → batch.length ≤ s.stock w

theorem Shares.accept (h : s.Shares w) (party : κ) (q : Request) : (s.accept party q).Shares w := by
  have removals : (s.accept party q).removals = s.removals := by
    simp [Crowd.removals, Crowd.accept, Log.removals]
  have stock : (s.accept party q).stock w = s.stock w := by
    simp [Crowd.stock, Crowd.accept, Log.inserted]
  exact {
    steady := h.steady.accept party q
    apart := removals ▸ h.apart
    enough := by
      rw [removals, stock]
      exact h.enough
    listed := by
      rw [stock]
      exact h.listed.accept party q }

variable [DecidableEq κ] {terms : Terms κ} {issued : List Uuid}

/-- What is removed was not removed before: the row with this identifier is still there. -/
theorem Distinguished.removed_once (rows : s.Distinguished) (stored : s.Stored) {id : AssignmentId}
    {party : κ} {c : Call} (removed : Exchange.removal? ⟨c, (s.world.answer party c).1⟩ = some id) :
    id ∉ s.removals := by
  intro before
  obtain ⟨th, hth, mem⟩ := List.mem_flatMap.mp before
  obtain ⟨a, held, hid, gone⟩ := rows.removed th hth _ (Log.mem_removals.mp mem) id true rfl
  obtain ⟨⟨b, there, hb⟩, -⟩ := (World.answer_fits party c s.world).removal removed
  have same := rows.row_of_id a b held ⟨_, stored.current, there⟩ (hid.trans hb.symm)
  exact gone (same ▸ there)

section

variable {i : Nat} {party : κ} {q : Request} {log : Log} {c : Call}
  {next : c.Answer → Procedure (Except Fault q.Value)}
  (running : s.threads[i]? = some ⟨party, q, log, .call c next⟩)

include running

theorem removals_answered : ((s.answered i party q log c next).removals).Perm
    (s.removals ++ (Exchange.removal? ⟨c, (s.world.answer party c).1⟩).toList) :=
  flatMap_set_perm running (filterMap_cons_toList _ _ _)

theorem stock_answered : (s.answered i party q log c next).stock w =
    s.stock w + (Exchange.inserted? ⟨c, (s.world.answer party c).1⟩).toList.length := by
  have perm : ((s.answered i party q log c next).threads.flatMap (·.log.inserted)).Perm _ :=
    flatMap_set_perm running (filterMap_cons_toList _ _ _)
  rw [stock, perm.length_eq, List.length_append, ← Nat.add_assoc]
  rfl

theorem Shares.answered (h : s.Shares w) (rows : s.Distinguished) (stored : s.Stored)
    (reliable : s.world.Reliable) : (s.answered i party q log c next).Shares w where
  steady := h.steady.answered running (fun _ _ hx => hx) (World.answer_steady party c reliable)
  apart := by
    refine (removals_answered running).nodup_iff.mpr ?_
    cases removed : Exchange.removal? ⟨c, (s.world.answer party c).1⟩ with
    | none => simpa using h.apart
    | some id =>
      refine h.apart.append (List.nodup_singleton id) ?_
      exact List.disjoint_singleton.mpr (rows.removed_once stored removed)
  enough := by
    have fits := World.answer_fits party c s.world
    have before := h.enough
    rw [(removals_answered running).length_eq, List.length_append, stock_answered running]
    cases removed : Exchange.removal? ⟨c, (s.world.answer party c).1⟩ with
    | none =>
      have : (s.answered i party q log c next).world.store.rows.length ≤ _ :=
        fits.rewrites.length_le
      simp only [Option.toList_none, List.length_nil]
      omega
    | some id =>
      have : (s.answered i party q log c next).world.store.rows.length < _ :=
        (fits.removal removed).2
      simp only [Option.toList_some, List.length_singleton]
      omega
  listed := by
    rw [stock_answered running]
    refine h.listed.answered running
      (fun _ x hx batch told => Nat.le_add_right_of_le (hx batch told)) fun batch told => ?_
    have fits := World.answer_fits party c s.world
    have held := Nat.le_trans (Nat.le_add_left _ _) h.enough
    exact Nat.le_add_right_of_le (Nat.le_trans (fits.batch_length_le told) held)

end

theorem Step.shares (step : Step terms s t)
    (reliable : ∀ s q log c, terms.allows s q log c → s.world.Reliable) (rows : s.Distinguished)
    (stored : s.Stored) (h : s.Shares w) : t.Shares w := by
  cases step with
  | accepts party admitted => exact h.accept party _
  | proceeds running allowed => exact h.answered running rows stored (reliable _ _ _ _ allowed)
  | arrives party announced => exact { h with }
  | passes now moment nextId people instancePolicies failing feed => exact { h with }

theorem Runs.shares (run : Runs (.sweeping κ) (begin w issued) s)
    (distinct : Store.Distinct w.store.rows) (known : ∀ a ∈ w.store.rows, a.id.uuid ∈ issued) :
    s.Shares w := by
  induction run with
  | refl =>
    exact {
      steady := by simp [Told, begin]
      apart := by simp [Crowd.removals, begin]
      enough := by simp [Crowd.removals, stock, begin]
      listed := by simp [Told, begin] }
  | tail run step ih =>
    exact step.shares (fun _ _ _ _ allowed => allowed.1)
      (Runs.distinguished run Terms.sweeping_draws distinct known) (Runs.stored run) ih

end Crowd

namespace Thread

variable {κ : Type}

def swept? : Thread κ → Option (Except Fault Nat)
  | ⟨_, .sweep _ _, _, .done result⟩ => some result
  | _ => none

def count (th : Thread κ) : Nat :=
  match th.swept? with
  | some (.ok removed) => removed
  | _ => 0

theorem swept?_eq {th : Thread κ} {result : Except Fault Nat} (h : th.swept? = some result) :
    ∃ party size rounds log, th = ⟨party, .sweep size rounds, log, .done result⟩ := by
  unfold swept? at h
  split at h
  · obtain rfl := Option.some.inj h
    exact ⟨_, _, _, _, rfl⟩
  · simp at h

end Thread

namespace Crowd

variable {κ : Type} {w : World κ} {s : Crowd κ} {th : Thread κ}

def sweeps (s : Crowd κ) : List (Thread κ) := s.threads.filter (·.request.isSweep)

def supply (w : World κ) (s : Crowd κ) : Nat :=
  w.store.rows.length + s.threads.countP (·.request.isAssign)

/-- Sweeps that work at once share the rows that are over, and come to an end. -/
structure Swept (w : World κ) (s : Crowd κ) : Prop where
  apart : s.removals.Nodup
  expired : ∀ th ∈ s.sweeps, ∀ id ∈ th.log.removals, ∃ (a : Assignment) (time : Instant),
    (a.HeldIn s.history ∧ a.id = id ∧ ∀ b : Assignment, b.HeldIn s.history → b.id = id → b = a) ∧
      a ∉ s.world.store.rows ∧ th.log.Began time ∧
      ∀ later, time ≤ later → a.isActiveAt later = false
  returned : ∀ th ∈ s.sweeps, ∀ result, th.swept? = some result →
    ∃ removed, result = .ok removed ∧ th.log.Tally removed ∧
      ∀ a ∈ th.log.withdrawn, a.HeldIn s.history
  total : (∀ th ∈ s.sweeps, th.swept?.isSome = true) →
    (s.sweeps.map Thread.count).sum = (s.sweeps.flatMap (·.log.removals)).length ∧
      (s.sweeps.flatMap (·.log.withdrawn)).map (·.id) = s.sweeps.flatMap (·.log.removals)
  paced : ∀ th ∈ s.sweeps, ∀ time limit r before,
    ⟨.expiredAssignments time limit, r⟩ :: before <:+ th.log →
      Log.batches before = [] ∨ Log.progressed before = true
  bounded : ∀ th ∈ s.sweeps, th.log.length ≤ 2 + (s.supply w + 1) * (1 + 3 * s.supply w)
  exhausted : ∀ th ∈ s.sweeps, th.swept?.isSome = true → ∀ size rounds,
    th.request = .sweep size rounds → s.supply w ≤ rounds → th.log.Exhausts size

/-- A request stores no row, or one if it is an assignment. -/
theorem inserted_le (conducts : th.Conducts) (paces : th.Paces) :
    th.log.inserted.length ≤ th.request.isAssign.toNat := by
  cases hq : th.request with
  | assign user role expiresAt actor =>
    have lawful := paces.lawful
    rw [hq] at lawful
    exact lawful.inserted_le
  | _ =>
    have none : th.log.inserted = [] := List.eq_nil_iff_forall_not_mem.mpr fun a ha => by
      obtain ⟨before, -, grants⟩ := conducts.lawful.due (Log.mem_inserted.mp ha)
      obtain ⟨actor, same⟩ := grants.request
      simp [hq] at same
    exact Nat.le_of_eq (congrArg List.length none)

theorem length_flatMap_le {α β : Type} {f : α → List β} {q : α → Bool} {l : List α}
    (h : ∀ a ∈ l, (f a).length ≤ (q a).toNat) : (l.flatMap f).length ≤ l.countP q := by
  induction l with
  | nil => exact Nat.le_refl _
  | cons a l ih =>
    have first := h a List.mem_cons_self
    have others := ih fun b hb => h b (List.mem_cons_of_mem _ hb)
    have counted : (if q a then 1 else 0) = (q a).toNat := by cases q a <;> rfl
    rw [List.flatMap_cons, List.length_append, List.countP_cons, counted, Nat.add_comm]
    exact Nat.add_le_add others first

theorem stock_le_supply (conducts : ∀ th ∈ s.threads, th.Conducts)
    (paces : ∀ th ∈ s.threads, th.Paces) : s.stock w ≤ s.supply w :=
  Nat.add_le_add_left
    (length_flatMap_le fun th hth => inserted_le (conducts th hth) (paces th hth)) _

theorem mem_sweeps : th ∈ s.sweeps ↔ th ∈ s.threads ∧
    ∃ size rounds, th.request = .sweep size rounds := by
  refine List.mem_filter.trans (and_congr_right fun _ => ?_)
  cases th.request <;> simp [Request.isSweep]

structure Keeps (w : World κ) (s : Crowd κ) : Prop where
  admitted : ∀ th ∈ s.threads, (Terms.sweeping κ).admits th.request
  conducts : ∀ th ∈ s.threads, th.Conducts
  paces : ∀ th ∈ s.threads, th.Paces
  stored : s.Stored
  rows : s.Distinguished
  shares : s.Shares w

section

variable (h : s.Keeps w) (mem : th ∈ s.sweeps)

include h mem

theorem Keeps.expired {id : AssignmentId} (removed : id ∈ th.log.removals) :
    ∃ (a : Assignment) (time : Instant),
      (a.HeldIn s.history ∧ a.id = id ∧
        ∀ b : Assignment, b.HeldIn s.history → b.id = id → b = a) ∧
      a ∉ s.world.store.rows ∧ th.log.Began time ∧
      ∀ later, time ≤ later → a.isActiveAt later = false := by
  obtain ⟨hth, size, rounds, hq⟩ := mem_sweeps.mp mem
  have told := h.stored.told th hth
  have deleted := Log.mem_removals.mp removed
  obtain ⟨before, suffix, a, hid, suspect⟩ := (h.conducts th hth).lawful.due deleted
  have suspect := suspect.mono ((List.suffix_cons _ _).trans suffix)
  obtain ⟨b, held, hb, gone⟩ := h.rows.removed th hth _ deleted id true rfl
  obtain rfl := h.rows.row_of_id a b (suspect.held told) held (hid.trans hb.symm)
  rcases suspect.judged (h.conducts th hth).lawful told with ⟨time, -, began, expired⟩ | ⟨other, -⟩
  · have only (c : Assignment) (hc : c.HeldIn s.history) (same : c.id = id) : c = a :=
      h.rows.row_of_id c a hc held (same.trans hid.symm)
    refine ⟨a, time, ⟨held, hid, only⟩, gone, began, fun later le => ?_⟩
    rw [Assignment.isActiveAt, Assignment.expired_later expired le]
    rfl
  · simp [hq, Request.unassigns] at other

theorem Keeps.returned {result : Except Fault Nat} (swept : th.swept? = some result) :
    ∃ removed, result = .ok removed ∧ th.log.Tally removed ∧
      ∀ a ∈ th.log.withdrawn, a.HeldIn s.history := by
  obtain ⟨hth, -⟩ := mem_sweeps.mp mem
  obtain ⟨party, size, rounds, log, rfl⟩ := Thread.swept?_eq swept
  have closed := (h.paces _ hth).closed
  have room : 0 < size := h.admitted _ hth
  cases result with
  | error fault =>
    rcases closed with rfl | ⟨x, hx, falters⟩
    · exact absurd room (Nat.lt_irrefl 0)
    · rw [h.shares.steady _ hth x hx] at falters
      cases falters
  | ok removed =>
    refine ⟨removed, rfl, closed.1, fun a ha => ?_⟩
    obtain ⟨before, suffix, earned⟩ := (h.conducts _ hth).lawful.due (Log.mem_withdrawn.mp ha)
    exact (earned.1.mono ((List.suffix_cons _ _).trans suffix)).held (h.stored.told _ hth)

theorem Keeps.removals_le : th.log.removals.length ≤ s.supply w := by
  obtain ⟨hth, -⟩ := mem_sweeps.mp mem
  have part : ([th].flatMap (·.log.removals)).length ≤ s.removals.length :=
    ((List.singleton_sublist.mpr hth).flatMap _).length_le
  rw [List.flatMap_singleton] at part
  have enough := h.shares.enough
  have supply := stock_le_supply (w := w) h.conducts h.paces
  omega

theorem Keeps.bounded :
    th.log.length ≤ 2 + (s.supply w + 1) * (1 + 3 * s.supply w) := by
  obtain ⟨hth, size, rounds, hq⟩ := mem_sweeps.mp mem
  have lawful := (h.paces th hth).lawful
  rw [hq] at lawful
  have listed : ∀ batch ∈ th.log.batches, batch.length ≤ s.supply w := by
    intro batch hb
    obtain ⟨x, hx, told⟩ := List.mem_filterMap.mp hb
    exact Nat.le_trans (h.shares.listed th hth x hx batch told)
      (stock_le_supply h.conducts h.paces)
  have rounds : th.log.batches.length ≤ s.supply w + 1 := by
    have := lawful.batches_le
    have := h.removals_le mem
    omega
  calc th.log.length
      ≤ Log.allowance th.log.batches := lawful.length_le
    _ ≤ 2 + th.log.batches.length * (1 + 3 * s.supply w) := Log.allowance_le listed
    _ ≤ 2 + (s.supply w + 1) * (1 + 3 * s.supply w) :=
      Nat.add_le_add_left (Nat.mul_le_mul_right _ rounds) 2

theorem Keeps.exhausted (swept : th.swept?.isSome = true) {size rounds : Nat}
    (hq : th.request = .sweep size rounds) (many : s.supply w ≤ rounds) :
    th.log.Exhausts size := by
  obtain ⟨hth, -⟩ := mem_sweeps.mp mem
  obtain ⟨result, swept⟩ := Option.isSome_iff_exists.mp swept
  obtain ⟨removed, rfl, -⟩ := h.returned mem swept
  obtain ⟨party, size', rounds', log, rfl⟩ := Thread.swept?_eq swept
  obtain ⟨rfl, rfl⟩ := Request.sweep.inj hq
  rcases (h.paces _ hth).closed with ⟨-, done | ⟨progressed, all⟩⟩
  · exact done
  · have lawful := (h.paces _ hth).lawful.batches_le
    have few := h.removals_le mem
    rw [show Log.progressed _ = true from progressed, all, Bool.toNat_true] at lawful
    omega

omit mem in
theorem Keeps.total (returned : ∀ th ∈ s.sweeps, th.swept?.isSome = true) :
    (s.sweeps.map Thread.count).sum = (s.sweeps.flatMap (·.log.removals)).length ∧
      (s.sweeps.flatMap (·.log.withdrawn)).map (·.id) = s.sweeps.flatMap (·.log.removals) := by
  have tally : ∀ th ∈ s.sweeps, th.log.Tally th.count := by
    intro th mem
    obtain ⟨result, swept⟩ := Option.isSome_iff_exists.mp (returned th mem)
    obtain ⟨removed, rfl, tally, -⟩ := h.returned mem swept
    rw [Thread.count, swept]
    exact tally
  constructor
  · rw [List.length_flatMap]
    exact congrArg List.sum (List.map_congr_left fun th mem => (tally th mem).counted)
  · rw [List.map_flatMap]
    exact List.flatMap_congr fun th mem => (tally th mem).withdrawn

end

variable [DecidableEq κ] {issued : List Uuid}

theorem Runs.keeps (run : Runs (.sweeping κ) (begin w issued) s)
    (distinct : Store.Distinct w.store.rows) (known : ∀ a ∈ w.store.rows, a.id.uuid ∈ issued) :
    s.Keeps w where
  admitted := run.admitted
  conducts := run.conducts
  paces := run.paces
  stored := run.stored
  rows := run.distinguished Terms.sweeping_draws distinct known
  shares := run.shares distinct known

/-- However they interleave, sweeps count no row twice, remove none that is active, and end. -/
theorem sweeps_share_rows (distinct : Store.Distinct w.store.rows)
    (known : ∀ a ∈ w.store.rows, a.id.uuid ∈ issued)
    (run : Runs (.sweeping κ) (begin w issued) s) : s.Swept w := by
  have h := run.keeps distinct known
  exact {
    apart := h.shares.apart
    expired := fun th mem id removed => h.expired mem removed
    returned := fun th mem result swept => h.returned mem swept
    total := h.total
    paced := fun th mem time limit r before earlier => by
      obtain ⟨hth, size, rounds, hq⟩ := mem_sweeps.mp mem
      have lawful := ((h.paces th hth).lawful).of_suffix earlier
      rw [hq] at lawful
      exact (lawful.1.2 time limit rfl).2
    bounded := fun th mem => h.bounded mem
    exhausted := fun th mem swept size rounds hq many => h.exhausted mem swept hq many }

/-- Two sweeps list the same row while another request stores one. The first of them removes it and
looks for more; the second finds it gone and ends. -/
theorem listed_twice_removed_once :
    let role : RoleId := ⟨.generated 0⟩
    let ended : Assignment := ⟨⟨.generated 8⟩, role, ⟨.generated 9⟩, some default, default⟩
    let w := holding ended
    let issued := [role.uuid, ended.id.uuid]
    let s := ((begin w issued).acceptAll [(.main, .sweep 1 2), (.peer, .sweep 1 2),
      (.main, .assign ⟨.generated 7⟩ role none none)]).turns (List.replicate 2 0 ++
        List.replicate 2 1 ++ List.replicate 9 2 ++ List.replicate 3 0 ++ [1, 0])
    (Store.Distinct w.store.rows ∧ (∀ a ∈ w.store.rows, a.id.uuid ∈ issued) ∧
      Runs (.sweeping Party) (begin w issued) s) ∧
      s.sweeps.map Thread.swept? = [some (.ok 1), some (.ok 0)] ∧
      s.sweeps.map (·.log.batches) = [[[], [ended]], [[ended]]] ∧
      s.world.store.rows.map (·.userId) = [⟨.generated 7⟩] ∧ s.Swept w := by
  intro role ended w issued s
  have distinct : Store.Distinct w.store.rows := ⟨List.nodup_singleton _, List.nodup_singleton _⟩
  have known : ∀ a ∈ w.store.rows, a.id.uuid ∈ issued := by simp [w, holding, issued]
  have run : Runs (.sweeping Party) (begin w issued) s := by
    refine Runs.turns (Runs.acceptAll .refl ?_) ?_ (show Smooth w.now _ _ by decide +kernel)
    · simp [Terms.sweeping]
    · exact fun s q log c works _ fresh => ⟨World.reliable_of_failing works, fun _ => fresh⟩
  exact ⟨⟨distinct, known, run⟩, by decide +kernel, by decide +kernel, by decide +kernel,
    sweeps_share_rows distinct known run⟩

end Crowd

end Entitlement
