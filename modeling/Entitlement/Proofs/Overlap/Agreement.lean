import Entitlement.Proofs.Overlap.Settling

/-!
# Lists after overlapping requests

Once all requests have returned, every list in the cache holds the stored rows of its
user, provided that grants were applied in order. A grant that is applied after its row
was removed brings the row back into the list.
-/

set_option autoImplicit false

namespace Entitlement.Pool

variable {κ : Type} {k : κ} {s : Pool κ} {b : Ledger} {i : Nat} {a : Assignment}

def Agrees (k : κ) (s : Pool κ) : Prop :=
  ∀ e ∈ (s.world.caches k).lists.entries,
    e.2.value.Perm (s.world.store.rows.filter fun a => a.userId = e.1)

instance (k : κ) (s : Pool κ) : Decidable (s.Agrees k) :=
  inferInstanceAs (Decidable (∀ e ∈ _, _))

instance (s : Pool κ) : Decidable s.Idle := inferInstanceAs (Decidable (∀ p ∈ _, _))

/-- Nothing is owed once all requests have returned. -/
theorem Told.free_of_done (h : s.Told k b) (done : ∀ p, s.calls[i]? = some p → p.isDone = true) :
    b.stage i = .free := by
  rcases hi : s.calls[i]? with _ | p
  · exact h.absent i hi
  · obtain ⟨known, -, duty⟩ := h.duties i p hi
    have hdone := done p hi
    generalize b.stage i = stage at duty ⊢
    cases duty with
    | done fits => exact fits
    | _ => simp [Procedure.isDone] at hdone

theorem Told.agrees (h : s.Told k b) (settled : ∀ e, ¬ b.Owed e) : s.Agrees k := by
  rintro ⟨user, c⟩ hc
  have hl := h.settling.lists user c (h.lists ▸ hc)
  have hstore : (s.world.store.rows.filter fun a => a.userId = user).Nodup :=
    (h.rows ▸ h.settling.rows.rows_nodup.of_map).filter _
  apply (List.perm_ext_iff_of_nodup hl.sound.roles_nodup.of_map hstore).mpr
  intro a
  rw [List.mem_filter, decide_eq_true_eq, ← h.rows]
  constructor
  · intro ha
    exact ⟨(hl.live a ha).resolve_right (settled _), hl.sound.of_user a ha⟩
  · intro ha
    exact (hl.full a ha.1 ha.2).resolve_right (settled _)

variable [DecidableEq κ]

theorem proceed_applies {e : RoleEvent} {next : Unit → Procedure Unit}
    (due : s.calls[i]? = some (.call (.applyEvent e) next)) :
    (s.proceed k i).world = s.world.setCache k ((s.world.caches k).apply e) := by
  rw [proceed_of_call due]
  rfl

section

variable {next : Unit → Procedure Unit} (h : s.Told k b)
  (due : s.calls[i]? = some (.call (.applyEvent (.userRoleAssigned a)) next))
  (owing : b.stage i = .owing (.userRoleAssigned a))
  (others : ∀ j, j ≠ i → b.stage j = .free)

include h due owing others

theorem Told.inOrder_of_agrees (agrees : (s.proceed k i).Agrees k) : s.InOrder k i := by
  rintro x hx ⟨user, c⟩ hc rfl
  obtain rfl : a = x := by
    rw [granting, due_of_call due] at hx
    exact Option.some.inj hx
  have hl := h.settling.lists _ c (h.lists ▸ hc)
  rw [← h.rows]
  constructor
  · intro stored y hy hr hlt
    have hrow : y ∈ b.rows := (hl.live y hy).resolve_right fun howed => by
      cases Ledger.owed_alone owing others howed
    obtain rfl := h.settling.rows.row_of_pair hrow stored (hl.sound.of_user y hy) hr
    exact Instant.lt_irrefl hlt
  · intro latest
    have hin := UserLists.mem_patch_assigned
      (hl.hid h.settling (h.settling.fits_of owing)) latest
    have hafter := agrees
      (a.userId, { c with value := UserLists.patch (.userRoleAssigned a) c.value }) (by
        rw [proceed_applies due, World.setCache_caches]
        exact List.mem_map.mpr ⟨_, hc, by simp⟩)
    rw [proceed_applies due] at hafter
    exact h.rows ▸ (List.mem_filter.mp (hafter.mem_iff.mp hin)).1

theorem Told.agrees_of_inOrder {known : List Assignment} (hknown : known ⊆ b.history)
    (rest : Dutiful Service.Free known .free (next ())) (inOrder : s.InOrder k i) :
    (s.proceed k i).Agrees k := by
  have told := h.grants hknown due owing inOrder rest
  apply told.agrees
  rintro e ⟨j, hj⟩
  by_cases hji : j = i
  · subst hji
    rw [Ledger.enter_stage_self] at hj
    simp at hj
  · rw [Ledger.enter_stage_other hji] at hj
    simp [others j hji] at hj

end

/-- The last request that still runs applies its grant: afterwards the lists agree with
the store exactly if it was in order. -/
theorem Told.agrees_iff (h : s.Told k b) (granting : s.granting i = some a)
    (alone : ∀ p ∈ s.calls.eraseIdx i, p.isDone = true) :
    (s.proceed k i).Agrees k ↔ s.InOrder k i := by
  obtain ⟨next, due⟩ := call_of_granting granting
  obtain ⟨known, hknown, duty⟩ := h.duties i _ due
  have others (j : Nat) (hj : j ≠ i) : b.stage j = .free :=
    h.free_of_done fun p hp => alone p (List.mem_eraseIdx_iff_getElem?.mpr ⟨j, hj, hp⟩)
  generalize hstage : b.stage i = stage at duty
  cases duty with
  | calm calm rest => exact calm.elim
  | applies rest =>
    constructor
    · exact h.inOrder_of_agrees due hstage others
    · exact h.agrees_of_inOrder due hstage others hknown rest

/-- Once overlapping requests have returned, the lists agree with the store if every grant
was applied in order. Where one request is left and applies a grant, they agree right
after it only if that was in order too. -/
theorem lists_settle {s₀ s : Pool κ} (start : s₀.Begins k) (run : Runs k (InOrder k) s₀ s) :
    (s.Idle → s.Agrees k) ∧
      ∀ i a, s.granting i = some a →
        (∀ p ∈ s.calls.eraseIdx i, p.isDone = true) →
        ((s.proceed k i).Agrees k ↔ s.InOrder k i) := by
  obtain ⟨b, h⟩ := run.told start
  refine ⟨fun idle => h.agrees fun e ⟨j, hj⟩ => ?_, fun i a => h.agrees_iff⟩
  rw [h.free_of_done fun p hp => idle p (List.mem_of_getElem? hp)] at hj
  simp at hj

/-- Requests that overlap while the row is granted before it is removed leave the lists in
agreement. A grant that is applied after the removal breaks it. -/
theorem lists_settle_in_order :
    let w := ((World.startingAt default 0).perform ()
      (Service.createRole (.manual "r") none)).2
    let s₀ : Pool Unit := ⟨{ w with nextId := .generated 1 }, [], []⟩
    let user : UserId := ⟨.generated 0⟩
    let role : RoleId := ⟨.generated 0⟩
    let s := ((s₀.accept (Service.cachedAssignments user)).accept
      (Service.assign user role none none)).accept (Service.unassign user role none)
    let late := s.schedule () [0, 1, 1, 1, 1, 1, 0, 1, 2, 0, 1, 1, 2, 2, 2, 2, 2, 2]
    let early := s.schedule () [0, 0, 0, 1, 1, 1, 1, 1, 1, 2, 2, 2, 2, 2, 2, 2]
    (late.Idle ∧ late.Agrees ()) ∧
      early.granting 1 ≠ none ∧ ¬ (early.proceed () 1).Agrees () := by
  intro w s₀ user role s late early
  have start : s₀.Begins () := .of_empty (by decide +kernel) rfl rfl
  have run : Runs () (InOrder ()) s₀ s :=
    .tail (.tail (.single (.accepts (.reads (.cachedAssignments user))))
      (.accepts (.assign user role none none))) (.accepts (.unassign user role none))
  have idle : late.Idle := by decide +kernel
  have grants : early.granting 1 ≠ none := by decide +kernel
  refine ⟨⟨idle, ?_⟩, grants, ?_⟩
  · exact (lists_settle start (run.schedule (by decide +kernel))).1 idle
  · obtain ⟨a, granting⟩ := Option.ne_none_iff_exists'.mp grants
    refine mt ((lists_settle start (run.schedule (by decide +kernel))).2 1 a granting ?_).mp ?_
    · decide +kernel
    · decide +kernel

/-- A role is granted and revoked by two requests that overlap: its row is removed before
the grant reaches the cache, and the user's list shows it after both have returned. -/
theorem removed_row_listed_again :
    let w := ((World.startingAt default 0).perform ()
      (Service.createRole (.manual "r") none)).2
    let s₀ : Pool Unit := ⟨{ w with nextId := .generated 1 }, [], []⟩
    let user : UserId := ⟨.generated 0⟩
    let role : RoleId := ⟨.generated 0⟩
    let s := ((s₀.accept (Service.cachedAssignments user)).accept
      (Service.assign user role none none)).accept (Service.unassign user role none)
    let late := s.schedule () [0, 0, 0, 1, 1, 1, 1, 1, 2, 2, 2, 2, 2, 2, 2, 1, 1, 1]
    (s₀.Begins () ∧ Runs () (fun _ _ => True) s₀ late) ∧
      late.Idle ∧ ¬ late.Agrees () ∧ late.world.store.rows = [] ∧
        (late.world.perform () (Service.cachedAssignments user)).1.toOption.map
          (·.map (·.roleId)) = some [role] := by
  intro w s₀ user role s late
  have start : s₀.Begins () := .of_empty (by decide +kernel) rfl rfl
  have run : Runs () (fun _ _ => True) s₀ s :=
    .tail (.tail (.single (.accepts (.reads (.cachedAssignments user))))
      (.accepts (.assign user role none none))) (.accepts (.unassign user role none))
  refine ⟨⟨start, run.schedule (by decide +kernel)⟩, ?_, ?_, ?_, ?_⟩
  · decide +kernel
  · decide +kernel
  · decide +kernel
  · decide +kernel

end Entitlement.Pool
