import Entitlement.Proofs.Condition.Resolving

/-!
# Who is privileged

The lists of privileged users are made of stored rows, and the check of one user of the roles that
the user holds. They agree, as long as the caches show what is stored: who is listed passes the
check, and who passes it without being listed owes it to conditions alone.
-/

set_option autoImplicit false

namespace Entitlement

namespace Service

section

variable {α : Type} [DecidableEq α] {l : List α} {a : α}

theorem mem_dedup : a ∈ dedup l ↔ a ∈ l := by
  induction l using dedup.induct with
  | case1 a rest ih => simp [dedup, ih]
  | case2 a b rest hne ih => simp [dedup, hne, ih]
  | case3 few h => rw [dedup]; exact h

/-- Equal elements of a sorted list stand side by side, so that none is left twice. -/
theorem dedup_pairwise {r : α → α → Prop} (antisymm : ∀ a b, r a b → r b a → a = b)
    (sorted : l.Pairwise r) : (dedup l).Pairwise fun a b => r a b ∧ a ≠ b := by
  induction l using dedup.induct with
  | case1 a rest ih =>
    rw [dedup, if_pos rfl]
    exact ih sorted.tail
  | case2 a b rest hne ih =>
    rw [dedup, if_neg hne]
    refine List.pairwise_cons.mpr ⟨fun c hc => ?_, ih sorted.tail⟩
    obtain ⟨below, onward⟩ := List.pairwise_cons.mp sorted
    have hac := below c (mem_dedup.mp hc)
    -- If `c` were `a` again, `b` would stand between two equal elements.
    refine ⟨hac, fun same => hne ?_⟩
    have hbc : b = c ∨ r b c := (List.mem_cons.mp (mem_dedup.mp hc)).imp Eq.symm
      fun hc => (List.pairwise_cons.mp onward).1 c hc
    rcases hbc with rfl | hbc
    · exact same
    · exact antisymm a b (below b List.mem_cons_self) (same ▸ hbc)
  | case3 few h =>
    match few, h with
    | [], _ => exact .nil
    | [a], _ => exact List.pairwise_singleton _ a
    | a :: b :: rest, h => exact absurd rfl (h a b rest)

end

theorem ascending (users : List UserId) :
    (dedup (users.mergeSort fun a b => a.uuid ≤ b.uuid)).Pairwise fun a b => a.uuid < b.uuid := by
  have sorted : (users.mergeSort fun a b => a.uuid ≤ b.uuid).Pairwise
      fun a b => a.uuid.value ≤ b.uuid.value := by
    refine (List.pairwise_mergeSort ?_ ?_ users).imp of_decide_eq_true
    · intro a b c hab hbc
      exact decide_eq_true (Fin.le_trans (of_decide_eq_true hab) (of_decide_eq_true hbc))
    · intro a b
      rw [Bool.or_eq_true, decide_eq_true_iff, decide_eq_true_iff]
      exact Fin.le_total a.uuid.value b.uuid.value
  have injective (a b : UserId) (h : a.uuid.value = b.uuid.value) : a = b := by
    obtain ⟨⟨i⟩⟩ := a
    obtain ⟨⟨j⟩⟩ := b
    exact congrArg (fun i => UserId.mk (Uuid.mk i)) h
  refine (dedup_pairwise (fun a b hab hba => ?_) sorted).imp fun h => ?_
  · exact injective a b (Fin.le_antisymm hab hba)
  · exact Nat.lt_of_le_of_ne h.1 fun same => h.2 (injective _ _ (Fin.ext same))

theorem cachedRoles_asks : cachedRoles.run.Asks fun c => ¬ c.IsInquiry := by
  refine .call id fun r => ?_
  cases r with
  | fresh roles => exact .done _
  | missing version =>
    refine .call id fun r => ?_
    cases r with
    | error fault => exact .done _
    | ok loaded => exact .call id fun _ => .done _

theorem cachedAssignments_asks (user : UserId) :
    (cachedAssignments user).run.Asks fun c => ¬ c.IsInquiry := by
  refine .call id fun r => ?_
  cases r with
  | fresh rows => exact .done _
  | missing version =>
    refine .call id fun r => ?_
    cases r with
    | error fault => exact .done _
    | ok loaded => exact .call id fun _ => .done _

theorem resolveAmong_inquires (user : UserId) (time : Instant) (roles : List Role)
    (rows : List Assignment) : (resolveAmong user time roles rows).run.Asks Call.IsInquiry := by
  unfold resolveAmong
  dsimp only
  split
  · exact .done _
  · refine Procedure.Asks.bind (.call trivial fun r => .done _) fun r => ?_
    cases r with
    | error fault => exact .done _
    | ok found =>
      cases found with
      | none => exact .done _
      | some found =>
        refine Procedure.Asks.bind ?_ fun r => by cases r <;> exact .done _
        exact Procedure.Asks.bind (meeting_inquires _ _) fun _ => .done _

/-- When the look-up of the user does not fail, the assigned roles are joined by roles that have a
condition and no active row. -/
theorem resolveAmong_returns {σ : Type} {answer : (c : Call) → σ → c.Answer × σ} {x : σ}
    {user : UserId} (works : ∃ found, (answer (.findUser user) x).1 = .ok found) (time : Instant)
    (roles : List Role) (rows : List Assignment) :
    ∃ met, ((resolveAmong user time roles rows).run.runOn answer x).1 =
        .ok (assignedRoles roles rows time ++ met) ∧
      ∀ role ∈ met, role.isConditional = true ∧ ¬ role.AssignedBy rows time := by
  have told := Procedure.told_of_runOn answer (resolveAmong user time roles rows).run x
  obtain ⟨looked, evaluations, -, resolution⟩ := resolveAmong_told told
  have returns : ∃ resolved,
      ((resolveAmong user time roles rows).run.runOn answer x).1 = .ok resolved := by
    obtain ⟨found, hfound⟩ := works
    have hcall : (findUser user).run.runOn answer x = (.ok found, (answer (.findUser user) x).2) :=
      Prod.ext hfound rfl
    unfold resolveAmong
    dsimp only
    split
    · exact ⟨_, rfl⟩
    · rw [runOn_bind_ok _ hcall]
      cases found with
      | none => exact ⟨_, rfl⟩
      | some known =>
        dsimp only
        rw [runOn_bind_ok _ (runOn_ofProcedure _)]
        exact ⟨_, rfl⟩
  obtain ⟨resolved, hresolved⟩ := returns
  refine ⟨_, hresolved.trans (congrArg _ (resolution.resolved _ hresolved)), fun role hrole => ?_⟩
  obtain ⟨e, he, rfl⟩ := List.mem_map.mp hrole
  have candidate := resolution.among.subset
    (List.mem_map_of_mem (f := Evaluation.candidate) (List.mem_filter.mp he).1)
  obtain ⟨hroles, hother, hcondition⟩ := mem_candidates.mp candidate
  exact ⟨by simp [Role.isConditional, hcondition],
    fun active => hother ((assigned_id_iff hroles).mpr active)⟩

end Service

def Store.Privileged (s : Store) (time : Instant) (privilege : Role → Bool) (user : UserId) :
    Prop :=
  ∃ role ∈ s.roles, privilege role = true ∧
    ∃ row ∈ s.rows, row.userId = user ∧ row.roleId = role.id ∧ row.isActiveAt time = true

instance (s : Store) (time : Instant) (privilege : Role → Bool) (user : UserId) :
    Decidable (s.Privileged time privilege user) :=
  inferInstanceAs (Decidable (∃ _ ∈ _, _ ∧ ∃ _ ∈ _, _))

theorem Store.privileged_iff {s : Store} {time : Instant} {privilege : Role → Bool}
    {user : UserId} : s.Privileged time privilege user ↔
      ∃ row ∈ s.assignmentsOfRoles ((s.roles.filter privilege).map (·.id)),
        row.isActiveAt time = true ∧ row.userId = user := by
  simp only [Privileged, assignmentsOfRoles, List.mem_filter, List.mem_map, decide_eq_true_eq]
  constructor
  · rintro ⟨role, hrole, privileged, row, hrow, huser, hid, active⟩
    exact ⟨row, ⟨hrow, role, ⟨hrole, privileged⟩, hid.symm⟩, active, huser⟩
  · rintro ⟨row, ⟨hrow, role, ⟨hrole, privileged⟩, hid⟩, active, huser⟩
    exact ⟨role, hrole, privileged, row, hrow, huser, hid.symm, active⟩

theorem Store.privileged_or {s : Store} {time : Instant} {p q : Role → Bool} {user : UserId} :
    s.Privileged time (fun role => p role || q role) user ↔
      s.Privileged time p user ∨ s.Privileged time q user := by
  simp only [Privileged, Bool.or_eq_true, or_and_right, and_or_left, exists_or]

namespace World

variable {κ α : Type} {w v : World κ} {k : κ}

structure Current (k : κ) (w : World κ) : Prop where
  roles : ∀ c, (w.caches k).roles.entry = some c → c.value = w.store.roles
  lists : ∀ user c, (user, c) ∈ (w.caches k).lists.entries →
    c.value = w.store.assignmentsOfUser user

theorem current_of_empty (h : w.caches k = .empty) : w.Current k where
  roles c hc := by simp [h, Cache.empty, RoleSnapshot.empty] at hc
  lists user c hc := by simp [h, Cache.empty, UserLists.empty] at hc

theorem Noted.outside (h : Noted w v) : SameOutside w v := by
  obtain ⟨effects, rfl, -⟩ := h
  exact ⟨rfl, rfl, rfl, rfl, rfl⟩

theorem Current.noted (h : w.Current k) (noted : Noted w v) : v.Current k := by
  obtain ⟨effects, rfl, -⟩ := noted
  exact ⟨h.roles, h.lists⟩

variable [DecidableEq κ]

theorem Current.cachedRoles (h : w.Current k) (hw : w.Reliable) : ∃ v,
    perform k Service.cachedRoles w = (.ok w.store.roles, v) ∧ v.Current k ∧ SameOutside w v := by
  cases hf : (w.caches k).roles.freshValue? w.moment with
  | some roles =>
    obtain ⟨c, he, rfl⟩ := RoleSnapshot.entry_of_freshValue hf
    refine ⟨w, ?_, h, rfl, rfl, rfl, rfl, rfl⟩
    rw [perform_cachedRoles_fresh hf, h.roles c he]
  | none =>
    refine ⟨_, perform_cachedRoles_missing hw hf, ⟨fun c hc => ?_, fun user c hc => ?_⟩,
      (noteLoad_outside _).trans (setCache_outside _)⟩
    · rw [setCache_caches] at hc
      obtain rfl := Option.some.inj hc
      rfl
    · rw [setCache_caches] at hc
      exact h.lists user c hc

theorem Current.cachedAssignments (h : w.Current k) (hw : w.Reliable) (user : UserId) : ∃ v,
    perform k (Service.cachedAssignments user) w = (.ok (w.store.assignmentsOfUser user), v) ∧
      v.Current k ∧ SameOutside w v := by
  cases hf : (w.caches k).lists.freshValue? user w.moment with
  | some rows =>
    obtain ⟨c, hc, rfl⟩ := UserLists.mem_of_freshValue hf
    refine ⟨w, ?_, h, rfl, rfl, rfl, rfl, rfl⟩
    rw [perform_cachedAssignments_fresh hf, h.lists user c hc]
  | none =>
    refine ⟨_, perform_cachedAssignments_missing hw user hf,
      ⟨fun c hc => ?_, fun other c hc => ?_⟩, (noteLoad_outside _).trans (setCache_outside _)⟩
    · rw [setCache_caches] at hc
      exact h.roles c hc
    · rw [setCache_caches] at hc
      rcases UserLists.mem_of_mem_put hc with ⟨rfl, rfl⟩ | hc
      · rfl
      · exact h.lists other c hc

/-- A party is answered as in a world, but for questions about users. These are put to somebody who
always knows whether there is a user, and who may otherwise say or deny anything, and
something else each time. -/
structure Consults (k : κ) (w₀ : World κ) (answer' : (c : Call) → World κ → c.Answer × World κ) :
    Prop where
  others : ∀ c w, ¬ c.IsInquiry → answer' c w = answer k c w
  notes : ∀ c w, c.IsInquiry → Noted w (answer' c w).2
  finds : ∀ user w, SameOutside w₀ w → ∃ found, (answer' (.findUser user) w).1 = .ok found

/-- The statistics of the world itself, as long as users can be looked up. -/
theorem consults_answer {w₀ : World κ} (h : .findUser ∉ w₀.failing) :
    Consults k w₀ (answer k) where
  others _ _ _ := rfl
  notes _ _ hc := answer_inquiry hc
  finds user w hw := by
    have works : Port.findUser ∉ w.failing := hw.failing ▸ h
    exact ⟨_, by simp [answer, fails, Call.port?, noteLoad, noteInquiry, works, serve, person?]; rfl⟩

inductive AboutPrivileges : {α : Type} → Service α → Prop
  | isModerator (actor : Option Actor) : AboutPrivileges (Service.isModerator actor)
  | isAdministrator (actor : Option Actor) : AboutPrivileges (Service.isAdministrator actor)
  | moderatorIds (both : Bool) : AboutPrivileges (Service.moderatorIds both)
  | administratorIds : AboutPrivileges Service.administratorIds

inductive Checks (answer' : (c : Call) → World κ → c.Answer × World κ) : World κ → World κ → Prop
  | asks {w : World κ} {α : Type} {request : Service α} (about : AboutPrivileges request) :
      Checks answer' w (request.run.runOn answer' w).2

structure Agree (answer' : (c : Call) → World κ → c.Answer × World κ) (w : World κ)
    (privilege : Role → Bool) (check : Option Actor → Service Bool) (users : List UserId) :
    Prop where
  ascending : users.Pairwise fun a b => a.uuid < b.uuid
  listed : ∀ user, user ∈ users ↔ w.store.Privileged w.now privilege user
  checked : ∀ user ∈ users, ∀ isRoot,
    ((check (some ⟨user, isRoot⟩)).run.runOn answer' w).1 = .ok true
  resolved : ∀ user, ∃ roles, ((Service.userRoles user).run.runOn answer' w).1 = .ok roles ∧
    ((check (some ⟨user, false⟩)).run.runOn answer' w).1 = .ok (roles.any privilege) ∧
    (user ∈ users ∨ ∀ role ∈ roles, privilege role = true → role.isConditional = true ∧
      ¬ role.AssignedBy (w.store.assignmentsOfUser user) w.now)

namespace Consults

variable {w₀ : World κ} {answer' : (c : Call) → World κ → c.Answer × World κ}

theorem runOn_eq (h : Consults k w₀ answer') {p : Procedure α}
    (hp : p.Asks fun c => ¬ c.IsInquiry) (w : World κ) :
    p.runOn answer' w = p.runOn (answer k) w := by
  induction hp generalizing w with
  | done a => rfl
  | @call c next other _ ih =>
    simp only [Procedure.runOn]
    rw [h.others c w other]
    exact ih _ _

theorem runOn_notes (h : Consults k w₀ answer') {p : Procedure α} (hp : p.Asks Call.IsInquiry)
    (w : World κ) : Noted w (p.runOn answer' w).2 := by
  induction hp generalizing w with
  | done a => exact .refl w
  | @call c next asked _ ih => exact (h.notes c w asked).trans (ih _ _)

variable (h : Consults k w₀ answer') (current : w.Current k) (hw : w.Reliable)

include h

theorem now : Service.now.run.runOn answer' w = (.ok w.now, w) :=
  h.runOn_eq (.call id fun _ => .done _) w

include current hw

theorem cachedRoles : ∃ v, Service.cachedRoles.run.runOn answer' w = (.ok w.store.roles, v) ∧
    v.Current k ∧ SameOutside w v := by
  obtain ⟨v, hv, kept, outside⟩ := current.cachedRoles hw
  exact ⟨v, (h.runOn_eq Service.cachedRoles_asks w).trans hv, kept, outside⟩

theorem cachedAssignments (user : UserId) : ∃ v,
    (Service.cachedAssignments user).run.runOn answer' w =
      (.ok (w.store.assignmentsOfUser user), v) ∧ v.Current k ∧ SameOutside w v := by
  obtain ⟨v, hv, kept, outside⟩ := current.cachedAssignments hw user
  exact ⟨v, (h.runOn_eq (Service.cachedAssignments_asks user) w).trans hv, kept, outside⟩

/-- The stored roles that rows assign to a user come first, and with them some that have a
condition and no active row. -/
theorem userRoles (outside : SameOutside w₀ w) (user : UserId) : ∃ met v,
    (Service.userRoles user).run.runOn answer' w =
      (.ok (Service.assignedRoles w.store.roles (w.store.assignmentsOfUser user) w.now ++ met), v) ∧
    (∀ role ∈ met, role.isConditional = true ∧
      ¬ role.AssignedBy (w.store.assignmentsOfUser user) w.now) ∧
    v.Current k ∧ SameOutside w v := by
  obtain ⟨u, hroles, kept, hu⟩ := h.cachedRoles current hw
  obtain ⟨v, hrows, kept', hv⟩ := h.cachedAssignments kept (hu.reliable hw) user
  rw [← hu.store] at hrows
  obtain ⟨met, hvalue, hmet⟩ := Service.resolveAmong_returns
    (h.finds user v ((outside.trans hu).trans hv)) w.now w.store.roles
    (w.store.assignmentsOfUser user)
  have noted := h.runOn_notes (Service.resolveAmong_inquires user w.now w.store.roles
    (w.store.assignmentsOfUser user)) v
  refine ⟨met, _, ?_, hmet, kept'.noted noted, (hu.trans hv).trans noted.outside⟩
  rw [Service.userRoles, Service.runOn_bind_ok _ h.now, Service.resolveRoles_eq,
    Service.runOn_bind_ok _ hroles, Service.runOn_bind_ok _ hrows, List.filter_true]
  exact Prod.ext hvalue rfl

/-- A check of a user looks for the privilege among the roles that the user holds. -/
theorem hasPrivilege (outside : SameOutside w₀ w) (user : UserId) (privilege : Role → Bool) :
    ∃ met v, (Service.userRoles user).run.runOn answer' w =
        (.ok (Service.assignedRoles w.store.roles (w.store.assignmentsOfUser user) w.now ++ met),
          v) ∧
      (Service.hasPrivilege (some ⟨user, false⟩) privilege).run.runOn answer' w =
        (.ok ((Service.assignedRoles w.store.roles (w.store.assignmentsOfUser user) w.now ++
          met).any privilege), v) ∧
      (∀ role ∈ met, role.isConditional = true ∧
        ¬ role.AssignedBy (w.store.assignmentsOfUser user) w.now) ∧
      v.Current k ∧ SameOutside w v := by
  obtain ⟨met, v, hroles, hmet, kept, hv⟩ := h.userRoles current hw outside user
  exact ⟨met, v, hroles, Service.runOn_bind_ok _ hroles, hmet, kept, hv⟩

/-- The users on a list are those to whom some stored role with the privilege is actively
assigned. -/
theorem privilegedUsers (privilege : Role → Bool) : ∃ users v,
    (Service.privilegedUsers privilege).run.runOn answer' w = (.ok users, v) ∧
    users.Pairwise (fun a b => a.uuid < b.uuid) ∧
    (∀ user, user ∈ users ↔ w.store.Privileged w.now privilege user) ∧
    v.Current k ∧ SameOutside w v := by
  obtain ⟨v, hroles, kept, outside⟩ := h.cachedRoles current hw
  rw [Service.privilegedUsers, Service.runOn_bind_ok _ hroles]
  dsimp only
  split
  · next none =>
    refine ⟨[], v, rfl, .nil, fun user => ?_, kept, outside⟩
    rw [Store.privileged_iff, List.isEmpty_iff.mp none]
    simp [Store.assignmentsOfRoles]
  · have hrows : (Service.assignmentsOfRoles ((w.store.roles.filter privilege).map (·.id))).run.runOn
        answer' v = (.ok (v.store.assignmentsOfRoles ((w.store.roles.filter privilege).map (·.id))),
          v) :=
      (h.runOn_eq (.call id fun _ => .done _) v).trans
        (perform_assignmentsOfRoles (outside.reliable hw) _)
    rw [Service.runOn_bind_ok _ h.now, Service.runOn_bind_ok _ hrows, ← outside.store,
      ← outside.now]
    refine ⟨_, v, rfl, Service.ascending _, fun user => ?_, kept, outside⟩
    rw [Service.mem_dedup, List.mem_mergeSort, List.mem_map, Store.privileged_iff]
    exact exists_congr fun row => by rw [List.mem_filter, and_assoc]

/-- A list of all users with a privilege and the check of one user say the same. -/
theorem agrees (outside : SameOutside w₀ w) {privilege : Role → Bool} {users : List UserId}
    (ascending : users.Pairwise fun a b => a.uuid < b.uuid)
    (listed : ∀ user, user ∈ users ↔ w.store.Privileged w.now privilege user) :
    Agree answer' w privilege (Service.hasPrivilege · privilege) users where
  ascending := ascending
  listed := listed
  checked user huser isRoot := by
    cases isRoot with
    | true => rfl
    | false =>
      obtain ⟨met, v, -, hcheck, -⟩ := h.hasPrivilege current hw outside user privilege
      obtain ⟨role, hrole, privileged, row, hrow, huser, hid, active⟩ := (listed user).mp huser
      have assigned : role ∈ Service.assignedRoles w.store.roles
          (w.store.assignmentsOfUser user) w.now :=
        mem_assignedRoles.mpr
          ⟨hrole, row, Store.mem_assignmentsOfUser.mpr ⟨hrow, huser⟩, hid, active⟩
      rw [hcheck, List.any_append, List.any_eq_true.mpr ⟨role, assigned, privileged⟩]
      rfl
  resolved user := by
    obtain ⟨met, v, hroles, hcheck, hmet, -⟩ := h.hasPrivilege current hw outside user privilege
    refine ⟨_, congrArg Prod.fst hroles, congrArg Prod.fst hcheck, ?_⟩
    rw [or_iff_not_imp_left]
    intro unlisted role hrole privileged
    -- An assigned role with the privilege would have put the user on the list.
    refine (List.mem_append.mp hrole).elim (fun assigned => absurd ?_ unlisted) (hmet role)
    obtain ⟨hstored, row, hrow, hid, active⟩ := mem_assignedRoles.mp assigned
    obtain ⟨hrow, huser⟩ := Store.mem_assignmentsOfUser.mp hrow
    exact (listed user).mpr ⟨role, hstored, privileged, row, hrow, huser, hid, active⟩

theorem checks (outside : SameOutside w₀ w) (check : Checks answer' w v) :
    v.Current k ∧ SameOutside w v := by
  obtain ⟨about⟩ := check
  have privilege (actor : Option Actor) (privilege : Role → Bool) :
      let v := ((Service.hasPrivilege actor privilege).run.runOn answer' w).2
      v.Current k ∧ SameOutside w v := by
    rcases actor with _ | ⟨user, _ | _⟩
    · exact ⟨current, rfl, rfl, rfl, rfl, rfl⟩
    · obtain ⟨met, v, -, hcheck, -, kept⟩ := h.hasPrivilege current hw outside user privilege
      rw [hcheck]
      exact kept
    · exact ⟨current, rfl, rfl, rfl, rfl, rfl⟩
  have list (privilege : Role → Bool) :
      let v := ((Service.privilegedUsers privilege).run.runOn answer' w).2
      v.Current k ∧ SameOutside w v := by
    obtain ⟨users, v, hlist, -, -, kept⟩ := h.privilegedUsers current hw privilege
    rw [hlist]
    exact kept
  cases about with
  | isModerator actor => exact privilege actor _
  | isAdministrator actor => exact privilege actor _
  | moderatorIds both => exact list _
  | administratorIds => exact list _

omit current hw in
/-- Any number of checks leaves the caches current and everything else as it was. -/
theorem checks_run (cold : w₀.caches k = .empty) (reliable : w₀.Reliable)
    (run : Relation.ReflTransGen (Checks answer') w₀ w) :
    w.Current k ∧ SameOutside w₀ w := by
  induction run with
  | refl => exact ⟨current_of_empty cold, rfl, rfl, rfl, rfl, rfl⟩
  | tail _ check ih =>
    obtain ⟨current, outside⟩ := ih
    obtain ⟨kept, step⟩ := h.checks current (outside.reliable reliable) outside check
    exact ⟨kept, outside.trans step⟩

end Consults

/-- A service that starts with empty caches lists the moderators, the administrators and both, in
ascending order and each once, by the rows that are active now. Whoever is listed passes the check
of that privilege. Who passes it otherwise and is not root owes it to roles that are held
by their conditions alone. This is so also when any such lists and checks were asked for before,
and whatever is answered about the users. -/
theorem privileges_agree {w₀ : World κ} {answer' : (c : Call) → World κ → c.Answer × World κ}
    (consults : Consults k w₀ answer') (reliable : w₀.Reliable) (cold : w₀.caches k = .empty)
    (run : Relation.ReflTransGen (Checks answer') w₀ w) :
    SameOutside w₀ w ∧ ∃ both moderators administrators,
      ((Service.moderatorIds true).run.runOn answer' w).1 = .ok both ∧
      ((Service.moderatorIds false).run.runOn answer' w).1 = .ok moderators ∧
      (Service.administratorIds.run.runOn answer' w).1 = .ok administrators ∧
      Agree answer' w (·.grantsModeration) Service.isModerator both ∧
      Agree answer' w (·.isAdministrator) Service.isAdministrator administrators ∧
      moderators.Pairwise (fun a b => a.uuid < b.uuid) ∧
      (∀ user, user ∈ moderators ↔ w.store.Privileged w.now (·.isModerator) user) ∧
      ∀ user, user ∈ both ↔ user ∈ moderators ∨ user ∈ administrators := by
  obtain ⟨current, outside⟩ := consults.checks_run cold reliable run
  have hw := outside.reliable reliable
  have list := consults.privilegedUsers current hw
  obtain ⟨both, _, hboth, sorted, listed, -⟩ := list (·.grantsModeration)
  obtain ⟨moderators, _, hmoderators, sorted', listed', -⟩ := list (·.isModerator)
  obtain ⟨administrators, _, hadministrators, sorted'', listed'', -⟩ := list (·.isAdministrator)
  have alone : Service.moderatorIds false = Service.privilegedUsers (·.isModerator) := by
    simp [Service.moderatorIds]
  refine ⟨outside, both, moderators, administrators, congrArg Prod.fst hboth,
    alone ▸ congrArg Prod.fst hmoderators, congrArg Prod.fst hadministrators,
    consults.agrees current hw outside sorted listed,
    consults.agrees current hw outside sorted'' listed'', sorted', listed', fun user => ?_⟩
  rw [listed, listed', listed'']
  exact Store.privileged_or

/-- One user has rows of a role for moderators and, by hand, of one for administrators with a
security key; one has a row for administrators; one has an expired row for moderators; and one holds
a role for moderators by its condition alone. The last was looked at before. -/
theorem privileges_agree_by_hand_and_by_formula :
    let role (n : Nat) (moderator administrator : Bool) (target : RoleTarget) : Role :=
      ⟨⟨.generated n⟩, ⟨"r", rfl⟩, "", none, none, target, false, moderator, administrator, false,
        false, false, 0, .empty, default, default⟩
    let moderator := role 1 true false .manual
    let administrator := role 2 false true (.conditional (.leaf (.flag .hasSecurityKey)))
    let keeper := role 3 true false (.conditional (.leaf (.flag .hasTwoFactorAuth)))
    let user (n : Nat) : User :=
      ⟨⟨.generated n⟩, "u", none, false, false, false, false, default, none, 0, 0, 0⟩
    let manifold := (user 9).id
    let single := (user 6).id
    let former := (user 7).id
    let secured := (user 8).id
    let row (n : Nat) (role : Role) (user : UserId) (expiresAt : Option Instant) : Assignment :=
      ⟨⟨.generated n⟩, role.id, user, expiresAt, default⟩
    let w : World Unit := { World.startingAt ⟨5, 0⟩ 0 with
      store := ⟨[moderator, administrator, keeper],
        [row 1 moderator manifold none, row 2 administrator manifold none,
          row 3 administrator single none, row 4 moderator former (some ⟨5, 0⟩)]⟩
      people := [⟨secured, some (user 8), some ⟨true, false, false, none, []⟩, 0, []⟩] }
    let v := (perform () (Service.isModerator (some ⟨secured, false⟩)) w).2
    (Consults () w (answer ()) ∧ w.Reliable ∧ w.caches () = .empty ∧
        Relation.ReflTransGen (Checks (answer ())) w v) ∧
      (∃ both moderators administrators,
        returned () (Service.moderatorIds true) v = .ok both ∧
        returned () (Service.moderatorIds false) v = .ok moderators ∧
        returned () Service.administratorIds v = .ok administrators ∧
        (single ∈ both ∧ manifold ∈ both ∧ former ∉ both ∧ secured ∉ both) ∧
        (single ∉ moderators ∧ manifold ∈ moderators) ∧
        (single ∈ administrators ∧ manifold ∈ administrators)) ∧
      returned () (Service.isModerator (some ⟨manifold, false⟩)) v = .ok true ∧
      returned () (Service.isAdministrator (some ⟨manifold, false⟩)) v = .ok true ∧
      returned () (Service.isModerator (some ⟨secured, false⟩)) v = .ok true := by
  intro role moderator administrator keeper user manifold single former secured row w v
  have consults : Consults () w (answer ()) := consults_answer (by decide)
  have reliable : w.Reliable := reliable_of_failing rfl
  have run : Relation.ReflTransGen (Checks (answer ())) w v := .single (.asks (.isModerator _))
  have passes : returned () (Service.isModerator (some ⟨secured, false⟩)) v = .ok true := by
    decide +kernel
  obtain ⟨-, both, moderators, administrators, hboth, hmoderators, hadministrators, agree, agree',
    -, listed, -⟩ := privileges_agree consults reliable rfl run
  have inBoth : manifold ∈ both := (agree.listed _).mpr (by decide +kernel)
  have inAdministrators : manifold ∈ administrators := (agree'.listed _).mpr (by decide +kernel)
  refine ⟨⟨consults, reliable, rfl, run⟩, ⟨both, moderators, administrators, hboth, hmoderators,
    hadministrators, ⟨?_, inBoth, ?_, ?_⟩, ⟨?_, ?_⟩, ?_, inAdministrators⟩,
    agree.checked _ inBoth false, agree'.checked _ inAdministrators false, passes⟩
  · exact (agree.listed single).mpr (by decide +kernel)
  · exact mt (agree.listed former).mp (by decide +kernel)
  · exact mt (agree.listed secured).mp (by decide +kernel)
  · exact mt (listed single).mp (by decide +kernel)
  · exact (listed manifold).mpr (by decide +kernel)
  · exact (agree'.listed single).mpr (by decide +kernel)

end World

end Entitlement
