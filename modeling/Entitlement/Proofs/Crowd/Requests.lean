import Entitlement.Proofs.Crowd.Conduct
import Entitlement.Proofs.Ident

/-!
# Every request keeps to its conduct

One request after the other is followed through its calls, whatever it is answered.
-/

set_option autoImplicit false

namespace Entitlement.Service

open Request

variable {α : Type} {q : Request} {log : Log}

abbrev Anyhow : Log → Except Fault α → Prop := fun _ _ => True

theorem createRole_heeds (draft : RoleDraft) (actor : Option Actor) :
    Heeds q Anyhow log (createRole draft actor) := by
  refine heeds_now fun createdAt => heeds_newId fun id => ?_
  refine heeds_ofExcept (fun role _ => ?_) fun _ _ => trivial
  refine Heeds.next (Abides.ask (c := .insertRole role) trivial) (fun _ => ?_) fun _ => trivial
  refine (heeds_emit (e := .roleCreated role) List.mem_cons_self).next (fun _ => ?_) fun _ => trivial
  exact (heeds_record actor fun _ _ => may_record (by simp)).bind
    (fun _ _ _ => heeds_pure trivial) fun _ _ _ => trivial

/-- A change is stored with the fields it sets and all others as they were found, and the cache is
told of it if it was stored. -/
theorem updateRole_heeds (id : RoleId) (edit : RoleEdit) (actor : Option Actor) :
    Heeds (.updateRole id edit actor) (Ends (.updateRole id edit actor)) []
      (updateRole id edit actor) := by
  refine Heeds.next (Abides.ask (c := .findRole id) trivial) (fun found => ?_) fun _ => rfl
  refine heeds_require (fun before hfound => ?_) fun _ => rfl
  refine heeds_ofExcept (fun edited hedited => ?_) fun _ _ => rfl
  refine heeds_now fun changedAt => ?_
  generalize hafter : { edited with updatedAt := max changedAt before.updatedAt } = after
  have revises : Request.Revises (.updateRole id edit actor)
      [⟨.now, changedAt⟩, ⟨.findRole id, .ok found⟩] after :=
    ⟨id, edit, actor, before, edited, changedAt, rfl, by rw [hfound], hedited, hafter.symm⟩
  refine Heeds.next (Abides.ask (c := .updateRole after) revises) (fun _ => ?_) fun _ => rfl
  refine (heeds_emit (e := .roleUpdated after) List.mem_cons_self).next (fun _ => ?_) fun _ => rfl
  refine (heeds_record actor fun _ _ => may_record (by simp)).bind (fun log _ h => heeds_pure ?_)
    fun _ _ h => by simp at h
  cases actor with
  | none =>
    obtain rfl := h.2
    rfl
  | some actor =>
    obtain ⟨-, time, r, rfl⟩ := h
    rfl

theorem deleteRole_heeds (id : RoleId) (actor : Option Actor) :
    Heeds (.deleteRole id actor) Anyhow log (deleteRole id actor) := by
  refine Heeds.next (Abides.ask (c := .findRole id) trivial) (fun found => ?_) fun _ => trivial
  refine heeds_require (fun role hrole => ?_) fun _ => trivial
  refine Heeds.next (Abides.ask (c := .deleteRole id) ⟨actor, rfl⟩) (fun _ => ?_) fun _ => trivial
  refine (heeds_emit (e := .roleDeleted role) ⟨id, ?_, List.mem_cons_self⟩).next (fun _ => ?_)
    fun _ => trivial
  · exact List.mem_cons_of_mem _ (hrole ▸ List.mem_cons_self)
  · exact (heeds_record actor fun _ _ => may_record (by simp)).mono fun _ _ _ => trivial

/-- A row that may be removed is, and whoever removes it tells. -/
theorem removeExpired_heeds {a : Assignment} (suspect : q.Suspects log a) :
    Heeds q (fun log' r => log.Onward log' ∧ match r with
      | .ok () => ∃ removed, ⟨.deleteAssignment a.id, .ok removed⟩ ∈ log'
      | .error fault => ∃ x ∈ log', x.fault? = some fault) log (removeExpired a) := by
  have asked (r : Except Fault Bool) : log.Onward (⟨.deleteAssignment a.id, r⟩ :: log) :=
    (Log.Onward.refl log).cons rfl rfl
  refine Heeds.next (Abides.ask (c := .deleteAssignment a.id) ⟨a, rfl, suspect⟩)
    (fun removed => ?_) fun fault => ⟨asked _, _, List.mem_cons_self, rfl⟩
  cases removed with
  | false => exact heeds_pure ⟨asked _, false, List.mem_cons_self⟩
  | true =>
    have earned : q.Earned (⟨.deleteAssignment a.id, .ok true⟩ :: log) (.userRoleUnassigned a) :=
      ⟨suspect.mono (List.suffix_cons _ _), true, List.mem_cons_self⟩
    refine (heeds_emit earned).mono fun log' r hlog => ?_
    subst hlog
    refine ⟨?_, ?_⟩
    · refine ((asked _).cons rfl rfl).cons rfl ?_
      cases r <;> rfl
    · cases r with
      | ok _ => exact ⟨true, by simp⟩
      | error fault => exact ⟨_, List.mem_cons_self, rfl⟩

theorem vacate_heeds {user : UserId} {role : RoleId} {time : Instant} (began : log.Began time)
    (due : q.May log (.findAssignment user role)) :
    Heeds q (fun log' r => log.Onward log' ∧ match r with
      | .ok () => log'.Cleared user role
      | .error fault => Refuses user role log' fault) log (vacate user role time) := by
  have asked (r : Except Fault (Option Assignment)) :
      log.Onward (⟨.findAssignment user role, r⟩ :: log) := (Log.Onward.refl log).cons rfl rfl
  refine Heeds.next (Abides.ask (c := .findAssignment user role) due) (fun found => ?_)
    fun fault => ⟨asked _, .inl ⟨_, List.mem_cons_self, rfl⟩⟩
  cases found with
  | none => exact heeds_pure ⟨asked _, .inl List.mem_cons_self⟩
  | some b =>
    have hbegan : Log.Began (⟨.findAssignment user role, .ok (some b)⟩ :: log) time :=
      began.mono (List.suffix_cons _ _)
    dsimp only
    split
    · next active =>
      exact heeds_throw ⟨asked _, .inr (.inr ⟨rfl, b, time, List.mem_cons_self, hbegan, active⟩)⟩
    · next inactive =>
      have expired : b.isExpiredAt time = true := by simpa [Assignment.isActiveAt] using inactive
      refine (removeExpired_heeds (.found List.mem_cons_self hbegan expired)).mono
        fun log' r h => ⟨(asked _).trans h.1, ?_⟩
      cases r with
      | ok _ =>
        obtain ⟨removed, hr⟩ := h.2
        exact .inr ⟨b, removed, h.1.suffix.mem List.mem_cons_self, hr⟩
      | error fault => exact .inl h.2

theorem assign_heeds (user : UserId) (role : RoleId) (expiresAt : Option Instant)
    (actor : Option Actor) : Heeds (.assign user role expiresAt actor)
      (Ends (.assign user role expiresAt actor)) [] (assign user role expiresAt actor) := by
  refine heeds_now fun startedAt => ?_
  refine Heeds.next (Abides.ask (c := .findRole role) trivial) (fun found => ?_)
    fun fault => .inl ⟨rfl, .inl ⟨_, List.mem_cons_self, rfl⟩⟩
  have began : Log.Began [⟨.findRole role, .ok found⟩, ⟨.now, startedAt⟩] startedAt := rfl
  refine heeds_require (fun definition hfound => ?_) fun hnone =>
    .inl ⟨rfl, .inr (.inl ⟨rfl, hnone ▸ List.mem_cons_self⟩)⟩
  refine (vacate_heeds began (.inl ⟨expiresAt, actor, rfl⟩)).bind (fun log _ h => ?_)
    fun log fault h => .inl ⟨h.1.inserted, h.2⟩
  refine heeds_newId fun id => ?_
  generalize hrow : (⟨⟨id⟩, role, user, expiresAt, startedAt⟩ : Assignment) = row
  have grants : Request.Grants (.assign user role expiresAt actor) (⟨.newId, id⟩ :: log) row := by
    subst hrow
    refine ⟨⟨actor, rfl⟩, ⟨definition, List.mem_cons_of_mem _ ?_⟩, ⟨log, rfl⟩, ?_⟩
    · exact h.1.suffix.mem (hfound ▸ List.mem_cons_self)
    · exact h.2.mono (List.suffix_cons _ _)
  refine Heeds.next (Abides.ask (c := .insertAssignment row) grants) (fun _ => ?_)
    fun fault => .inl ⟨h.1.inserted, .inl ⟨_, List.mem_cons_self, rfl⟩⟩
  refine heeds_touch role startedAt fun touched => ?_
  refine (heeds_emit (e := .userRoleAssigned row) (List.mem_cons_of_mem _ List.mem_cons_self)).next
    (fun _ => ?_) fun fault => .inr ⟨_, List.mem_cons_self⟩
  have ends {log : Log} (stored : ⟨.insertAssignment row, .ok ()⟩ ∈ log) :
      Heeds (.assign user role expiresAt actor) (Ends (.assign user role expiresAt actor)) log (do
        record actor .assignRole (.object [("roleId", role.encode),
          ("roleName", definition.name.encode), ("userId", user.encode),
          ("expiresAt", .ofOption Instant.encode expiresAt)])
        return row) :=
    (heeds_record actor fun _ _ => may_record (by simp)).bind
      (fun log' _ h => heeds_pure ((Recorded.suffix h.2).mem stored)) fun _ _ h => by simp at h
  have stored (log : Log) : (⟨.insertAssignment row, .ok ()⟩ : Exchange) ∈
      ⟨.publish (.userRoleAssigned row), .ok ()⟩ :: ⟨.applyEvent (.userRoleAssigned row), ()⟩ ::
        ⟨.touchRole role startedAt, touched⟩ :: ⟨.insertAssignment row, .ok ()⟩ :: log := by simp
  dsimp only
  split
  · exact heeds_notify _ _ fun _ => ends (List.mem_cons_of_mem _ (stored _))
  · exact ends (stored _)

theorem isUnassign_self (user : UserId) (role : RoleId) (name : Json) (id : UserId)
    (time : Instant) : ModerationEntry.isUnassign ⟨id, .unassignRole,
      .object [("roleId", role.encode), ("roleName", name), ("userId", user.encode)], time⟩
      user role = true := by
  simp [ModerationEntry.isUnassign, RoleId.encode, UserId.encode]

theorem isUnassign_pair {user u : UserId} {role r : RoleId} {name : Json} {id : UserId}
    {time : Instant} (h : ModerationEntry.isUnassign ⟨id, .unassignRole,
      .object [("roleId", r.encode), ("roleName", name), ("userId", u.encode)], time⟩
      user role = true) : u = user ∧ r = role := by
  simp only [ModerationEntry.isUnassign, RoleId.encode, UserId.encode, Bool.and_eq_true,
    decide_eq_true_eq] at h
  rcases u with ⟨u⟩
  rcases r with ⟨r⟩
  exact ⟨congrArg UserId.mk (Uuid.toText_inj h.2), congrArg RoleId.mk (Uuid.toText_inj h.1)⟩

theorem unassign_heeds (user : UserId) (role : RoleId) (actor : Option Actor) :
    Heeds (.unassign user role actor) (Ends (.unassign user role actor)) []
      (unassign user role actor) := by
  refine heeds_now fun startedAt => ?_
  refine Heeds.next (Abides.ask (c := .findAssignment user role) (.inr ⟨actor, rfl⟩))
    (fun found => ?_) fun fault => .inl ⟨_, List.mem_cons_self, rfl⟩
  refine heeds_require (fun a hfound => ?_) fun hnone =>
    .inr (.inl ⟨rfl, hnone ▸ List.mem_cons_self, by simp [hnone], rfl, rfl⟩)
  subst hfound
  have began : Log.Began [⟨.findAssignment user role, .ok (some a)⟩, ⟨.now, startedAt⟩]
      startedAt := rfl
  split
  · next expired =>
    refine (removeExpired_heeds (.found List.mem_cons_self began expired)).bind
      (fun log _ h => heeds_throw ?_) fun log fault h => .inl h.2
    exact .inr (.inr ⟨rfl, a, startedAt, h.1.suffix.mem List.mem_cons_self,
      began.mono h.1.suffix, expired⟩)
  · next lasts =>
    have suspect : Request.Suspects (.unassign user role actor)
        [⟨.findAssignment user role, .ok (some a)⟩, ⟨.now, startedAt⟩] a :=
      .named rfl List.mem_cons_self
    refine Heeds.next (Abides.ask (c := .deleteAssignment a.id) ⟨a, rfl, suspect⟩)
      (fun removed => ?_) fun fault => .inl ⟨_, List.mem_cons_self, rfl⟩
    refine heeds_touch role startedAt fun touched => ?_
    have earned : Request.Earned (.unassign user role actor)
        [⟨.touchRole role startedAt, touched⟩, ⟨.deleteAssignment a.id, .ok removed⟩,
          ⟨.findAssignment user role, .ok (some a)⟩, ⟨.now, startedAt⟩] (.userRoleUnassigned a) :=
      ⟨suspect.mono (List.suffix_append [_, _] _), removed, by simp⟩
    refine (heeds_emit earned).next (fun _ => ?_) fun fault => .inl ⟨_, List.mem_cons_self, rfl⟩
    refine Heeds.next (Abides.ask (c := .findRole role) trivial) (fun definition => ?_)
      fun fault => .inl ⟨_, List.mem_cons_self, rfl⟩
    refine (heeds_record actor fun id time u r about => ?_).mono fun log r h => ?_
    · obtain ⟨rfl, rfl⟩ := isUnassign_pair about
      exact ⟨actor, rfl⟩
    · obtain ⟨rfl, recorded⟩ := h
      cases actor with
      | none =>
        obtain rfl := recorded
        exact ⟨a, by simp, ⟨removed, by simp⟩, rfl, rfl⟩
      | some actor =>
        obtain ⟨time, r, rfl⟩ := recorded
        exact ⟨a, by simp, ⟨removed, by simp⟩, rfl, _, rfl, isUnassign_self user role _ _ _⟩

theorem removeBatch_heeds (batch : List Assignment) (removed : Nat)
    (suspects : ∀ a ∈ batch, q.Suspects log a) :
    Heeds q (fun log' _ => log <:+ log') log (removeBatch batch removed) := by
  induction batch generalizing log removed with
  | nil => exact heeds_pure (List.suffix_refl _)
  | cons a rest ih =>
    have suspect := suspects a List.mem_cons_self
    have hrest {log' : Log} (hlog : log <:+ log') : ∀ b ∈ rest, q.Suspects log' b :=
      fun b hb => (suspects b (List.mem_cons_of_mem _ hb)).mono hlog
    refine Heeds.next (Abides.ask (c := .deleteAssignment a.id) ⟨a, rfl, suspect⟩)
      (fun was => ?_) fun _ => List.suffix_cons _ _
    cases was with
    | false =>
      exact (ih _ (hrest (List.suffix_cons _ _))).mono fun _ _ h => (List.suffix_cons _ _).trans h
    | true =>
      refine (heeds_emit (e := .userRoleUnassigned a) ⟨suspect.mono (List.suffix_cons _ _), true,
        List.mem_cons_self⟩).next (fun _ => ?_) fun _ => List.suffix_append [_, _, _] _
      exact (ih _ (hrest (List.suffix_append [_, _, _] _))).mono
        fun _ _ h => (List.suffix_append [_, _, _] log).trans h

variable {batchSize rounds : Nat} {time : Instant}

theorem sweepRound_heeds (size removed : Nat) (began : log.Began time) :
    Heeds (.sweep batchSize rounds) (fun log' _ => log <:+ log') log
      (sweepRound size time removed) := by
  refine Heeds.next (Abides.ask (c := .expiredAssignments time size) ⟨⟨_, _, rfl⟩, began⟩)
    (fun batch => ?_) fun _ => List.suffix_cons _ _
  refine (removeBatch_heeds batch removed fun a ha => .listed List.mem_cons_self ha).bind
    (fun log' total h => ?_) fun _ _ h => (List.suffix_cons _ _).trans h
  split <;> exact heeds_pure ((List.suffix_cons _ _).trans h)

theorem sweepRounds_heeds (size more removed : Nat) (began : log.Began time) :
    Heeds (.sweep batchSize rounds) Anyhow log (sweepRounds size time more removed) := by
  induction more generalizing log removed with
  | zero =>
    exact (sweepRound_heeds size removed began).bind (fun _ _ _ => heeds_pure trivial)
      fun _ _ _ => trivial
  | succ more ih =>
    refine (sweepRound_heeds size removed began).bind (fun log' sweep h => ?_) fun _ _ _ => trivial
    cases sweep with
    | ended total => exact heeds_pure trivial
    | onward total => exact ih total (began.mono h)

theorem sweep_heeds : Heeds (.sweep batchSize rounds) Anyhow [] (sweep batchSize rounds) := by
  unfold sweep
  split
  · exact heeds_throw trivial
  · exact heeds_now fun time => sweepRounds_heeds _ _ _ Log.began_now

theorem cachedRoles_heeds : Heeds q (fun log' r => log.Onward log' ∧ match r with
    | .ok roles => log'.Snapshot roles
    | .error _ => True) log cachedRoles := by
  refine heeds_procedure (c := .lookupRoles) trivial fun looked => ?_
  have onward : log.Onward (⟨.lookupRoles, looked⟩ :: log) := (Log.Onward.refl log).cons rfl rfl
  cases looked with
  | fresh roles => exact heeds_pure ⟨onward, .inl List.mem_cons_self⟩
  | missing version =>
    refine Heeds.next (Abides.ask (c := .listRoles) trivial) (fun loaded => ?_)
      fun _ => ⟨onward.cons rfl rfl, trivial⟩
    exact .call List.mem_cons_self fun roles =>
      .done ⟨(onward.cons rfl rfl).cons rfl rfl, .inr ⟨version, loaded, List.mem_cons_self⟩⟩

theorem cachedAssignments_heeds (user : UserId) :
    Heeds q (fun log' r => log.Onward log' ∧ match r with
      | .ok rows => log'.Rows user rows
      | .error _ => True) log (cachedAssignments user) := by
  refine heeds_procedure (c := .lookupAssignments user) trivial fun looked => ?_
  have onward : log.Onward (⟨.lookupAssignments user, looked⟩ :: log) :=
    (Log.Onward.refl log).cons rfl rfl
  cases looked with
  | fresh rows => exact heeds_pure ⟨onward, .inl List.mem_cons_self⟩
  | missing version =>
    refine Heeds.next (Abides.ask (c := .assignmentsOfUser user) trivial) (fun loaded => ?_)
      fun _ => ⟨onward.cons rfl rfl, trivial⟩
    exact .call List.mem_cons_self fun rows =>
      .done ⟨(onward.cons rfl rfl).cons rfl rfl, .inr ⟨version, loaded, List.mem_cons_self⟩⟩

theorem may_inquire {c : Call} (h : c.IsInquiry) : q.May log c := by
  cases c <;> first
    | exact h.elim
    | trivial

theorem inquires_abides {p : Procedure α} (h : p.Asks Call.IsInquiry) :
    Abides q.May (fun log' _ => log.Onward log') log p := by
  induction h generalizing log with
  | done a => exact .done (.refl log)
  | @call c next asked _ ih =>
    refine .call (may_inquire asked) fun r => (ih r).mono fun log' _ onward => ?_
    refine ((Log.Onward.refl log).cons (x := ⟨c, r⟩) ?_ ?_).trans onward
    all_goals
      cases c <;> first
        | exact asked.elim
        | rfl

theorem meeting_abides (s : Subject) (candidates : List (Role × Condition)) :
    Abides q.May (fun log' roles => log.Onward log' ∧ ∀ role ∈ roles, ∃ c, (role, c) ∈ candidates)
      log (meeting s candidates) := by
  induction candidates generalizing log with
  | nil => exact .done ⟨.refl log, by simp⟩
  | cons head rest ih =>
    obtain ⟨role, c⟩ := head
    refine (inquires_abides (c.evaluate_inquires s)).andThen fun log' met onward => ?_
    have later (r : Role) : (∃ d, (r, d) ∈ rest) → ∃ d, (r, d) ∈ (role, c) :: rest :=
      fun ⟨d, hd⟩ => ⟨d, List.mem_cons_of_mem _ hd⟩
    cases met with
    | false =>
      exact ih.mono fun _ _ h => ⟨onward.trans h.1, fun r hr => later r (h.2 r hr)⟩
    | true =>
      refine ih.andThen fun _ roles h => .done ⟨onward.trans h.1, fun r hr => ?_⟩
      rcases List.mem_cons.mp hr with rfl | hr
      · exact ⟨c, List.mem_cons_self⟩
      · exact later r (h.2 r hr)

theorem resolveRoles_heeds (user : UserId) (time : Instant) (eligible : Role → Bool) :
    Heeds q (fun log' r => match r with
      | .ok roles => log.Onward log' ∧
        ∃ manual met, Resolves user time eligible log' manual met ∧ roles = manual ++ met
      | .error _ => True) log (resolveRoles user time eligible) := by
  refine cachedRoles_heeds.bind (fun log₁ snapshot h₁ => ?_) fun _ _ _ => trivial
  refine (cachedAssignments_heeds user).bind (fun log₂ rows h₂ => ?_) fun _ _ _ => trivial
  have resolves {log' : Log} (met : List Role) (h : log₂.Onward log')
      (hmet : ∀ role ∈ met, ∃ c, (role, c) ∈ candidates (snapshot.filter eligible)
        (assignedRoles (snapshot.filter eligible) rows time)) :
      Resolves user time eligible log'
        (assignedRoles (snapshot.filter eligible) rows time) met :=
    ⟨snapshot, rows, h.snapshot (h₂.1.snapshot h₁.2), h.rows h₂.2, rfl, hmet⟩
  have begun := h₁.1.trans h₂.1
  dsimp only
  split
  · exact heeds_pure ⟨begun, _, [], resolves [] (.refl _) (by simp), by simp⟩
  · refine Heeds.next (Abides.ask (c := .findUser user) trivial) (fun found => ?_) fun _ => trivial
    have asked : log₂.Onward (⟨.findUser user, .ok found⟩ :: log₂) := (Log.Onward.refl _).cons rfl rfl
    cases found with
    | none => exact heeds_pure ⟨begun.trans asked, _, [], resolves [] asked (by simp), by simp⟩
    | some found =>
      exact heeds_ofProcedure (meeting_abides _ _) fun log' met h =>
        have onward := asked.trans h.1
        heeds_pure ⟨begun.trans onward, _, met, resolves met onward h.2, rfl⟩

theorem userRoles_heeds (user : UserId) :
    Heeds q (fun log' r => match r with
      | .ok roles => ∃ time manual met, log'.readings = time :: log.readings ∧
        Resolves user time (fun _ => true) log' manual met ∧ roles = manual ++ met
      | .error _ => True) log (userRoles user) := by
  refine heeds_now fun time => (resolveRoles_heeds user time fun _ => true).mono fun log' r h => ?_
  cases r with
  | error fault => trivial
  | ok roles =>
    obtain ⟨onward, manual, met, resolves, e⟩ := h
    exact ⟨time, manual, met, onward.readings, resolves, e⟩

theorem basePolicies_heeds : Heeds q Anyhow log basePolicies :=
  Heeds.next (Abides.ask (c := .instancePolicies) trivial) (fun _ => heeds_pure trivial)
    fun _ => trivial

theorem userPolicies_heeds (user : Option UserId) : Heeds q Anyhow log (userPolicies user) := by
  refine basePolicies_heeds.bind (fun log base _ => ?_) fun _ _ _ => trivial
  cases user with
  | none => exact heeds_pure trivial
  | some user =>
    exact (userRoles_heeds user).bind (fun _ _ _ => heeds_pure trivial) fun _ _ _ => trivial

theorem hasPrivilege_heeds (actor : Option Actor) (privilege : Role → Bool) :
    Heeds q Anyhow log (hasPrivilege actor privilege) := by
  cases actor with
  | none => exact heeds_pure trivial
  | some actor =>
    simp only [hasPrivilege]
    split
    · exact heeds_pure trivial
    · exact (userRoles_heeds _).bind (fun _ _ _ => heeds_pure trivial) fun _ _ _ => trivial

theorem privilegedUsers_heeds (privilege : Role → Bool) :
    Heeds q Anyhow log (privilegedUsers privilege) := by
  refine cachedRoles_heeds.bind (fun log roles _ => ?_) fun _ _ _ => trivial
  dsimp only
  split
  · exact heeds_pure trivial
  · exact heeds_now fun time => Heeds.next
      (Abides.ask (c := .assignmentsOfRoles ((roles.filter privilege).map Role.id)) trivial)
      (fun _ => heeds_pure trivial) fun _ => trivial

theorem isExplorable_heeds (role : RoleId) : Heeds q Anyhow log (isExplorable role) := by
  refine Heeds.next (Abides.ask (c := .findRole role) trivial) (fun found => ?_) fun _ => trivial
  cases found <;> exact heeds_pure trivial

/-- Every request keeps to its conduct from its start to its end. -/
theorem request_abides (q : Request) : Abides q.May q.Ends [] q.service.run := by
  cases q with
  | createRole draft actor => exact createRole_heeds draft actor
  | updateRole id edit actor => exact updateRole_heeds id edit actor
  | deleteRole id actor => exact deleteRole_heeds id actor
  | assign user role expiresAt actor => exact assign_heeds user role expiresAt actor
  | unassign user role actor => exact unassign_heeds user role actor
  | sweep batchSize rounds => exact sweep_heeds
  | cachedRoles => exact cachedRoles_heeds.mono fun _ _ _ => trivial
  | cachedAssignments user => exact (cachedAssignments_heeds user).mono fun _ _ _ => trivial
  | userRoles user =>
    refine (userRoles_heeds user).mono fun log r h => ?_
    cases r with
    | error fault => trivial
    | ok roles => exact h
  | badgeRoles user =>
    exact heeds_now fun time => (resolveRoles_heeds user time _).mono fun _ _ _ => trivial
  | userAssignments user =>
    exact heeds_now fun time => (cachedAssignments_heeds user).bind
      (fun _ _ _ => heeds_pure trivial) fun _ _ _ => trivial
  | userPolicies user => exact userPolicies_heeds user
  | basePolicies => exact basePolicies_heeds
  | isModerator actor => exact hasPrivilege_heeds actor _
  | isAdministrator actor => exact hasPrivilege_heeds actor _
  | isExplorable role => exact isExplorable_heeds role
  | moderatorIds both => exact privilegedUsers_heeds _
  | administratorIds => exact privilegedUsers_heeds _
  | startSync => exact (Abides.ask (c := .subscribe) trivial).mono fun _ _ _ => trivial
  | pruneCache => exact .call trivial fun _ => .done trivial
  | clearCache => exact .call trivial fun _ => .done trivial

end Entitlement.Service
