import Entitlement.Proofs.World.Requests

/-!
# What reads return

A read goes through the cache of its party: what it is handed stands in the cache
afterwards. The roles of a user are records of the snapshot, and each of them has a
condition or an active row.
-/

set_option autoImplicit false

namespace Entitlement

theorem RoleSnapshot.entry_of_freshValue {s : RoleSnapshot} {now : Moment} {roles : List Role}
    (h : s.freshValue? now = some roles) : ∃ c, s.entry = some c ∧ c.value = roles := by
  unfold freshValue? at h
  cases he : s.entry with
  | none => simp [he] at h
  | some c =>
    simp only [he, Option.ite_none_right_eq_some, Option.some.injEq] at h
    exact ⟨c, rfl, h.2⟩

namespace UserLists

variable {user u : UserId} {c d : Cached (List Assignment)} {now : Moment} {l : UserLists}
  {entries : List (UserId × Cached (List Assignment))}

theorem mem_put_self : (user, c) ∈ put user c entries := by
  induction entries with
  | nil => simp [put]
  | cons head rest ih =>
    unfold put
    split
    · simp
    · simp [ih]

theorem mem_of_mem_put (h : (u, d) ∈ put user c entries) :
    (u = user ∧ d = c) ∨ (u, d) ∈ entries := by
  induction entries with
  | nil => simpa [put] using h
  | cons head rest ih =>
    unfold put at h
    split at h
    · rcases List.mem_cons.mp h with h | h
      · exact .inl (Prod.mk.inj h)
      · exact .inr (List.mem_cons_of_mem _ h)
    · rcases List.mem_cons.mp h with h | h
      · exact .inr (h ▸ List.mem_cons_self)
      · exact (ih h).imp_right (List.mem_cons_of_mem _)

theorem mem_of_freshValue {rows : List Assignment} (h : l.freshValue? user now = some rows) :
    ∃ c, (user, c) ∈ l.entries ∧ c.value = rows := by
  unfold freshValue? at h
  cases hl : l.entries.lookup user with
  | none => simp [hl] at h
  | some c =>
    simp only [hl, Option.ite_none_right_eq_some, Option.some.injEq] at h
    obtain ⟨before, after, he, -⟩ := List.lookup_eq_some_iff.mp hl
    exact ⟨c, by simp [he], h.2⟩

end UserLists

namespace World

variable {κ α β : Type} {w v : World κ}

theorem noteLoad_noted (c : Call) : Noted w (w.noteLoad c) := by
  cases c <;> exact ⟨_, rfl, rfl⟩

variable [DecidableEq κ] {k : κ}

theorem perform_listRoles (hw : w.Reliable) :
    perform k Service.listRoles w = (.ok w.store.roles, w.noteLoad .listRoles) :=
  answer_of_works .listRoles hw rfl (.inl rfl)

theorem perform_assignmentsOfUser (hw : w.Reliable) (user : UserId) :
    perform k (Service.assignmentsOfUser user) w =
      (.ok (w.store.assignmentsOfUser user), w.noteLoad (.assignmentsOfUser user)) :=
  answer_of_works (.assignmentsOfUser user) hw rfl (.inl rfl)

@[simp] theorem setCache_caches (c : Cache) : (w.setCache k c).caches k = c := by
  simp [setCache]

theorem perform_cachedRoles_fresh {roles : List Role}
    (h : (w.caches k).roles.freshValue? w.moment = some roles) :
    perform k Service.cachedRoles w = (.ok roles, w) := by
  have hlookup : perform k (Service.ofProcedure (.ask .lookupRoles)) w =
      (.ok (.fresh roles), w) := by
    rw [perform_ofProcedure]
    simp [Procedure.ask, Procedure.runOn, answer, fails, Call.port?, noteLoad, noteInquiry, serve,
      RoleSnapshot.lookup, h]
  exact perform_bind_ok _ hlookup

theorem perform_cachedRoles_missing (hw : w.Reliable)
    (h : (w.caches k).roles.freshValue? w.moment = none) :
    perform k Service.cachedRoles w =
      (.ok w.store.roles, (w.noteLoad .listRoles).setCache k { w.caches k with
        roles.entry :=
          some ⟨w.store.roles, Moment.deadline w.moment (w.lifetimes k).roles⟩ }) := by
  have hlookup : perform k (Service.ofProcedure (.ask .lookupRoles)) w =
      (.ok (.missing (w.caches k).roles.version), w) := by
    rw [perform_ofProcedure]
    simp [Procedure.ask, Procedure.runOn, answer, fails, Call.port?, noteLoad, noteInquiry, serve,
      RoleSnapshot.lookup, h]
  rw [Service.cachedRoles, perform_bind_ok _ hlookup]
  dsimp only
  rw [perform_bind_ok _ (perform_listRoles hw), perform_ofProcedure]
  simp [Procedure.ask, Procedure.runOn, answer, fails, Call.port?, noteLoad, noteInquiry, serve,
    RoleSnapshot.install, h]

theorem perform_cachedAssignments_fresh {user : UserId} {rows : List Assignment}
    (h : (w.caches k).lists.freshValue? user w.moment = some rows) :
    perform k (Service.cachedAssignments user) w = (.ok rows, w) := by
  have hlookup : perform k (Service.ofProcedure (.ask (.lookupAssignments user))) w =
      (.ok (.fresh rows), w) := by
    rw [perform_ofProcedure]
    simp [Procedure.ask, Procedure.runOn, answer, fails, Call.port?, noteLoad, noteInquiry, serve,
      UserLists.lookup, h]
  exact perform_bind_ok _ hlookup

theorem perform_cachedAssignments_missing (hw : w.Reliable) (user : UserId)
    (h : (w.caches k).lists.freshValue? user w.moment = none) :
    perform k (Service.cachedAssignments user) w =
      (.ok (w.store.assignmentsOfUser user), (w.noteLoad (.assignmentsOfUser user)).setCache k
        { w.caches k with
          lists.entries := UserLists.put user ⟨w.store.assignmentsOfUser user,
            Moment.deadline w.moment (w.lifetimes k).assignments⟩ (w.caches k).lists.entries }) := by
  have hlookup : perform k (Service.ofProcedure (.ask (.lookupAssignments user))) w =
      (.ok (.missing (w.caches k).lists.version), w) := by
    rw [perform_ofProcedure]
    simp [Procedure.ask, Procedure.runOn, answer, fails, Call.port?, noteLoad, noteInquiry, serve,
      UserLists.lookup, h]
  rw [Service.cachedAssignments, perform_bind_ok _ hlookup]
  dsimp only
  rw [perform_bind_ok _ (perform_assignmentsOfUser hw user), perform_ofProcedure]
  simp [Procedure.ask, Procedure.runOn, answer, fails, Call.port?, noteLoad, noteInquiry, serve,
    UserLists.install, h]

/-- The roles that are handed out stand in the cache, and the lists are left alone. -/
theorem perform_cachedRoles (hw : w.Reliable) : ∃ v c,
    perform k Service.cachedRoles w = (.ok c.value, v) ∧ Moves k w v ∧
      (v.caches k).roles.entry = some c ∧ (v.caches k).lists = (w.caches k).lists ∧
      v.effects.events = w.effects.events := by
  cases hf : (w.caches k).roles.freshValue? w.moment with
  | some roles =>
    have h := perform_cachedRoles_fresh hf
    obtain ⟨c, he, rfl⟩ := RoleSnapshot.entry_of_freshValue hf
    exact ⟨w, c, h, .refl, he, rfl, rfl⟩
  | none =>
    refine ⟨_, ⟨w.store.roles, Moment.deadline w.moment (w.lifetimes k).roles⟩,
      perform_cachedRoles_missing hw hf,
      .head (.notes (noteLoad_noted .listRoles)) (.single (.loadsRoles _)), ?_, ?_, rfl⟩
    · rw [setCache_caches]
    · rw [setCache_caches]

/-- The rows that are handed out stand in the cache, and the snapshot is left alone. -/
theorem perform_cachedAssignments (hw : w.Reliable) (user : UserId) : ∃ v c,
    perform k (Service.cachedAssignments user) w = (.ok c.value, v) ∧ Moves k w v ∧
      (user, c) ∈ (v.caches k).lists.entries ∧ (v.caches k).roles = (w.caches k).roles ∧
      v.effects.events = w.effects.events := by
  cases hf : (w.caches k).lists.freshValue? user w.moment with
  | some rows =>
    have h := perform_cachedAssignments_fresh hf
    obtain ⟨c, hc, rfl⟩ := UserLists.mem_of_freshValue hf
    exact ⟨w, c, h, .refl, hc, rfl, rfl⟩
  | none =>
    refine ⟨_, ⟨w.store.assignmentsOfUser user,
        Moment.deadline w.moment (w.lifetimes k).assignments⟩,
      perform_cachedAssignments_missing hw user hf,
      .head (.notes (noteLoad_noted (.assignmentsOfUser user))) (.single (.loadsRows user _)),
      ?_, ?_, rfl⟩
    · rw [setCache_caches]
      exact UserLists.mem_put_self
    · rw [setCache_caches]

theorem perform_findUser (user : UserId) :
    Noted w (perform k (Service.findUser user) w).2 :=
  answer_inquiry (c := .findUser user) trivial

theorem runOn_bind (p : Procedure α) (f : α → Procedure β) :
    (p >>= f).runOn (answer k) w =
      (f (p.runOn (answer k) w).1).runOn (answer k) (p.runOn (answer k) w).2 :=
  Procedure.runOn_andThen _ p f w

theorem mem_of_mem_meeting {s : Subject} {candidates : List (Role × Condition)} {role : Role}
    (h : role ∈ ((Service.meeting s candidates).runOn (answer k) w).1) :
    ∃ c, (role, c) ∈ candidates := by
  induction candidates generalizing w with
  | nil => simp [Service.meeting, Procedure.runOn, pure] at h
  | cons head rest ih =>
    obtain ⟨first, c⟩ := head
    rw [Service.meeting, runOn_bind] at h
    cases hm : ((c.evaluate s).runOn (answer k) w).1 with
    | false =>
      rw [hm, if_neg (by simp)] at h
      obtain ⟨d, hd⟩ := ih h
      exact ⟨d, List.mem_cons_of_mem _ hd⟩
    | true =>
      rw [hm, if_pos rfl, runOn_bind] at h
      rcases List.mem_cons.mp h with rfl | h
      · exact ⟨c, List.mem_cons_self⟩
      · obtain ⟨d, hd⟩ := ih h
        exact ⟨d, List.mem_cons_of_mem _ hd⟩

structure Resolves (snapshot : List Role) (rows : List Assignment) (time : Instant)
    (roles : List Role) : Prop where
  assigned : ∀ role ∈ snapshot, (∃ a ∈ rows, a.roleId = role.id ∧ a.isActiveAt time = true) →
    role ∈ roles
  made : ∀ role ∈ roles, role ∈ snapshot ∧ (role.isConditional = true ∨
    ∃ a ∈ rows, a.roleId = role.id ∧ a.isActiveAt time = true)

theorem mem_assignedRoles {snapshot : List Role} {rows : List Assignment} {time : Instant}
    {role : Role} : role ∈ Service.assignedRoles snapshot rows time ↔
      role ∈ snapshot ∧ ∃ a ∈ rows, a.roleId = role.id ∧ a.isActiveAt time = true := by
  simp only [Service.assignedRoles, List.mem_filter, decide_eq_true_eq, List.mem_map, and_assoc]
  simp only [and_comm]

theorem conditional_of_mem_candidates {snapshot assigned : List Role} {role : Role}
    {c : Condition} (h : (role, c) ∈ Service.candidates snapshot assigned) :
    role ∈ snapshot ∧ role.isConditional = true := by
  obtain ⟨r, hr, hc⟩ := List.mem_filterMap.mp h
  obtain ⟨d, hd, e⟩ := Option.map_eq_some_iff.mp hc
  obtain ⟨rfl, rfl⟩ := Prod.mk.inj e
  exact ⟨List.mem_of_mem_filter hr, by simp [Role.isConditional, hd]⟩

theorem resolves_assigned (snapshot : List Role) (rows : List Assignment) (time : Instant) :
    Resolves snapshot rows time (Service.assignedRoles snapshot rows time) where
  assigned _ hr ha := mem_assignedRoles.mpr ⟨hr, ha⟩
  made _ hr := (mem_assignedRoles.mp hr).imp_right .inr

/-- What a read makes of a snapshot and a list. After them it leaves notes only, and it
comes to an end unless the lookup of the user fails. -/
theorem perform_resolveRoles_of {user : UserId} (time : Instant) (eligible : Role → Bool)
    {snapshot : List Role} {rows : List Assignment} {u : World κ}
    (hroles : perform k Service.cachedRoles w = (.ok snapshot, u))
    (hrows : perform k (Service.cachedAssignments user) u = (.ok rows, v)) :
    Noted v (perform k (Service.resolveRoles user time eligible) w).2 ∧
      (∀ roles, (perform k (Service.resolveRoles user time eligible) w).1 = .ok roles →
        Resolves (snapshot.filter eligible) rows time roles) ∧
      (.findUser ∉ v.failing →
        ∃ roles, (perform k (Service.resolveRoles user time eligible) w).1 = .ok roles) := by
  rw [Service.resolveRoles, perform_bind_ok _ hroles, perform_bind_ok _ hrows]
  have hassigned := resolves_assigned (snapshot.filter eligible) rows time
  have hdone (roles : List Role)
      (h : (.ok (Service.assignedRoles (snapshot.filter eligible) rows time) :
        Except Fault (List Role)) = .ok roles) :
      Resolves (snapshot.filter eligible) rows time roles :=
    Except.ok.inj h ▸ hassigned
  dsimp only
  split
  · exact ⟨.refl v, hdone, fun _ => ⟨_, rfl⟩⟩
  · have hnoted := perform_findUser (k := k) (w := v) user
    rcases hf : perform k (Service.findUser user) v with ⟨_ | _ | found, x⟩ <;>
      rw [hf] at hnoted
    · rw [perform_bind_error _ hf]
      refine ⟨hnoted, fun _ h => by simp at h, fun hworks => ?_⟩
      have hserved : (answer k (.findUser user) v).1 = .ok ((v.person? user).bind (·.user)) := by
        simp [answer, fails, Call.port?, noteLoad, noteInquiry, hworks, serve, person?]
      exact absurd ((congrArg Prod.fst hf).symm.trans hserved) (by simp)
    · rw [perform_bind_ok _ hf]
      exact ⟨hnoted, hdone, fun _ => ⟨_, rfl⟩⟩
    · rw [perform_bind_ok _ hf, perform_bind_ok _ (perform_ofProcedure _)]
      refine ⟨hnoted.trans (runOn_inquires (Service.meeting_inquires _ _)), fun roles h => ?_,
        fun _ => ⟨_, rfl⟩⟩
      obtain rfl := Except.ok.inj h
      constructor
      · intro role hr ha
        exact List.mem_append_left _ (hassigned.assigned role hr ha)
      · intro role hr
        rcases List.mem_append.mp hr with hr | hr
        · exact hassigned.made role hr
        · obtain ⟨c, hc⟩ := mem_of_mem_meeting hr
          exact (conditional_of_mem_candidates hc).imp_right .inl

theorem perform_resolveRoles (hw : w.Reliable) (user : UserId) (time : Instant)
    (eligible : Role → Bool) : ∃ v snapshot list,
    Moves k w v ∧ (v.caches k).roles.entry = some snapshot ∧
      (user, list) ∈ (v.caches k).lists.entries ∧ v.effects.events = w.effects.events ∧
      Noted v (perform k (Service.resolveRoles user time eligible) w).2 ∧
      ∀ roles, (perform k (Service.resolveRoles user time eligible) w).1 = .ok roles →
        Resolves (snapshot.value.filter eligible) list.value time roles := by
  obtain ⟨u, snapshot, hroles, hmoves, hsnapshot, -, he⟩ := perform_cachedRoles (k := k) hw
  obtain ⟨v, list, hrows, hmoves', hlist, hkept, he'⟩ :=
    perform_cachedAssignments (k := k) (hmoves.reliable hw) user
  obtain ⟨noted, resolves, -⟩ := perform_resolveRoles_of time eligible hroles hrows
  exact ⟨v, snapshot, list, hmoves.trans hmoves', hkept ▸ hsnapshot, hlist, he'.trans he, noted,
    resolves⟩

theorem perform_userRoles (user : UserId) : perform k (Service.userRoles user) w =
    perform k (Service.resolveRoles user w.now fun _ => true) w :=
  perform_bind_ok _ perform_now

theorem cachedRoles_moves (hw : w.Reliable) :
    Moves k w (perform k Service.cachedRoles w).2 := by
  obtain ⟨v, c, h, moves, -⟩ := perform_cachedRoles (k := k) hw
  rwa [h]

theorem cachedAssignments_moves (hw : w.Reliable) (user : UserId) :
    Moves k w (perform k (Service.cachedAssignments user) w).2 := by
  obtain ⟨v, c, h, moves, -⟩ := perform_cachedAssignments (k := k) hw user
  rwa [h]

theorem resolveRoles_moves (hw : w.Reliable) (user : UserId) (time : Instant)
    (eligible : Role → Bool) :
    Moves k w (perform k (Service.resolveRoles user time eligible) w).2 := by
  obtain ⟨v, snapshot, list, moves, -, -, -, noted, -⟩ :=
    perform_resolveRoles (k := k) hw user time eligible
  exact moves.tail (.notes noted)

theorem userRoles_moves (hw : w.Reliable) (user : UserId) :
    Moves k w (perform k (Service.userRoles user) w).2 := by
  rw [perform_userRoles]
  exact resolveRoles_moves hw user _ _

theorem badgeRoles_moves (hw : w.Reliable) (user : UserId) :
    Moves k w (perform k (Service.badgeRoles user) w).2 :=
  moves_bind perform_now .refl (resolveRoles_moves hw user _ _)

theorem userAssignments_moves (hw : w.Reliable) (user : UserId) :
    Moves k w (perform k (Service.userAssignments user) w).2 := by
  obtain ⟨v, c, h, moves, -⟩ := perform_cachedAssignments (k := k) hw user
  exact moves_bind perform_now .refl (moves_bind h moves .refl)

theorem hasPrivilege_moves (hw : w.Reliable) (actor : Option Actor) (privilege : Role → Bool) :
    Moves k w (perform k (Service.hasPrivilege actor privilege) w).2 := by
  cases actor with
  | none => exact .refl
  | some actor =>
    simp only [Service.hasPrivilege]
    split
    · exact .refl
    · have moves := userRoles_moves (k := k) hw actor.userId
      rcases hr : perform k (Service.userRoles actor.userId) w with ⟨_ | roles, v⟩ <;>
        rw [hr] at moves
      · exact moves_bind_error hr moves
      · exact moves_bind hr moves .refl

theorem perform_assignmentsOfRoles (hw : w.Reliable) (ids : List RoleId) :
    perform k (Service.assignmentsOfRoles ids) w =
      (.ok (w.store.assignmentsOfRoles ids), w) :=
  answer_of_works (.assignmentsOfRoles ids) hw rfl (.inl rfl)

theorem privilegedUsers_moves (hw : w.Reliable) (privilege : Role → Bool) :
    Moves k w (perform k (Service.privilegedUsers privilege) w).2 := by
  obtain ⟨v, c, h, moves, -⟩ := perform_cachedRoles (k := k) hw
  apply moves_bind h moves
  dsimp only
  split
  · exact .refl
  · exact moves_bind perform_now .refl
      (moves_bind (perform_assignmentsOfRoles (moves.reliable hw) _) .refl .refl)

theorem isExplorable_moves (hw : w.Reliable) (id : RoleId) :
    Moves k w (perform k (Service.isExplorable id) w).2 := by
  apply moves_bind (perform_findRole hw id) .refl
  cases w.store.findRole id <;> exact .refl

theorem perform_basePolicies : (perform k Service.basePolicies w).2 = w := by
  have hcall : (perform k Service.instancePolicies w).2 = w := by
    show (answer k .instancePolicies w).2 = w
    simp only [answer, Call.failed?]
    split <;> rfl
  rcases hr : perform k Service.instancePolicies w with ⟨_ | policies, v⟩ <;> rw [hr] at hcall
  · rw [Service.basePolicies, perform_bind_error _ hr]
    exact hcall
  · rw [Service.basePolicies, perform_bind_ok _ hr]
    exact hcall

theorem userPolicies_moves (hw : w.Reliable) (user : Option UserId) :
    Moves k w (perform k (Service.userPolicies user) w).2 := by
  have hbase := perform_basePolicies (k := k) (w := w)
  rcases hr : perform k Service.basePolicies w with ⟨_ | base, v⟩ <;> rw [hr] at hbase
  · exact moves_bind_error hr (hbase ▸ .refl)
  · obtain rfl : v = w := hbase
    apply moves_bind hr .refl
    cases user with
    | none => exact .refl
    | some user =>
      have moves := userRoles_moves (k := k) hw user
      rcases hr : perform k (Service.userRoles user) v with ⟨_ | roles, u⟩ <;>
        rw [hr] at moves
      · exact moves_bind_error hr moves
      · exact moves_bind hr moves .refl

inductive Reading : {α : Type} → Service α → Prop
  | cachedRoles : Reading Service.cachedRoles
  | cachedAssignments (user : UserId) : Reading (Service.cachedAssignments user)
  | userRoles (user : UserId) : Reading (Service.userRoles user)
  | badgeRoles (user : UserId) : Reading (Service.badgeRoles user)
  | userAssignments (user : UserId) : Reading (Service.userAssignments user)
  | userPolicies (user : Option UserId) : Reading (Service.userPolicies user)
  | basePolicies : Reading Service.basePolicies
  | isModerator (actor : Option Actor) : Reading (Service.isModerator actor)
  | isAdministrator (actor : Option Actor) : Reading (Service.isAdministrator actor)
  | isExplorable (role : RoleId) : Reading (Service.isExplorable role)
  | moderatorIds (both : Bool) : Reading (Service.moderatorIds both)
  | administratorIds : Reading Service.administratorIds

inductive Offered : {α : Type} → Service α → Prop
  | createRole (draft : RoleDraft) (actor : Option Actor) :
      Offered (Service.createRole draft actor)
  | updateRole (id : RoleId) (edit : RoleEdit) (actor : Option Actor) :
      Offered (Service.updateRole id edit actor)
  | deleteRole (id : RoleId) (actor : Option Actor) : Offered (Service.deleteRole id actor)
  | assign (user : UserId) (role : RoleId) (expiresAt : Option Instant) (actor : Option Actor) :
      Offered (Service.assign user role expiresAt actor)
  | unassign (user : UserId) (role : RoleId) (actor : Option Actor) :
      Offered (Service.unassign user role actor)
  | sweep (batchSize rounds : Nat) : Offered (Service.sweep batchSize rounds)
  | reads {α : Type} {request : Service α} (reading : Reading request) : Offered request

theorem Reading.moves {request : Service α} (h : Reading request) (hw : w.Reliable) :
    Moves k w (perform k request w).2 := by
  cases h with
  | cachedRoles => exact cachedRoles_moves hw
  | cachedAssignments user => exact cachedAssignments_moves hw user
  | userRoles user => exact userRoles_moves hw user
  | badgeRoles user => exact badgeRoles_moves hw user
  | userAssignments user => exact userAssignments_moves hw user
  | userPolicies user => exact userPolicies_moves hw user
  | basePolicies =>
    rw [perform_basePolicies]
  | isModerator actor => exact hasPrivilege_moves hw actor _
  | isAdministrator actor => exact hasPrivilege_moves hw actor _
  | isExplorable role => exact isExplorable_moves hw role
  | moderatorIds both => exact privilegedUsers_moves hw _
  | administratorIds => exact privilegedUsers_moves hw _

theorem Offered.moves {request : Service α} (h : Offered request) (hw : w.Reliable)
    (hs : w.Sound) (fresh : w.Unused w.nextId) : Moves k w (perform k request w).2 := by
  cases h with
  | createRole draft actor => exact createRole_moves hw fresh draft actor
  | updateRole id edit actor => exact updateRole_moves hw id edit actor
  | deleteRole id actor => exact deleteRole_moves hw id actor
  | assign user role expiresAt actor => exact assign_moves hw hs fresh user role expiresAt actor
  | unassign user role actor => exact unassign_moves hw user role actor
  | sweep batchSize rounds => exact sweep_moves hw hs batchSize rounds
  | reads reading => exact reading.moves hw

end World

end Entitlement
