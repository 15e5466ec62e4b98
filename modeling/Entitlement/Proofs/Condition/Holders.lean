import Entitlement.Proofs.Condition.Evaluation

/-!
# Which roles a user holds

A user holds the roles of a snapshot for which some row is active, and after them the other
roles whose condition holds for the roles of the first group. Both groups keep the order of the
snapshot. The description mentions rows and roles as members only, so neither their order
nor repeated rows nor conditional roles that are not assigned can change what is returned.
-/

set_option autoImplicit false

namespace Entitlement

def Role.AssignedBy (role : Role) (rows : List Assignment) (time : Instant) : Prop :=
  ∃ a ∈ rows, a.roleId = role.id ∧ a.isActiveAt time = true

def Role.MetBy (role : Role) (st : Statistics) (s : Subject) : Prop :=
  ∃ c, role.target.condition? = some c ∧ c.Holds st s

structure HeldRoles (st : Statistics) (found : Option User) (snapshot : List Role)
    (rows : List Assignment) (time : Instant) (assigned met : List Role) : Prop where
  assigned_sublist : assigned.Sublist snapshot
  met_sublist : met.Sublist snapshot
  mem_assigned : ∀ role, role ∈ assigned ↔ role ∈ snapshot ∧ role.AssignedBy rows time
  mem_met : ∀ role, role ∈ met ↔ role ∈ snapshot ∧ ¬ role.AssignedBy rows time ∧
    ∃ user, found = some user ∧ role.MetBy st ⟨user, assigned.map (·.id), time⟩

namespace HeldRoles

variable {st : Statistics} {found : Option User} {snapshot snapshot' : List Role}
  {rows rows' : List Assignment} {time : Instant} {assigned met assigned' met' : List Role}
  {role : Role}

theorem nodup (h : HeldRoles st found snapshot rows time assigned met)
    (distinct : (snapshot.map (·.id)).Nodup) : ((assigned ++ met).map (·.id)).Nodup := by
  rw [List.map_append, List.nodup_append]
  refine ⟨distinct.sublist (h.assigned_sublist.map _), distinct.sublist (h.met_sublist.map _), ?_⟩
  intro i hi j hj
  obtain ⟨r, hr, rfl⟩ := List.mem_map.mp hi
  obtain ⟨r', hr', rfl⟩ := List.mem_map.mp hj
  intro same
  obtain ⟨hsnapshot, active⟩ := (h.mem_assigned r).mp hr
  obtain ⟨hsnapshot', inactive, -⟩ := (h.mem_met r').mp hr'
  exact inactive (List.inj_on_of_nodup_map distinct hsnapshot hsnapshot' same ▸ active)

theorem assignedBy_congr (hrows : ∀ a, a ∈ rows ↔ a ∈ rows') :
    role.AssignedBy rows time ↔ role.AssignedBy rows' time :=
  exists_congr fun a => and_congr_left fun _ => hrows a

theorem metBy_congr {user : User} {ids ids' : List RoleId} (hids : ∀ id, id ∈ ids ↔ id ∈ ids') :
    role.MetBy st ⟨user, ids, time⟩ ↔ role.MetBy st ⟨user, ids', time⟩ := by
  refine exists_congr fun c => and_congr_right fun _ => Condition.holds_congr (fun p => ?_) c
  cases p with
  | roleAssignedTo id => exact hids id
  | flag f => cases f <;> exact Iff.rfl
  | age subject bound seconds => exact Iff.rfl
  | threshold metric comparison value => cases metric <;> exact Iff.rfl

/-- A role that two snapshots have is held by both or by neither, if the rows and the assigned
roles are the same. -/
theorem mem_congr (h : HeldRoles st found snapshot rows time assigned met)
    (h' : HeldRoles st found snapshot' rows' time assigned' met')
    (hrows : ∀ a, a ∈ rows ↔ a ∈ rows')
    (hassigned : ∀ r : Role, r.AssignedBy rows time → (r ∈ snapshot ↔ r ∈ snapshot'))
    (hrole : role ∈ snapshot) (hrole' : role ∈ snapshot') :
    role ∈ assigned ++ met ↔ role ∈ assigned' ++ met' := by
  have groups (r : Role) : r ∈ assigned ↔ r ∈ assigned' := by
    rw [h.mem_assigned, h'.mem_assigned, ← assignedBy_congr hrows]
    exact and_congr_left (hassigned r)
  have ids (id : RoleId) : id ∈ assigned.map (·.id) ↔ id ∈ assigned'.map (·.id) := by
    simp only [List.mem_map, groups]
  rw [List.mem_append, List.mem_append, groups, h.mem_met, h'.mem_met, assignedBy_congr hrows]
  simp only [hrole, hrole', true_and, metBy_congr ids]

end HeldRoles

namespace Service

variable {α β σ : Type} {answer : (c : Call) → σ → c.Answer × σ} {x y z : σ}

theorem runOn_bind_ok {p : Service α} {a : α} (f : α → Service β)
    (h : p.run.runOn answer x = (.ok a, y)) :
    (p >>= f).run.runOn answer x = (f a).run.runOn answer y := by
  show Procedure.runOn _ (Procedure.andThen p.run _) x = _
  rw [Procedure.runOn_andThen, h]
  rfl

theorem runOn_ofProcedure (p : Procedure α) : (ofProcedure p).run.runOn answer x =
    (.ok (p.runOn answer x).1, (p.runOn answer x).2) := by
  show Procedure.runOn _ (Procedure.andThen p _) x = _
  rw [Procedure.runOn_andThen]
  rfl

theorem runOn_now {time : Instant} (h : answer .now x = (time, y)) :
    now.run.runOn answer x = (.ok time, y) := by
  rw [now, runOn_ofProcedure]
  simp [Procedure.ask, Procedure.runOn, h]

variable {st : Statistics} {states : σ → Prop} {s : Subject}

open Classical in
theorem meeting_eq_filter (answers : st.Answered answer states) (hx : states x)
    (candidates : List (Role × Condition)) :
    ((meeting s candidates).runOn answer x).1 =
      (candidates.filter fun rc => rc.2.Holds st s).map (·.1) := by
  induction candidates generalizing x with
  | nil => rfl
  | cons head rest ih =>
    obtain ⟨role, c⟩ := head
    have value := Condition.evaluate_value (s := s) answers hx c
    have stays := (answers.exchanges (c.evaluate_inquires s) hx).2
    rw [meeting]
    show (Procedure.runOn answer (Procedure.andThen (c.evaluate s) _) x).1 = _
    rw [Procedure.runOn_andThen]
    by_cases holds : c.Holds st s
    · rw [value.mpr holds, if_pos rfl, List.filter_cons_of_pos (by simpa using holds),
        List.map_cons, ← ih stays]
      exact congrArg Prod.fst (Procedure.runOn_andThen answer (meeting s rest) _ _)
    · have unmet : ((c.evaluate s).runOn answer x).1 = false := by simpa [holds] using value
      rw [unmet, if_neg Bool.false_ne_true, List.filter_cons_of_neg (by simpa using holds)]
      exact ih stays

variable {snapshot assigned : List Role} {rows : List Assignment} {time : Instant}
  {found : Option User} {user : UserId}

theorem mem_candidates {role : Role} {c : Condition} :
    (role, c) ∈ candidates snapshot assigned ↔
      role ∈ snapshot ∧ role.id ∉ assigned.map (·.id) ∧ role.target.condition? = some c := by
  simp only [candidates, List.mem_filterMap, List.mem_filter, decide_eq_true_eq,
    Option.map_eq_some_iff, Prod.mk.injEq]
  constructor
  · rintro ⟨r, ⟨hr, hother⟩, d, hd, rfl, rfl⟩
    exact ⟨hr, hother, hd⟩
  · rintro ⟨hr, hother, hc⟩
    exact ⟨role, ⟨hr, hother⟩, c, hc, rfl, rfl⟩

theorem candidates_sublist : ((candidates snapshot assigned).map (·.1)).Sublist snapshot := by
  refine List.Sublist.trans ?_ (List.filter_sublist (p := fun r => r.id ∉ assigned.map (·.id)))
  unfold candidates
  generalize snapshot.filter (fun r => r.id ∉ assigned.map (·.id)) = others
  induction others with
  | nil => exact .slnil
  | cons r rest ih =>
    cases hc : r.target.condition? with
    | none =>
      rw [List.filterMap_cons_none (by simp [hc])]
      exact ih.cons r
    | some c =>
      rw [List.filterMap_cons_some (b := (r, c)) (by simp [hc])]
      exact ih.cons_cons r

theorem assigned_id_iff {role : Role} (hrole : role ∈ snapshot) :
    role.id ∈ (assignedRoles snapshot rows time).map (·.id) ↔ role.AssignedBy rows time := by
  rw [List.mem_map]
  constructor
  · rintro ⟨r, hr, same⟩
    obtain ⟨-, a, ha, hid, active⟩ := World.mem_assignedRoles.mp hr
    exact ⟨a, ha, hid.trans same, active⟩
  · intro active
    exact ⟨role, World.mem_assignedRoles.mpr ⟨hrole, active⟩, rfl⟩

/-- The assigned roles and some of the candidates, told apart by what they meet. -/
theorem heldRoles_of_met {met : List Role}
    (sublist : met.Sublist ((candidates snapshot (assignedRoles snapshot rows time)).map (·.1)))
    (mem_met : ∀ role c, (role, c) ∈ candidates snapshot (assignedRoles snapshot rows time) →
      (role ∈ met ↔ ∃ user, found = some user ∧
        c.Holds st ⟨user, (assignedRoles snapshot rows time).map (·.id), time⟩)) :
    HeldRoles st found snapshot rows time (assignedRoles snapshot rows time) met where
  assigned_sublist := List.filter_sublist
  met_sublist := sublist.trans candidates_sublist
  mem_assigned _ := World.mem_assignedRoles
  mem_met role := by
    constructor
    · intro hmet
      obtain ⟨⟨r, c⟩, hc, rfl⟩ := List.mem_map.mp (sublist.subset hmet)
      obtain ⟨hr, hother, hcondition⟩ := mem_candidates.mp hc
      obtain ⟨user, huser, holds⟩ := (mem_met r c hc).mp hmet
      exact ⟨hr, fun active => hother ((assigned_id_iff hr).mpr active), user, huser, c, hcondition,
        holds⟩
    · rintro ⟨hr, inactive, user, huser, c, hcondition, holds⟩
      have hc := mem_candidates.mpr ⟨hr, fun h => inactive ((assigned_id_iff hr).mp h), hcondition⟩
      exact (mem_met role c hc).mpr ⟨user, huser, holds⟩

theorem resolveRoles_held (answers : st.Answered answer states) (time : Instant)
    (eligible : Role → Bool)
    (hroles : cachedRoles.run.runOn answer x = (.ok snapshot, y))
    (hrows : (cachedAssignments user).run.runOn answer y = (.ok rows, z)) (hz : states z)
    (hfound : st.user user = .ok found) :
    ∃ assigned met,
      ((resolveRoles user time eligible).run.runOn answer x).1 = .ok (assigned ++ met) ∧
      HeldRoles st found (snapshot.filter eligible) rows time assigned met := by
  rw [resolveRoles, runOn_bind_ok _ hroles, runOn_bind_ok _ hrows]
  dsimp only
  split
  · next none =>
    refine ⟨_, [], by rw [List.append_nil]; rfl, heldRoles_of_met (List.nil_sublist _) ?_⟩
    intro role c hc
    rw [List.isEmpty_iff.mp none] at hc
    simp at hc
  · have hcall : (findUser user).run.runOn answer z =
        (.ok found, (answer (.findUser user) z).2) := by
      refine Prod.ext ?_ rfl
      exact (answers.user z hz user).trans hfound
    rw [runOn_bind_ok _ hcall]
    cases found with
    | none =>
      refine ⟨_, [], by rw [List.append_nil]; rfl, heldRoles_of_met (List.nil_sublist _) ?_⟩
      intro role c hc
      simp
    | some known =>
      dsimp only
      rw [runOn_bind_ok _ (runOn_ofProcedure _)]
      refine ⟨_, _, rfl, ?_⟩
      rw [meeting_eq_filter answers (answers.stays z hz (.findUser user) trivial)]
      refine heldRoles_of_met (List.filter_sublist.map _) fun role c hc => ?_
      simp only [List.mem_map, List.mem_filter, decide_eq_true_eq]
      constructor
      · rintro ⟨⟨r, d⟩, ⟨hd, holds⟩, rfl⟩
        have same := (mem_candidates.mp hd).2.2.symm.trans (mem_candidates.mp hc).2.2
        exact ⟨known, rfl, Option.some.inj same ▸ holds⟩
      · rintro ⟨_, same, holds⟩
        obtain rfl := Option.some.inj same
        exact ⟨(role, c), ⟨hc, holds⟩, rfl⟩

structure Handed (st : Statistics) (answer : (c : Call) → σ → c.Answer × σ) (user : UserId)
    (time : Instant) (snapshot : List Role) (rows : List Assignment) (found : Option User)
    (x : σ) : Prop where
  hands : ∃ states w y z, st.Answered answer states ∧ answer .now x = (time, w) ∧
    cachedRoles.run.runOn answer w = (.ok snapshot, y) ∧
    (cachedAssignments user).run.runOn answer y = (.ok rows, z) ∧ states z
  found : st.user user = .ok found

theorem Handed.returns (handed : Handed st answer user time snapshot rows found x) :
    ∃ assigned met, ((userRoles user).run.runOn answer x).1 = .ok (assigned ++ met) ∧
      HeldRoles st found snapshot rows time assigned met := by
  obtain ⟨states, w, y, z, answers, hnow, hroles, hrows, hz⟩ := handed.hands
  rw [userRoles, runOn_bind_ok _ (runOn_now hnow)]
  have held := resolveRoles_held answers time (fun _ => true) hroles hrows hz handed.found
  rwa [List.filter_true] at held

/-- A service returns the roles that a user holds by description, each once. Whether it returns
a role depends on nothing but the rows, the assigned roles and the role itself: another service
that is handed the same rows and a snapshot with the same assigned roles returns it as well. -/
theorem userRoles_held (handed : Handed st answer user time snapshot rows found x)
    (distinct : (snapshot.map (·.id)).Nodup) :
    ∃ assigned met, ((userRoles user).run.runOn answer x).1 = .ok (assigned ++ met) ∧
      HeldRoles st found snapshot rows time assigned met ∧
      ((assigned ++ met).map (·.id)).Nodup ∧
      ∀ {τ : Type} (answer' : (c : Call) → τ → c.Answer × τ) (snapshot' : List Role)
        (rows' : List Assignment) (x' : τ) (roles' : List Role),
        Handed st answer' user time snapshot' rows' found x' →
        (∀ a, a ∈ rows ↔ a ∈ rows') →
        (∀ r : Role, r.AssignedBy rows time → (r ∈ snapshot ↔ r ∈ snapshot')) →
        ((userRoles user).run.runOn answer' x').1 = .ok roles' →
        ∀ role ∈ snapshot, role ∈ snapshot' → (role ∈ assigned ++ met ↔ role ∈ roles') := by
  obtain ⟨assigned, met, hresult, held⟩ := handed.returns
  refine ⟨assigned, met, hresult, held, held.nodup distinct, ?_⟩
  intro τ answer' snapshot' rows' x' roles' handed' same agree hroles' role hrole hrole'
  obtain ⟨assigned', met', hresult', held'⟩ := handed'.returns
  obtain rfl := Except.ok.inj (hroles'.symm.trans hresult')
  exact held.mem_congr held' same agree hrole hrole'

/-- A conditional role that is also assigned by hand, with a repeated row, comes in the first group,
and a role for those who hold it in the second. A role for those who hold the latter stays out, as
does one with an expired row. Another order of the roles and rows and fewer unassigned
conditional roles change nothing for the rest. -/
theorem userRoles_held_reordered :
    let role (n : Nat) (target : RoleTarget) : Role := ⟨⟨.generated n⟩, ⟨"r", rfl⟩, "", none, none,
      target, false, false, false, false, false, false, 0, .empty, default, default⟩
    let past := role 0 .manual
    let further := role 1 (.conditional (.leaf (.roleAssignedTo ⟨.generated 2⟩)))
    let met := role 2 (.conditional (.leaf (.roleAssignedTo ⟨.generated 3⟩)))
    let byHand := role 3 (.conditional (.any []))
    let user : User :=
      ⟨⟨.generated 9⟩, "u", none, false, false, false, false, default, none, 0, 0, 0⟩
    let held : Assignment := ⟨⟨.generated 0⟩, byHand.id, user.id, none, default⟩
    let expired : Assignment := ⟨⟨.generated 1⟩, past.id, user.id, some default, default⟩
    let world (roles : List Role) (rows : List Assignment) : World Unit :=
      { World.startingAt default 0 with
        caches := fun _ => ⟨⟨some ⟨roles, 1⟩, 0⟩, ⟨[(user.id, ⟨rows, 1⟩)], 0⟩⟩
        people := [⟨user.id, some user, none, 0, []⟩] }
    let roles := [past, further, met, byHand]
    let roles' := [byHand, met, past]
    let rows := [held, expired, held]
    let rows' := [expired, held]
    let w := world roles rows
    let w' := world roles' rows'
    let handed := Handed (w.statistics ()) (World.answer ()) user.id w.now
    ((handed roles rows (some user) w ∧ (roles.map (·.id)).Nodup) ∧
        handed roles' rows' (some user) w') ∧
      World.returned () (userRoles user.id) w = .ok [byHand, met] ∧
      ∀ held', World.returned () (userRoles user.id) w' = .ok held' →
        met ∈ held' ∧ past ∉ held' := by
  intro role past further met byHand user held expired world roles roles' rows rows' w w' handed
  have first : handed roles rows (some user) w :=
    ⟨⟨World.SameOutside w, w, w, w, World.statistics_answered () w, rfl, rfl, rfl,
      rfl, rfl, rfl, rfl, rfl⟩, rfl⟩
  have second : handed roles' rows' (some user) w' :=
    ⟨⟨World.SameOutside w', w', w', w', World.statistics_answered () w', rfl, rfl, rfl,
      rfl, rfl, rfl, rfl, rfl⟩, rfl⟩
  have distinct : (roles.map (·.id)).Nodup := by decide
  have value : World.returned () (userRoles user.id) w = .ok [byHand, met] := by decide +kernel
  obtain ⟨assigned, others, hresult, -, -, alike⟩ := userRoles_held first distinct
  obtain hroles : assigned ++ others = [byHand, met] := Except.ok.inj (hresult.symm.trans value)
  rw [hroles] at alike
  refine ⟨⟨⟨first, distinct⟩, second⟩, value, fun returned hreturned => ?_⟩
  have same := alike _ _ _ _ _ second (by simp [rows, rows']) ?_ hreturned
  · exact ⟨(same met (by decide) (by decide)).mp (by decide),
      fun h => absurd ((same past (by decide) (by decide)).mpr h) (by decide)⟩
  · have only : ∀ a ∈ rows, a.isActiveAt w.now = true → a.roleId = byHand.id := by decide
    have there : ∀ r ∈ roles, r.id = byHand.id → r ∈ roles' := by decide
    have here : ∀ r ∈ roles', r.id = byHand.id → r ∈ roles := by decide
    rintro r ⟨a, ha, hrole, active⟩
    have hr : r.id = byHand.id := hrole.symm.trans (only a ha active)
    exact ⟨fun h => there r h hr, fun h => here r h hr⟩

end Service

end Entitlement
