import Entitlement.Proofs.Condition.Resolving

/-!
# Badges

The badges of a user are what the user would hold if there were no roles but badge roles. They
are the badge roles among all roles that the user holds, unless the condition of a badge role asks
for an assigned role that is no badge: that question is answered differently for badges.
-/

set_option autoImplicit false

namespace Entitlement

namespace Condition

def HasLeaf (p : Predicate) : Condition → Prop
  | .all children => ∃ c, ∃ _ : c ∈ children, c.HasLeaf p
  | .any children => ∃ c, ∃ _ : c ∈ children, c.HasLeaf p
  | .negation child => child.HasLeaf p
  | .leaf q => q = p

variable {p q : Predicate} {c : Condition} {children : List Condition} {st st' : Statistics}
  {s t : Subject}

@[simp] theorem hasLeaf_all : (all children).HasLeaf p ↔ ∃ c ∈ children, c.HasLeaf p := by
  rw [HasLeaf]
  simp only [exists_prop]

@[simp] theorem hasLeaf_any : (any children).HasLeaf p ↔ ∃ c ∈ children, c.HasLeaf p := by
  rw [HasLeaf]
  simp only [exists_prop]

@[simp] theorem hasLeaf_negation : (negation c).HasLeaf p ↔ c.HasLeaf p := by rw [HasLeaf]

@[simp] theorem hasLeaf_leaf : (leaf q).HasLeaf p ↔ q = p := by rw [HasLeaf]

/-- Only the leaves of a condition have a say in whether it holds. -/
theorem holds_congr_of_leaves (c : Condition)
    (h : ∀ p, c.HasLeaf p → (p.Holds st s ↔ p.Holds st' t)) : c.Holds st s ↔ c.Holds st' t := by
  induction c using Holds.induct with
  | case1 children ih =>
    rw [holds_all, holds_all]
    exact forall₂_congr fun c hc => ih c hc fun p hp => h p (hasLeaf_all.mpr ⟨c, hc, hp⟩)
  | case2 children ih =>
    rw [holds_any, holds_any]
    exact exists_congr fun c => and_congr_right fun hc =>
      ih c hc fun p hp => h p (hasLeaf_any.mpr ⟨c, hc, hp⟩)
  | case3 child ih =>
    rw [holds_negation, holds_negation, ih fun p hp => h p (hasLeaf_negation.mpr hp)]
  | case4 p =>
    rw [holds_leaf, holds_leaf]
    exact h p (hasLeaf_leaf.mpr rfl)

/-- The assigned roles matter where a leaf asks for one of them. -/
theorem holds_congr_of_roles (c : Condition) {user : User} {ids ids' : List RoleId}
    {time : Instant} (h : ∀ id, c.HasLeaf (.roleAssignedTo id) → (id ∈ ids ↔ id ∈ ids')) :
    c.Holds st ⟨user, ids, time⟩ ↔ c.Holds st ⟨user, ids', time⟩ := by
  refine c.holds_congr_of_leaves fun p hp => ?_
  cases p with
  | roleAssignedTo id => exact h id hp
  | flag f => cases f <;> exact Iff.rfl
  | age subject bound seconds => exact Iff.rfl
  | threshold metric comparison value => cases metric <;> exact Iff.rfl

end Condition

/-- Where a badge role is left to its condition, no leaf asks for an assigned role that is no
badge. -/
def BadgesApart (snapshot : List Role) (rows : List Assignment) (time : Instant) : Prop :=
  ∀ role ∈ snapshot, role.asBadge = true → ¬ role.AssignedBy rows time →
    ∀ c, role.target.condition? = some c →
      ∀ other ∈ snapshot, other.asBadge = false → other.AssignedBy rows time →
        ¬ c.HasLeaf (.roleAssignedTo other.id)

theorem eq_of_sublists {α : Type} {l l₁ l₂ : List α} (nodup : l.Nodup) (h₁ : l₁.Sublist l)
    (h₂ : l₂.Sublist l) (same : ∀ a, a ∈ l₁ ↔ a ∈ l₂) : l₁ = l₂ :=
  (nodup.perm_iff_eq_of_sublist h₁ h₂).mp
    ((List.perm_ext_iff_of_nodup (nodup.sublist h₁) (nodup.sublist h₂)).mpr same)

namespace HeldRoles

variable {st : Statistics} {found : Option User} {snapshot : List Role} {rows : List Assignment}
  {time : Instant} {assigned met badges further : List Role}

theorem badges_eq (h : HeldRoles st found snapshot rows time assigned met)
    (h' : HeldRoles st found (snapshot.filter (·.asBadge)) rows time badges further)
    (distinct : (snapshot.map (·.id)).Nodup) (apart : BadgesApart snapshot rows time) :
    badges ++ further = (assigned ++ met).filter (·.asBadge) := by
  have nodup : (snapshot.filter (·.asBadge)).Nodup :=
    (List.Nodup.of_map _ distinct).sublist List.filter_sublist
  have hassigned : badges = assigned.filter (·.asBadge) := by
    refine eq_of_sublists nodup h'.assigned_sublist (h.assigned_sublist.filter _) fun role => ?_
    rw [h'.mem_assigned, List.mem_filter, List.mem_filter, h.mem_assigned]
    exact and_right_comm
  have hmet : further = met.filter (·.asBadge) := by
    refine eq_of_sublists nodup h'.met_sublist (h.met_sublist.filter _) fun role => ?_
    rw [h'.mem_met, List.mem_filter, List.mem_filter, h.mem_met]
    -- A condition that is left to badges asks for no role that only the wider group has.
    have same (hrole : role ∈ snapshot) (badge : role.asBadge = true)
        (inactive : ¬ role.AssignedBy rows time) (user : User) :
        role.MetBy st ⟨user, badges.map (·.id), time⟩ ↔
          role.MetBy st ⟨user, assigned.map (·.id), time⟩ := by
      refine exists_congr fun c => and_congr_right fun hc => c.holds_congr_of_roles fun id leaf => ?_
      simp only [hassigned, List.mem_map, List.mem_filter]
      constructor
      · rintro ⟨other, ⟨hother, -⟩, rfl⟩
        exact ⟨other, hother, rfl⟩
      · rintro ⟨other, hother, rfl⟩
        obtain ⟨hsnapshot, active⟩ := (h.mem_assigned other).mp hother
        refine ⟨other, ⟨hother, ?_⟩, rfl⟩
        by_contra plain
        exact apart role hrole badge inactive c hc other hsnapshot (by simpa using plain) active leaf
    constructor
    · rintro ⟨⟨hrole, badge⟩, inactive, user, huser, holds⟩
      exact ⟨⟨hrole, inactive, user, huser, (same hrole badge inactive user).mp holds⟩, badge⟩
    · rintro ⟨⟨hrole, inactive, user, huser, holds⟩, badge⟩
      exact ⟨⟨hrole, badge⟩, inactive, user, huser, (same hrole badge inactive user).mpr holds⟩
  rw [List.filter_append, hassigned, hmet]

end HeldRoles

namespace Service

open Procedure

variable {σ τ : Type} {answer : (c : Call) → σ → c.Answer × σ}
  {answer' : (c : Call) → τ → c.Answer × τ} {x : σ} {x' : τ} {st : Statistics} {user : UserId}
  {time : Instant} {snapshot : List Role} {rows : List Assignment} {found : Option User}

theorem Handed.returns_badges (handed : Handed st answer user time snapshot rows found x) :
    ∃ assigned met, ((badgeRoles user).run.runOn answer x).1 = .ok (assigned ++ met) ∧
      HeldRoles st found (snapshot.filter (·.asBadge)) rows time assigned met := by
  obtain ⟨states, w, y, z, answers, hnow, hroles, hrows, hz⟩ := handed.hands
  rw [badgeRoles, runOn_bind_ok _ (runOn_now hnow)]
  exact resolveRoles_held answers time (·.asBadge) hroles hrows hz handed.found

variable {loads listed rest : List Exchange} {result : Except Fault (List Role)}

/-- After the clock was read and the roles and rows are had, a resolution goes on with those
that are eligible. -/
theorem told_resolveRoles_iff {eligible : Role → Bool}
    (hroles : cachedRoles.run.Told loads (.ok snapshot))
    (hrows : (cachedAssignments user).run.Told listed (.ok rows)) :
    (now >>= fun time => resolveRoles user time eligible).run.Told
        (⟨.now, time⟩ :: (loads ++ (listed ++ rest))) result ↔
      (resolveAmong user time (snapshot.filter eligible) rows).run.Told rest result := by
  have clock : now.run.Told [⟨.now, time⟩] (.ok time) := .call (.done _)
  rw [← List.singleton_append, told_bind_iff clock, resolveRoles_eq, told_bind_iff hroles,
    told_bind_iff hrows]

theorem told_badgeRoles_iff (hroles : cachedRoles.run.Told loads (.ok snapshot))
    (hrows : (cachedAssignments user).run.Told listed (.ok rows)) :
    (badgeRoles user).run.Told (⟨.now, time⟩ :: (loads ++ (listed ++ rest))) result ↔
      (resolveAmong user time (snapshot.filter (·.asBadge)) rows).run.Told rest result :=
  told_resolveRoles_iff hroles hrows

theorem told_userRoles_iff (hroles : cachedRoles.run.Told loads (.ok snapshot))
    (hrows : (cachedAssignments user).run.Told listed (.ok rows)) :
    (userRoles user).run.Told (⟨.now, time⟩ :: (loads ++ (listed ++ rest))) result ↔
      (resolveAmong user time snapshot rows).run.Told rest result := by
  show (now >>= fun t => resolveRoles user t fun _ => true).run.Told _ result ↔ _
  rw [told_resolveRoles_iff hroles hrows, List.filter_true]

/-- Badges are the badge roles among the roles of a user, in their order, where no condition of a
badge role asks for an assigned role that is no badge. In any case they are what the user would be
said to hold if the snapshot had badge roles only, whatever is asked and answered on the way; and
beside the user nothing is asked about but what the conditions of badge roles need. -/
theorem badgeRoles_among_roles (user : UserId) (time : Instant) (snapshot : List Role)
    (rows : List Assignment) :
    (∀ {σ τ : Type} {answer : (c : Call) → σ → c.Answer × σ}
        {answer' : (c : Call) → τ → c.Answer × τ} {x : σ} {x' : τ} {st : Statistics}
        {found : Option User},
      Handed st answer user time snapshot rows found x →
      Handed st answer' user time snapshot rows found x' →
      (snapshot.map (·.id)).Nodup → BadgesApart snapshot rows time →
      ∃ roles, ((userRoles user).run.runOn answer x).1 = .ok roles ∧
        ((badgeRoles user).run.runOn answer' x').1 = .ok (roles.filter (·.asBadge))) ∧
    ∀ {loads loads' listed rest : List Exchange} {result : Except Fault (List Role)},
      cachedRoles.run.Told loads (.ok snapshot) →
      cachedRoles.run.Told loads' (.ok (snapshot.filter (·.asBadge))) →
      (cachedAssignments user).run.Told listed (.ok rows) →
      ((badgeRoles user).run.Told (⟨.now, time⟩ :: (loads ++ (listed ++ rest))) result ↔
        (userRoles user).run.Told (⟨.now, time⟩ :: (loads' ++ (listed ++ rest))) result) ∧
      ((badgeRoles user).run.Told (⟨.now, time⟩ :: (loads ++ (listed ++ rest))) result →
        ∃ (looked : List Exchange) (evaluations : List Evaluation),
          rest = looked ++ evaluations.flatMap (·.asked) ∧
          (∀ e ∈ looked, e.call = .findUser user) ∧
          (evaluations.map (·.role)).Sublist (snapshot.filter (·.asBadge)) ∧
          ∀ e ∈ evaluations, e.role.target.condition? = some e.condition ∧ ∃ s, e.Fits s) := by
  constructor
  · intro σ τ answer answer' x x' st found handed handed' distinct apart
    obtain ⟨assigned, met, hroles, held⟩ := handed.returns
    obtain ⟨badges, further, hbadges, held'⟩ := handed'.returns_badges
    exact ⟨_, hroles, hbadges.trans (congrArg _ (held.badges_eq held' distinct apart))⟩
  · intro loads loads' listed rest result hloads hloads' hlisted
    rw [told_badgeRoles_iff hloads hlisted, told_userRoles_iff hloads' hlisted]
    refine ⟨Iff.rfl, fun told => ?_⟩
    obtain ⟨looked, evaluations, hrest, resolution⟩ := resolveAmong_told told
    have roles : evaluations.map (·.role) = (evaluations.map (·.candidate)).map (·.1) := by
      simp [Evaluation.candidate]
    refine ⟨looked, evaluations, hrest, resolution.looked, ?_, fun e he => ⟨?_, ?_⟩⟩
    · rw [roles]
      exact (resolution.among.map _).trans candidates_sublist
    · exact (mem_candidates.mp (resolution.among.subset (List.mem_map_of_mem he))).2.2
    · exact resolution.fits e he

/-- A user who is assigned a plain role, a badge, and a badge with a condition of its own that asks
for the plain role. A fourth badge is for holders of the second who use two factors, and a fifth
role, no badge, counts keys. -/
theorem badgeRoles_among_roles_five :
    let role (n : Nat) (badge : Bool) (target : RoleTarget) : Role := ⟨⟨.generated n⟩, ⟨"r", rfl⟩,
      "", none, none, target, false, false, false, false, badge, false, 0, .empty, default, default⟩
    let plain := role 1 false .manual
    let badge := role 2 true .manual
    let byHand := role 3 true (.conditional (.leaf (.roleAssignedTo plain.id)))
    let earned := role 4 true (.conditional
      (.all [.leaf (.roleAssignedTo badge.id), .leaf (.flag .hasTwoFactorAuth)]))
    let secured := role 5 false (.conditional (.leaf (.flag .hasSecurityKey)))
    let user : User :=
      ⟨⟨.generated 9⟩, "u", none, false, false, false, false, default, none, 0, 0, 0⟩
    let profile : Profile := ⟨true, false, false, none, []⟩
    let row (n : Nat) (role : Role) : Assignment := ⟨⟨.generated n⟩, role.id, user.id, none, default⟩
    let snapshot := [secured, earned, plain, badge, byHand]
    let rows := [row 1 plain, row 2 badge, row 3 byHand]
    let w : World Unit := { World.startingAt default 0 with
      caches := fun _ => ⟨⟨some ⟨snapshot, 1⟩, 0⟩, ⟨[(user.id, ⟨rows, 1⟩)], 0⟩⟩
      people := [⟨user.id, some user, some profile, 1, []⟩] }
    let loads (roles : List Role) : List Exchange := [⟨.lookupRoles, .fresh roles⟩]
    let listed : List Exchange := [⟨.lookupAssignments user.id, .fresh rows⟩]
    let asked : List Exchange :=
      [⟨.findUser user.id, .ok (some user)⟩, ⟨.findProfile user.id, .ok (some profile)⟩]
    let badges := [badge, byHand, earned]
    (Handed (w.statistics ()) (World.answer ()) user.id w.now snapshot rows (some user) w ∧
        (snapshot.map (·.id)).Nodup ∧ BadgesApart snapshot rows w.now) ∧
      World.returned () (userRoles user.id) w = .ok [plain, badge, byHand, secured, earned] ∧
      World.returned () (badgeRoles user.id) w = .ok badges ∧
      (userRoles user.id).run.Told
        (⟨.now, w.now⟩ :: (loads (snapshot.filter (·.asBadge)) ++ (listed ++ asked)))
        (.ok badges) := by
  intro role plain badge byHand earned secured user profile row snapshot rows w loads listed asked
    badges
  have handed : Handed (w.statistics ()) (World.answer ()) user.id w.now snapshot rows
      (some user) w :=
    ⟨⟨World.SameOutside w, w, w, w, World.statistics_answered () w, rfl, rfl, rfl,
      rfl, rfl, rfl, rfl, rfl⟩, rfl⟩
  have distinct : (snapshot.map (·.id)).Nodup := by decide
  have apart : BadgesApart snapshot rows w.now := by
    have earnedOnly : ∀ r ∈ snapshot, r.asBadge = true →
        (∀ a ∈ rows, a.roleId = r.id → a.isActiveAt w.now = false) → r = earned := by decide
    have plainOnly : ∀ r ∈ snapshot, r.asBadge = false →
        (∃ a ∈ rows, a.roleId = r.id ∧ a.isActiveAt w.now = true) → r.id = plain.id := by decide
    intro r hr isBadge inactive c hc other hother isPlain active
    obtain rfl := earnedOnly r hr isBadge fun a ha hrole => by
      by_contra h
      exact inactive ⟨a, ha, hrole, by simpa using h⟩
    obtain rfl := Option.some.inj hc
    rw [plainOnly other hother isPlain active]
    have asksForBadge : badge.id ≠ plain.id := by decide
    simpa using asksForBadge
  have value : World.returned () (userRoles user.id) w =
      .ok [plain, badge, byHand, secured, earned] := by decide +kernel
  obtain ⟨among, alone⟩ := badgeRoles_among_roles user.id w.now snapshot rows
  obtain ⟨roles, hroles, hbadges⟩ := among handed handed distinct apart
  obtain rfl := Except.ok.inj (hroles.symm.trans value)
  have told : (badgeRoles user.id).run.Told
      (⟨.now, w.now⟩ :: (loads snapshot ++ (listed ++ asked))) (.ok badges) :=
    .call (.call (.call (.call (.call (.done _)))))
  have fresh (roles : List Role) : cachedRoles.run.Told (loads roles) (.ok roles) := .call (.done _)
  have warm : (cachedAssignments user.id).run.Told listed (.ok rows) := .call (.done _)
  exact ⟨⟨handed, distinct, apart⟩, value, hbadges,
    (alone (fresh snapshot) (fresh _) warm).1.mp told⟩

end Service

end Entitlement
