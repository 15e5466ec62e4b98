import Entitlement.Proofs.Alone.Mirror
import Entitlement.Proofs.Sync.Runs

/-!
# A cache that nobody notices

As long as one service works alone, every read of roles returns what a service with empty
caches would return in its place: the same roles in the same order, up to a last use that
trails behind, and the same policies, privileges and users.
-/

set_option autoImplicit false

namespace Entitlement.World

variable {κ α β : Type} {w v : World κ}

structure SameOutside (w v : World κ) : Prop where
  store : w.store = v.store
  people : w.people = v.people
  instancePolicies : w.instancePolicies = v.instancePolicies
  now : w.now = v.now
  failing : w.failing = v.failing

theorem SameOutside.trans {u : World κ} (h : SameOutside w v) (h' : SameOutside v u) :
    SameOutside w u :=
  ⟨h.store.trans h'.store, h.people.trans h'.people,
    h.instancePolicies.trans h'.instancePolicies, h.now.trans h'.now, h.failing.trans h'.failing⟩

theorem SameOutside.symm (h : SameOutside w v) : SameOutside v w :=
  ⟨h.store.symm, h.people.symm, h.instancePolicies.symm, h.now.symm, h.failing.symm⟩

theorem SameOutside.reliable (h : SameOutside w v) (hw : w.Reliable) : v.Reliable :=
  fun port hport => h.failing ▸ hw port hport

theorem SameOutside.fails (h : SameOutside w v) (c : Call) : w.fails c = v.fails c := by
  simp only [World.fails, h.instancePolicies, h.failing]

theorem noteLoad_outside (c : Call) : SameOutside w (w.noteLoad c) := by
  cases c <;> exact ⟨rfl, rfl, rfl, rfl, rfl⟩

def ActiveAlike (stored : List Role) (rows storedRows : List Assignment) (time : Instant) : Prop :=
  ∀ r ∈ stored, (∃ a ∈ rows, a.isActiveAt time = true ∧ a.roleId = r.id) ↔
    ∃ a ∈ storedRows, a.isActiveAt time = true ∧ a.roleId = r.id

theorem ShowsRows.active {user : UserId} {rows : List Assignment} (h : w.ShowsRows [] user rows)
    (hw : w.Sound) (time : Instant) :
    ActiveAlike w.store.roles rows (w.store.assignmentsOfUser user) time := by
  intro r hr
  have hshown : UserLists.shown r.id rows =
      UserLists.shown r.id (w.store.assignmentsOfUser user) := by
    rw [shown_assignmentsOfUser hw]
    exact RowNews.leads_settled (h.leads r.id (Store.hasRole_iff.mpr ⟨r, hr, rfl⟩))
  have key {rows : List Assignment} (hs : UserLists.Sound user rows) :
      (∃ a ∈ rows, a.isActiveAt time = true ∧ a.roleId = r.id) ↔
        ∃ a, UserLists.shown r.id rows = some a ∧ a.isActiveAt time = true := by
    refine exists_congr fun a => ?_
    rw [hs.shown_iff]
    tauto
  rw [key h.sound, hshown, key (UserLists.sound_of_store hw.store.distinct user)]

variable [DecidableEq κ] {k : κ}

theorem setCache_outside (c : Cache) : SameOutside w (w.setCache k c) := ⟨rfl, rfl, rfl, rfl, rfl⟩

abbrev returned (k : κ) (request : Service α) (w : World κ) : Except Fault α :=
  (perform k request w).1

/-- A call that is served alike in such worlds is answered alike, as it fails in both or in
neither. -/
theorem answer_alike {c : Call} (h : SameOutside w v)
    (served : ∀ {w v : World κ}, SameOutside w v →
      (serve k c w).1 = (serve k c v).1 ∧ SameOutside (serve k c w).2 (serve k c v).2) :
    (answer k c w).1 = (answer k c v).1 ∧ SameOutside (answer k c w).2 (answer k c v).2 := by
  have noted : SameOutside ((w.noteLoad c).noteInquiry c) ((v.noteLoad c).noteInquiry c) := by
    obtain ⟨hs, hp, hi, hn, hf⟩ := h
    cases c <;> exact ⟨hs, hp, hi, hn, hf⟩
  unfold answer
  dsimp only
  rw [noted.fails]
  split
  · split
    · exact ⟨rfl, noted⟩
    · exact served noted
  · exact served noted

theorem answer_inquiry_alike {c : Call} (hc : c.IsInquiry) (h : SameOutside w v) :
    (answer k c w).1 = (answer k c v).1 ∧ SameOutside (answer k c w).2 (answer k c v).2 := by
  refine answer_alike h fun {w v} h => ?_
  cases c <;> first
    | exact hc.elim
    | exact ⟨by simp [serve, person?, h.people], h⟩

theorem runOn_inquires_alike {p : Procedure α} (hp : p.Asks Call.IsInquiry)
    (h : SameOutside w v) :
    (p.runOn (answer k) w).1 = (p.runOn (answer k) v).1 ∧
      SameOutside (p.runOn (answer k) w).2 (p.runOn (answer k) v).2 := by
  induction hp generalizing w v with
  | done a => exact ⟨rfl, h⟩
  | @call c next asked _ ih =>
    obtain ⟨hr, ho⟩ := answer_inquiry_alike (k := k) asked h
    simp only [Procedure.runOn]
    rw [hr]
    exact ih _ ho

variable {late : Instant → Instant → Prop} {roles stored : List Role}
  {rows storedRows : List Assignment}

inductive Alike (late : Instant → Instant → Prop) :
    Except Fault (List Role) → Except Fault (List Role) → Prop
  | ok {roles stored : List Role} (trails : List.Forall₂ (Role.Trails late) roles stored) :
      Alike late (.ok roles) (.ok stored)
  | error (fault : Fault) : Alike late (.error fault) (.error fault)

def TrailingCandidate (late : Instant → Instant → Prop) (a b : Role × Condition) : Prop :=
  a.1.Trails late b.1 ∧ a.2 = b.2

theorem meeting_trails {s : Subject} {xs ys : List (Role × Condition)}
    (h : List.Forall₂ (TrailingCandidate late) xs ys) (outside : SameOutside w v) :
    List.Forall₂ (Role.Trails late) ((Service.meeting s xs).runOn (answer k) w).1
      ((Service.meeting s ys).runOn (answer k) v).1 := by
  induction h generalizing w v with
  | nil => exact .nil
  | @cons x y _ _ head _ ih =>
    obtain ⟨r, c⟩ := x
    obtain ⟨t, d⟩ := y
    obtain ⟨trails, rfl⟩ : r.Trails late t ∧ c = d := head
    obtain ⟨hvalue, ho⟩ := runOn_inquires_alike (k := k) (c.evaluate_inquires s) outside
    rw [Service.meeting, Service.meeting, runOn_bind, runOn_bind, hvalue]
    split
    · rw [runOn_bind, runOn_bind]
      exact .cons trails (ih ho)
    · exact ih ho

theorem candidates_trail (h : List.Forall₂ (Role.Trails late) roles stored) {xs ys : List Role}
    (hids : xs.map (·.id) = ys.map (·.id)) :
    List.Forall₂ (TrailingCandidate late) (Service.candidates roles xs)
      (Service.candidates stored ys) := by
  have kept := Role.Trails.filter (p := fun r => r.id ∉ xs.map (·.id))
    (q := fun r => r.id ∉ ys.map (·.id)) h fun s _ r hrs => by rw [hrs.id, hids]
  refine List.rel_filterMap (fun r s hrs => ?_) kept
  have htarget : r.target = s.target :=
    show r.definition.target = s.definition.target from congrArg Role.target hrs.definition
  rw [htarget]
  cases s.target.condition? with
  | none => exact .none
  | some c => exact .some ⟨hrs, rfl⟩

theorem assignedRoles_trail {time : Instant} (h : List.Forall₂ (Role.Trails late) roles stored)
    (active : ActiveAlike stored rows storedRows time) :
    List.Forall₂ (Role.Trails late) (Service.assignedRoles roles rows time)
      (Service.assignedRoles stored storedRows time) := by
  refine Role.Trails.filter h fun s hs r hrs => ?_
  simp only [List.mem_map, List.mem_filter, decide_eq_decide, hrs.id, and_assoc]
  exact active s hs

theorem resolveRoles_alike {user : UserId} {time : Instant} {eligible : Role → Bool}
    {w' v' : World κ} (heligible : ∀ r : Role, eligible r.definition = eligible r)
    (hroles : perform k Service.cachedRoles w = (.ok roles, w'))
    (hrows : ∃ u, perform k (Service.cachedAssignments user) w' = (.ok rows, u) ∧
      SameOutside w u)
    (hstored : perform k Service.cachedRoles v = (.ok stored, v'))
    (hstoredRows : ∃ u, perform k (Service.cachedAssignments user) v' = (.ok storedRows, u) ∧
      SameOutside v u)
    (outside : SameOutside w v) (h : List.Forall₂ (Role.Trails late) roles stored)
    (active : ActiveAlike stored rows storedRows time) :
    Alike late (returned k (Service.resolveRoles user time eligible) w)
      (returned k (Service.resolveRoles user time eligible) v) := by
  obtain ⟨x, hrows, hx⟩ := hrows
  obtain ⟨y, hstoredRows, hy⟩ := hstoredRows
  have hxy : SameOutside x y := (hx.symm.trans outside).trans hy
  rw [returned, returned, Service.resolveRoles, perform_bind_ok _ hroles, perform_bind_ok _ hrows,
    perform_bind_ok _ hstored, perform_bind_ok _ hstoredRows]
  have among : List.Forall₂ (Role.Trails late) (roles.filter eligible) (stored.filter eligible) :=
    Role.Trails.filter h fun s _ r hrs => by rw [← heligible, hrs.definition, heligible]
  have assigned := assignedRoles_trail among
    fun r hr => active r (List.mem_of_mem_filter hr)
  have hids := Role.Trails.map_eq assigned Role.id fun _ => rfl
  have conditional := candidates_trail among hids
  have none {xs ys : List (Role × Condition)} (h : List.Forall₂ (TrailingCandidate late) xs ys) :
      xs.isEmpty = ys.isEmpty := by
    cases h <;> rfl
  dsimp only
  rw [none conditional]
  split
  · exact .ok assigned
  · obtain ⟨hfound, ho⟩ := answer_inquiry_alike (k := k) (c := .findUser user) trivial hxy
    change (perform k (Service.findUser user) x).1 = (perform k (Service.findUser user) y).1 at hfound
    change SameOutside (perform k (Service.findUser user) x).2
      (perform k (Service.findUser user) y).2 at ho
    rcases hf : perform k (Service.findUser user) x with ⟨found, x'⟩
    rcases hg : perform k (Service.findUser user) y with ⟨found', y'⟩
    rw [hf, hg] at hfound ho
    obtain rfl : found = found' := hfound
    cases found with
    | error fault =>
      rw [perform_bind_error _ hf, perform_bind_error _ hg]
      exact .error fault
    | ok found =>
      rw [perform_bind_ok _ hf, perform_bind_ok _ hg]
      cases found with
      | none => exact .ok assigned
      | some found =>
        dsimp only
        rw [perform_bind_ok _ (perform_ofProcedure _), perform_bind_ok _ (perform_ofProcedure _),
          hids]
        exact .ok (List.rel_append assigned (meeting_trails conditional ho))

/-- What is made of the definitions of roles is the same for records that trail behind. -/
theorem Alike.map {x : Service (List Role)} {f : List Role → β}
    (hx : Alike late (returned k x w) (returned k x v))
    (hf : ∀ {roles stored}, List.Forall₂ (Role.Trails late) roles stored → f roles = f stored) :
    returned k (x >>= fun roles => pure (f roles)) w =
      returned k (x >>= fun roles => pure (f roles)) v := by
  rcases h₁ : perform k x w with ⟨a, w'⟩
  rcases h₂ : perform k x v with ⟨b, v'⟩
  rw [returned, returned, h₁, h₂] at hx
  cases hx with
  | ok trails =>
    rw [returned, returned, perform_bind_ok _ h₁, perform_bind_ok _ h₂, hf trails]
    rfl
  | error fault => rw [returned, returned, perform_bind_error _ h₁, perform_bind_error _ h₂]

theorem basePolicies_alike (h : SameOutside w v) :
    returned k Service.basePolicies w = returned k Service.basePolicies v := by
  have hcall : returned k Service.instancePolicies w = returned k Service.instancePolicies v := by
    refine (answer_alike h fun {w v} h => ?_).1
    exact ⟨by simp [serve, h.instancePolicies], h⟩
  rcases h₁ : perform k Service.instancePolicies w with ⟨a, w'⟩
  rcases h₂ : perform k Service.instancePolicies v with ⟨b, v'⟩
  rw [returned, returned, h₁, h₂] at hcall
  obtain rfl : a = b := hcall
  cases a with
  | error fault =>
    rw [returned, returned, Service.basePolicies, perform_bind_error _ h₁,
      perform_bind_error _ h₂]
  | ok policies =>
    rw [returned, returned, Service.basePolicies, perform_bind_ok _ h₁, perform_bind_ok _ h₂]
    rfl

def restarted (w : World κ) (k : κ) (lifetimes : Lifetimes) : World κ :=
  { w.setCache k .empty with
    lifetimes := fun other => if other = k then lifetimes else w.lifetimes other }

theorem restarted_outside (w : World κ) (k : κ) (lifetimes : Lifetimes) :
    SameOutside w (w.restarted k lifetimes) := ⟨rfl, rfl, rfl, rfl, rfl⟩

theorem restarted_caches (w : World κ) (k : κ) (lifetimes : Lifetimes) :
    (w.restarted k lifetimes).caches k = .empty := setCache_caches _

theorem cachedRoles_loaded (hw : w.Reliable)
    (h : (w.caches k).roles.freshValue? w.moment = none) : ∃ v,
    perform k Service.cachedRoles w = (.ok w.store.roles, v) ∧
      (v.caches k).lists = (w.caches k).lists ∧ SameOutside w v := by
  refine ⟨_, perform_cachedRoles_missing hw h, ?_,
    (noteLoad_outside _).trans (setCache_outside _)⟩
  rw [setCache_caches]

theorem cachedAssignments_loaded (hw : w.Reliable) (user : UserId)
    (h : (w.caches k).lists.freshValue? user w.moment = none) : ∃ v,
    perform k (Service.cachedAssignments user) w = (.ok (w.store.assignmentsOfUser user), v) ∧
      SameOutside w v :=
  ⟨_, perform_cachedAssignments_missing hw user h,
    (noteLoad_outside _).trans (setCache_outside _)⟩

/-- Without a cache the records and the rows come from the store. -/
theorem restarted_loads (hw : w.Reliable) (lifetimes : Lifetimes) (user : UserId) : ∃ u v,
    perform k Service.cachedRoles (w.restarted k lifetimes) = (.ok w.store.roles, u) ∧
      perform k (Service.cachedAssignments user) u = (.ok (w.store.assignmentsOfUser user), v) ∧
      SameOutside (w.restarted k lifetimes) u ∧ SameOutside (w.restarted k lifetimes) v := by
  have hr : (w.restarted k lifetimes).Reliable := hw
  obtain ⟨u, hu, hlists, ho⟩ := cachedRoles_loaded (k := k) hr (by rw [restarted_caches]; rfl)
  rw [restarted_caches] at hlists
  obtain ⟨v, hv, ho'⟩ := cachedAssignments_loaded (k := k) (ho.reliable hr) user
    (by rw [hlists]; rfl)
  rw [← ho.store] at hv
  exact ⟨u, v, hu, hv, ho, ho.trans ho'⟩

section

variable (h : Mirrors late k w) (hw : w.Reliable) (refl : ∀ t, late t t)

include h hw

theorem Mirrors.cachedAssignments (user : UserId) : ∃ rows v,
    perform k (Service.cachedAssignments user) w = (.ok rows, v) ∧
      w.ShowsRows [] user rows ∧ SameOutside w v := by
  cases hf : (w.caches k).lists.freshValue? user w.moment with
  | none =>
    obtain ⟨v, hv, ho⟩ := cachedAssignments_loaded hw user hf
    exact ⟨_, v, hv, h.follows.rows user, ho⟩
  | some rows =>
    obtain ⟨c, hc, rfl⟩ := UserLists.mem_of_freshValue hf
    exact ⟨_, w, perform_cachedAssignments_fresh hf, h.follows.lists user c hc,
      rfl, rfl, rfl, rfl, rfl⟩

include refl

theorem Mirrors.cachedRoles : ∃ roles v, perform k Service.cachedRoles w = (.ok roles, v) ∧
    List.Forall₂ (Role.Trails late) roles w.store.roles ∧ SameOutside w v := by
  cases hf : (w.caches k).roles.freshValue? w.moment with
  | none =>
    obtain ⟨v, hv, -, ho⟩ := cachedRoles_loaded hw hf
    exact ⟨_, v, hv, List.forall₂_same.mpr fun r _ => ⟨rfl, refl _⟩, ho⟩
  | some roles =>
    refine ⟨roles, w, perform_cachedRoles_fresh hf, ?_, rfl, rfl, rfl, rfl, rfl⟩
    obtain ⟨c, he, rfl⟩ := RoleSnapshot.entry_of_freshValue hf
    exact h.snapshot c he

variable (trans : ∀ {t u v}, late t u → late u v → late t v) (lifetimes : Lifetimes)

include trans

theorem Mirrors.resolveRoles (user : UserId) (time : Instant) {eligible : Role → Bool}
    (heligible : ∀ r : Role, eligible r.definition = eligible r) :
    Alike late (returned k (Service.resolveRoles user time eligible) w)
      (returned k (Service.resolveRoles user time eligible) (w.restarted k lifetimes)) := by
  obtain ⟨roles, u, hu, trails, ho⟩ := h.cachedRoles hw refl
  have moves : Moves k w u := by
    have := cachedRoles_moves (k := k) hw
    rwa [hu] at this
  have hmirrors := h.moves refl trans moves
  obtain ⟨rows, v, hv, shows, ho'⟩ := hmirrors.cachedAssignments (ho.reliable hw) user
  obtain ⟨x, y, hx, hy, -, hoy⟩ := restarted_loads (k := k) hw lifetimes user
  have active := shows.active hmirrors.sound time
  rw [← ho.store] at active
  exact resolveRoles_alike heligible hu ⟨v, hv, ho.trans ho'⟩ hx ⟨y, hy, hoy⟩
    (restarted_outside w k lifetimes) trails active

theorem Mirrors.userRoles (user : UserId) :
    Alike late (returned k (Service.userRoles user) w)
      (returned k (Service.userRoles user) (w.restarted k lifetimes)) := by
  rw [returned, returned, perform_userRoles, perform_userRoles]
  exact h.resolveRoles hw refl trans lifetimes user w.now fun _ => rfl

theorem Mirrors.badgeRoles (user : UserId) :
    Alike late (returned k (Service.badgeRoles user) w)
      (returned k (Service.badgeRoles user) (w.restarted k lifetimes)) :=
  h.resolveRoles hw refl trans lifetimes user w.now fun _ => rfl

theorem Mirrors.userPolicies (user : Option UserId) :
    returned k (Service.userPolicies user) w =
      returned k (Service.userPolicies user) (w.restarted k lifetimes) := by
  have hbase := basePolicies_alike (k := k) (restarted_outside w k lifetimes)
  have hkept := perform_basePolicies (k := k) (w := w)
  have hkept' := perform_basePolicies (k := k) (w := w.restarted k lifetimes)
  rcases h₁ : perform k Service.basePolicies w with ⟨base, w'⟩
  rcases h₂ : perform k Service.basePolicies (w.restarted k lifetimes) with ⟨base', v'⟩
  rw [h₁] at hkept
  rw [h₂] at hkept'
  obtain rfl : w' = w := hkept
  obtain rfl : v' = w'.restarted k lifetimes := hkept'
  rw [returned, returned, h₁, h₂] at hbase
  obtain rfl : base = base' := hbase
  cases base with
  | error fault =>
    rw [returned, returned, Service.userPolicies, perform_bind_error _ h₁, perform_bind_error _ h₂]
  | ok base =>
    rw [returned, returned, Service.userPolicies, perform_bind_ok _ h₁, perform_bind_ok _ h₂]
    cases user with
    | none => rfl
    | some user =>
      refine Alike.map (f := fun roles => base.resolve (roles.map (·.policies)))
        (h.userRoles hw refl trans lifetimes user) (fun trails => ?_)
      rw [Role.Trails.map_eq trails (·.policies) fun _ => rfl]

theorem Mirrors.hasPrivilege (actor : Option Actor) {privilege : Role → Bool}
    (hprivilege : ∀ r : Role, privilege r.definition = privilege r) :
    returned k (Service.hasPrivilege actor privilege) w =
      returned k (Service.hasPrivilege actor privilege) (w.restarted k lifetimes) := by
  cases actor with
  | none => rfl
  | some actor =>
    simp only [Service.hasPrivilege]
    split
    · rfl
    · refine Alike.map (f := fun roles => roles.any privilege)
        (h.userRoles hw refl trans lifetimes actor.userId) (fun trails => ?_)
      have hmap := Role.Trails.map_eq trails privilege hprivilege
      simpa only [List.any_map, Function.id_comp] using congrArg (List.any · id) hmap

omit trans in
theorem Mirrors.privilegedUsers {privilege : Role → Bool}
    (hprivilege : ∀ r : Role, privilege r.definition = privilege r) :
    returned k (Service.privilegedUsers privilege) w =
      returned k (Service.privilegedUsers privilege) (w.restarted k lifetimes) := by
  obtain ⟨roles, u, hu, trails, ho⟩ := h.cachedRoles hw refl
  obtain ⟨x, -, hx, -, hox, -⟩ := restarted_loads (k := k) hw lifetimes ⟨.generated 0⟩
  have hids : (roles.filter privilege).map (·.id) = (w.store.roles.filter privilege).map (·.id) :=
    Role.Trails.map_eq (Role.Trails.filter trails
      fun s _ r hrs => by rw [← hprivilege, hrs.definition, hprivilege]) _ fun _ => rfl
  have hux : SameOutside u x := (ho.symm.trans (restarted_outside w k lifetimes)).trans hox
  rw [returned, returned, Service.privilegedUsers, perform_bind_ok _ hu, perform_bind_ok _ hx]
  dsimp only
  rw [hids]
  split
  · rfl
  · rw [perform_bind_ok _ perform_now, perform_bind_ok _ perform_now,
      perform_bind_ok _ (perform_assignmentsOfRoles (ho.reliable hw) _),
      perform_bind_ok _ (perform_assignmentsOfRoles (hux.reliable (ho.reliable hw)) _), hux.store,
      hux.now]
    rfl

end

namespace Alone

inductive Step (late : Instant → Instant → Prop) (k : κ) : World κ → World κ → Prop
  | requests {w : World κ} {α : Type} {request : Service α} (offered : Offered request)
      (reliable : w.Reliable) (fresh : w.Unused w.nextId) :
      Step late k w (w.perform k request).2
  | prunes (w : World κ) : Step late k w (Service.pruneCache.runOn (answer k) w).2
  | clears (w : World κ) : Step late k w (Service.clearCache.runOn (answer k) w).2
  | passes {w : World κ} (now : Instant) (moment : Moment) (nextId : Uuid) (people : List Person)
      (instancePolicies : Option InstancePolicies) (failing : List Port)
      (goesOn : late w.now now) (later : w.moment ≤ moment) :
      Step late k w { w with now, moment, nextId, people, instancePolicies, failing }

abbrev Runs (late : Instant → Instant → Prop) (k : κ) : World κ → World κ → Prop :=
  Relation.ReflTransGen (Step late k)

structure Opens (late : Instant → Instant → Prop) (k : κ) (w : World κ) : Prop where
  sound : w.Sound
  cache : w.caches k = .empty
  elapsed : w.Elapsed late

variable {w₀ : World κ}

omit [DecidableEq κ] in
theorem Opens.mirrors (h : Opens late k w) : Mirrors late k w where
  sound := h.sound
  elapsed := h.elapsed
  snapshot c hc := by simp [h.cache, Cache.empty, RoleSnapshot.empty] at hc
  follows := {
    known := by simp
    roles := ⟨h.sound.store.roles_nodup, fun _ => RoleNews.leads_self⟩
    rows := fun user => {
      sound := UserLists.sound_of_store h.sound.store.distinct user
      known := fun a ha => h.sound.rows_known a (Store.mem_assignmentsOfUser.mp ha).1
      leads := fun id _ => by
        rw [shown_assignmentsOfUser h.sound]
        exact RowNews.leads_self }
    snapshot := fun c hc => by simp [h.cache, Cache.empty, RoleSnapshot.empty] at hc
    lists := fun user c hc => by simp [h.cache, Cache.empty, UserLists.empty] at hc }

variable (refl : ∀ t, late t t) (trans : ∀ {t u v}, late t u → late u v → late t v)

include refl trans

theorem Step.mirrors (step : Step late k w v) (h : Mirrors late k w) : Mirrors late k v := by
  cases step with
  | requests offered reliable fresh =>
    exact h.moves refl trans (offered.moves reliable h.sound fresh)
  | prunes =>
    refine h.recached refl (fun c hc => .inl ?_) fun user c hc => .inl ?_
    · exact (Option.filter_eq_some_iff.mp hc).1
    · exact List.mem_of_mem_filter hc
  | clears =>
    refine h.recached refl (fun c hc => ?_) fun user c hc => ?_
    · simp [Cache.clear, RoleSnapshot.clear] at hc
    · simp [Cache.clear, UserLists.clear] at hc
  | passes now moment nextId people instancePolicies failing goesOn later =>
    have sound : World.Sound
        { w with now, moment, nextId, people, instancePolicies, failing } :=
      h.sound.of_same rfl rfl
    exact ⟨sound, fun r hr => trans (h.elapsed r hr) goesOn, h.snapshot,
      h.follows.same ⟨fun _ => rfl, rfl, rfl⟩ sound⟩

theorem Runs.mirrors (run : Runs late k w₀ w) (opens : Opens late k w₀) :
    Mirrors late k w := by
  induction run with
  | refl => exact opens.mirrors
  | tail _ step ih => exact step.mirrors refl trans ih

omit trans in
theorem Runs.ask {request : Service α} {nextId : Uuid} (run : Runs late k w₀ w)
    (offered : Offered request) (reliable : w.Reliable) (fresh : w.Unused nextId) :
    Runs late k w₀ (w.ask k nextId request) :=
  (run.tail (.passes w.now w.moment nextId w.people w.instancePolicies w.failing (refl _)
    (Nat.le_refl _))).tail (.requests offered reliable fresh)

end Alone

/-- Every read of a party returns what it would return after a restart; records of roles
may trail behind in their last use. -/
structure Transparent (late : Instant → Instant → Prop) (k : κ) (lifetimes : Lifetimes)
    (w : World κ) : Prop where
  userRoles : ∀ user, Alike late (returned k (Service.userRoles user) w)
    (returned k (Service.userRoles user) (w.restarted k lifetimes))
  badgeRoles : ∀ user, Alike late (returned k (Service.badgeRoles user) w)
    (returned k (Service.badgeRoles user) (w.restarted k lifetimes))
  userPolicies : ∀ user, returned k (Service.userPolicies user) w =
    returned k (Service.userPolicies user) (w.restarted k lifetimes)
  isModerator : ∀ actor, returned k (Service.isModerator actor) w =
    returned k (Service.isModerator actor) (w.restarted k lifetimes)
  isAdministrator : ∀ actor, returned k (Service.isAdministrator actor) w =
    returned k (Service.isAdministrator actor) (w.restarted k lifetimes)
  moderatorIds : ∀ both, returned k (Service.moderatorIds both) w =
    returned k (Service.moderatorIds both) (w.restarted k lifetimes)
  administratorIds : returned k Service.administratorIds w =
    returned k Service.administratorIds (w.restarted k lifetimes)

/-- A service that works alone never notices its cache. For a clock that may be set back
`late` is the relation of any two readings; when it only goes on, `late` is `≤`, and no record
shows a later use than the stored one. -/
theorem cache_transparent {w₀ : World κ} (refl : ∀ t, late t t)
    (trans : ∀ {t u v}, late t u → late u v → late t v) (opens : Alone.Opens late k w₀)
    (run : Alone.Runs late k w₀ w) (reliable : w.Reliable) (lifetimes : Lifetimes) :
    Transparent late k lifetimes w := by
  have h := run.mirrors refl trans opens
  exact {
    userRoles := h.userRoles reliable refl trans lifetimes
    badgeRoles := h.badgeRoles reliable refl trans lifetimes
    userPolicies := h.userPolicies reliable refl trans lifetimes
    isModerator := fun actor => h.hasPrivilege reliable refl trans lifetimes actor fun _ => rfl
    isAdministrator := fun actor => h.hasPrivilege reliable refl trans lifetimes actor fun _ => rfl
    moderatorIds := fun _ => h.privilegedUsers reliable refl lifetimes fun _ => rfl
    administratorIds := h.privilegedUsers reliable refl lifetimes fun _ => rfl }

/-- A service that has its roles at hand assigns one of them a second later. It goes on to show
the role as it was last used before that. -/
theorem cache_transparent_warm :
    let user : UserId := ⟨.generated 0⟩
    let role : RoleId := ⟨.generated 1⟩
    let w₀ : World Unit := startingAt default 0
    let w₁ := w₀.ask () (.generated 1) (Service.createRole (.manual "r") none)
    let w₂ := w₁.ask () (.generated 2) (Service.userRoles user)
    let w₃ := { w₂ with now := { w₂.now with second := w₂.now.second + 1 } }
    let w := w₃.ask () (.generated 3) (Service.assign user role none none)
    (Alone.Opens (· ≤ ·) () w₀ ∧ Alone.Runs (· ≤ ·) () w₀ w ∧ w.Reliable) ∧
      ((returned () (Service.userRoles user) w).toOption.map (·.map (·.lastUsedAt)) =
          some [w₀.now] ∧
        (returned () (Service.userRoles user) (w.restarted () .default)).toOption.map
          (·.map (·.lastUsedAt)) = some [w₃.now]) ∧
      Transparent (· ≤ ·) () .default w := by
  intro user role w₀ w₁ w₂ w₃ w
  have opens : Alone.Opens (· ≤ ·) () w₀ := {
    sound := sound_of_empty rfl rfl
    cache := rfl
    elapsed := by simp [Elapsed, w₀, startingAt, Store.empty] }
  have run₁ : Alone.Runs (· ≤ ·) () w₀ w₁ := Alone.Runs.ask Instant.le_refl .refl
    (.createRole _ none) (reliable_of_failing rfl) (by decide)
  have run₂ : Alone.Runs (· ≤ ·) () w₀ w₂ := Alone.Runs.ask Instant.le_refl run₁
    (.reads (.userRoles user)) (reliable_of_failing (by decide +kernel)) (by decide +kernel)
  have run₃ : Alone.Runs (· ≤ ·) () w₀ w₃ := run₂.tail
    (.passes _ w₂.moment w₂.nextId w₂.people w₂.instancePolicies w₂.failing
      (by decide +kernel) (Nat.le_refl _))
  have run : Alone.Runs (· ≤ ·) () w₀ w := Alone.Runs.ask Instant.le_refl run₃
    (.assign user role none none) (reliable_of_failing (by decide +kernel)) (by decide +kernel)
  have reliable : w.Reliable := reliable_of_failing (by decide +kernel)
  exact ⟨⟨opens, run, reliable⟩, by decide +kernel,
    cache_transparent Instant.le_refl Instant.le_trans opens run reliable .default⟩

end Entitlement.World
