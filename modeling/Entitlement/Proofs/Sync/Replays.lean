import Entitlement.Proofs.Sync.OwnWrites

/-!
# A waiting grant takes effect once more

A grant that still waits when its row is revoked, or when its role is deleted while the
creation of the role waits too, is applied afterwards. Until the rest of the queue has
arrived the user reads the role, although nobody assigned it since.
-/

set_option autoImplicit false

namespace Entitlement

theorem Cache.apply_lists_one {cache : Cache} {e : RoleEvent} {user : UserId}
    {c : Cached (List Assignment)} (h : cache.lists.entries = [(user, c)]) :
    ∃ rows, (cache.apply e).lists.entries = [(user, { c with value := rows })] ∧
      UserLists.Patched e user c.value rows := by
  have patched (a : Assignment) (ha : e.row? = some a) :
      ∃ rows, (cache.lists.apply e a.userId).entries = [(user, { c with value := rows })] ∧
        UserLists.Patched e user c.value rows := by
    simp only [UserLists.apply, h, List.map_cons, List.map_nil]
    by_cases hu : user = a.userId
    · refine ⟨UserLists.patch e c.value, by rw [if_pos hu], .inl ⟨rfl, fun b hb => ?_⟩⟩
      rw [hu, ← Option.some.inj (ha.symm.trans hb)]
    · exact ⟨c.value, by rw [if_neg hu], .inr ⟨rfl, a, ha, fun e => hu e.symm⟩⟩
  cases e with
  | userRoleAssigned a => exact patched a rfl
  | userRoleUnassigned a => exact patched a rfl
  | _ => exact ⟨c.value, h, .inl ⟨rfl, fun a ha => by simp [RoleEvent.row?] at ha⟩⟩

namespace World

variable {κ : Type} [DecidableEq κ] {w v x : World κ} {party : κ} {queue rest : List RoleEvent}
  {e : RoleEvent} {s : Store} {user : UserId} {id : RoleId} {role : Role} {a : Assignment}

def Lasting (w : World κ) (party : κ) : Prop :=
  w.moment < Moment.deadline w.moment (w.lifetimes party).roles ∧
    w.moment < Moment.deadline w.moment (w.lifetimes party).assignments

instance (w : World κ) (party : κ) : Decidable (w.Lasting party) :=
  inferInstanceAs (Decidable (_ ∧ _))

structure Primed (w : World κ) (party : κ) (user : UserId) (id : RoleId)
    (queue : List RoleEvent) (role : Role) (a : Assignment) : Prop where
  snapshot : ∃ c, (w.caches party).roles.entry = some c ∧ c.isFresh w.moment = true ∧
    RoleNews.Leads (RoleSnapshot.shown id c.value) (roleQueue queue id) (some role)
  list : ∃ c, (w.caches party).lists.entries = [(user, c)] ∧ c.isFresh w.moment = true ∧
    RowNews.Leads (UserLists.shown id c.value) (pairQueue queue user id) (some a)

structure Quiet (w v : World κ) : Prop where
  run : Runs w v
  now : v.now = w.now
  failing : v.failing = w.failing
  events : v.effects.events = w.effects.events

theorem Quiet.trans (h : Quiet w v) (k : Quiet v x) : Quiet w x :=
  ⟨h.run.trans k.run, k.now.trans h.now, k.failing.trans h.failing, k.events.trans h.events⟩

theorem Primed.deliver (p : w.Primed party user id (e :: queue) role a)
    (h : w.Synced party (e :: rest)) :
    (w.deliverNext party).Primed party user id queue role a := by
  have hdeliver := deliverNext_cons h.holds
  have hcache : (w.deliverNext party).caches party = (w.caches party).apply e := by
    rw [hdeliver]
    exact setCache_caches _
  have hmoment : (w.deliverNext party).moment = w.moment := by rw [hdeliver]; rfl
  obtain ⟨c, hc, hfresh, hleads⟩ := p.snapshot
  obtain ⟨d, hd, hfresh', hleads'⟩ := p.list
  constructor
  · refine ⟨{ c with value := RoleSnapshot.patch e c.value }, ?_, by rwa [hmoment], ?_⟩
    · rw [hcache, Cache.apply_entry, hc]
      rfl
    · cases hn : e.newsOf id with
      | none =>
        rw [RoleSnapshot.shown_patch_other hn]
        rwa [roleQueue, List.filterMap_cons_none hn] at hleads
      | some n =>
        rw [RoleSnapshot.shown_patch hn]
        rw [roleQueue, List.filterMap_cons_some hn] at hleads
        exact RoleNews.leads_deliver hleads
  · obtain ⟨rows, hrows, hp⟩ := Cache.apply_lists_one (e := e) hd
    have hl := h.follows.lists user d (by simp [hd])
    have hid (a : Assignment) (ha : e.row? = some a) (x : Assignment) (hx : x ∈ d.value) :
        x.id = a.id → x = a :=
      h.sound.row_known (h.follows.known e (by simp)) ha (hl.known x hx)
    refine ⟨{ d with value := rows }, by rw [hcache, hrows], by rwa [hmoment], ?_⟩
    cases hn : e.newsOfPair user id with
    | none =>
      rw [hp.shown_kept hl.sound hid hn]
      rwa [pairQueue, List.filterMap_cons_none hn] at hleads'
    | some n =>
      rw [hp.shown_news hl.sound hid hn]
      rw [pairQueue, List.filterMap_cons_some hn] at hleads'
      exact RowNews.leads_deliver hleads'

theorem Quiet.deliver (w : World κ) (party : κ) : Quiet w (w.deliverNext party) := by
  refine ⟨.single (.delivers party), ?_, ?_, ?_⟩ <;>
    rcases w.deliverNext_cases party with he | ⟨e, he⟩ <;> rw [he] <;> rfl

/-- After the events have arrived, the cache shows the record and the row. -/
theorem Primed.delivers (p : w.Primed party user id queue role a)
    (h : w.Synced party (queue ++ rest)) :
    ∃ x, Quiet w x ∧ x.Synced party rest ∧ x.Primed party user id [] role a := by
  induction queue generalizing w with
  | nil => exact ⟨w, ⟨.refl, rfl, rfl, rfl⟩, h, p⟩
  | cons e queue ih =>
    have hnext : (w.deliverNext party).Synced party (queue ++ rest) := by
      obtain ⟨q, hq⟩ := h.turn (.delivers w)
      have hwaits : (w.deliverNext party).feed.Holds party (queue ++ rest) := by
        rw [deliverNext_cons h.holds]
        exact Feed.holds_advance h.holds
      obtain rfl : q = queue ++ rest := hq.waiting.symm.trans (Feed.waiting_of_holds hwaits)
      exact hq
    obtain ⟨x, quiet, hx, px⟩ := ih (p.deliver h) hnext
    exact ⟨x, (Quiet.deliver w party).trans quiet, hx, px⟩

structure Reloaded (w x : World κ) (party : κ) (user : UserId) : Prop extends Quiet w x where
  feed : x.feed = w.feed
  moment : x.moment = w.moment
  snapshot : (x.caches party).roles.entry =
    some ⟨w.store.roles, Moment.deadline w.moment (w.lifetimes party).roles⟩
  list : (x.caches party).lists.entries = [(user, ⟨w.store.assignmentsOfUser user,
    Moment.deadline w.moment (w.lifetimes party).assignments⟩)]

theorem reload (reliable : w.Reliable) (fresh : w.Unused w.nextId) (party : κ) (user : UserId) :
    ∃ x, Reloaded w x party user := by
  obtain ⟨w₁, hw₁⟩ : ∃ w₁, w₁ = (Service.clearCache.runOn (answer party) w).2 := ⟨_, rfl⟩
  have step₁ : Step w w₁ := hw₁ ▸ .clears party
  replace hw₁ : w₁ = w.setCache party (w.caches party).clear := hw₁
  have reliable₁ : w₁.Reliable := hw₁ ▸ reliable
  obtain ⟨w₂, hw₂⟩ : ∃ w₂, w₂ = (w₁.perform party Service.cachedRoles).2 := ⟨_, rfl⟩
  have step₂ : Step w₁ w₂ :=
    hw₂ ▸ .requests party (.reads .cachedRoles) reliable₁ (hw₁ ▸ fresh)
  rw [perform_cachedRoles_missing reliable₁ (by rw [hw₁, setCache_caches]; rfl)] at hw₂
  have reliable₂ : w₂.Reliable := hw₂ ▸ reliable₁
  have fresh₂ : w₂.Unused w₂.nextId := by
    rw [hw₂, hw₁]
    exact fresh
  obtain ⟨x, hx⟩ : ∃ x, x = (w₂.perform party (Service.cachedAssignments user)).2 := ⟨_, rfl⟩
  have step₃ : Step w₂ x :=
    hx ▸ .requests party (.reads (.cachedAssignments user)) reliable₂ fresh₂
  rw [perform_cachedAssignments_missing reliable₂ user (by
    rw [hw₂, setCache_caches, hw₁]
    simp [UserLists.freshValue?, Cache.clear, UserLists.clear])] at hx
  refine ⟨x, ⟨.tail (.tail (.single step₁) step₂) step₃, ?_, ?_, ?_⟩, ?_, ?_, ?_, ?_⟩
  iterate 5
    rw [hx, hw₂, hw₁]
    rfl
  all_goals
    rw [hx, setCache_caches, hw₂, setCache_caches, hw₁, setCache_caches]
    rfl

theorem Synced.of_turns (h : w.Synced party queue) (turns : Turns party w v)
    (waiting : v.feed.waiting party = rest) : v.Synced party rest := by
  obtain ⟨q, hq⟩ := h.turns turns
  rwa [← waiting, hq.waiting]

/-- An emptied cache that loads the roles and the list of a user shows what is stored. -/
theorem Synced.primes (h : w.Synced party queue) (reliable : w.Reliable)
    (fresh : w.Unused w.nextId) (lasting : w.Lasting party)
    (hrole : RoleNews.Leads (w.storedRole id) (roleQueue rest id) (some role))
    (hrow : RowNews.Leads (w.store.findAssignment user id) (pairQueue rest user id) (some a)) :
    ∃ x, Quiet w x ∧ x.Synced party queue ∧ x.Primed party user id rest role a := by
  obtain ⟨x, reloaded⟩ := reload reliable fresh party user
  have hsynced : x.Synced party queue :=
    h.of_turns (reloaded.run.turns h) (reloaded.feed ▸ h.waiting)
  have hshown := shown_assignmentsOfUser h.sound user id
  refine ⟨x, reloaded.toQuiet, hsynced, ⟨_, reloaded.snapshot, ?_, hrole⟩,
    ⟨_, reloaded.list, ?_, hshown ▸ hrow⟩⟩
  · rw [reloaded.moment]
    exact decide_eq_true lasting.1
  · rw [reloaded.moment]
    exact decide_eq_true lasting.2

/-- A cache that shows a record and an active row gives the role to its user. -/
theorem Primed.reads (p : w.Primed party user id [] role a) (active : a.isActiveAt w.now = true)
    (works : w.failing = []) :
    ∃ roles, (w.perform party (Service.userRoles user)).1 = .ok roles ∧
      ∃ r ∈ roles, r.id = id ∧ r.definition = role := by
  obtain ⟨c, hc, hfresh, hleads⟩ := p.snapshot
  obtain ⟨d, hd, hfresh', hleads'⟩ := p.list
  have hsnapshot : (w.caches party).roles.freshValue? w.moment = some c.value := by
    simp [RoleSnapshot.freshValue?, hc, hfresh]
  have hlist : (w.caches party).lists.freshValue? user w.moment = some d.value := by
    simp [UserLists.freshValue?, hd, hfresh']
  obtain ⟨-, resolves, finishes⟩ := perform_resolveRoles_of w.now (fun _ => true)
    (perform_cachedRoles_fresh hsnapshot) (perform_cachedAssignments_fresh hlist)
  obtain ⟨roles, ok⟩ := finishes (by simp [works])
  obtain ⟨r, hr, hid, hrole⟩ : ∃ r ∈ c.value, r.id = id ∧ r.definition = role := by
    obtain ⟨r, hr, hdef⟩ := Option.map_eq_some_iff.mp (RoleNews.leads_settled hleads)
    exact ⟨r, List.mem_of_find?_eq_some hr, by simpa using List.find?_some hr, hdef⟩
  have hrow := UserLists.shown_mem (RowNews.leads_settled hleads')
  refine ⟨roles, perform_userRoles (k := party) user ▸ ok, r, ?_, hid, hrole⟩
  apply (resolves roles ok).assigned r (List.mem_filter.mpr ⟨hr, rfl⟩)
  exact ⟨a, hrow.1, hrow.2.trans hid.symm, active⟩

/-- Once the events have arrived that lead to a record and a row, the user has the role. -/
theorem Synced.replays (h : w.Synced party (queue ++ rest)) (reliable : w.Reliable)
    (fresh : w.Unused w.nextId) (lasting : w.Lasting party) (active : a.isActiveAt w.now = true)
    (hrole : RoleNews.Leads (w.storedRole id) (roleQueue queue id) (some role))
    (hrow : RowNews.Leads (w.store.findAssignment user id) (pairQueue queue user id) (some a)) :
    ∃ x, Runs w x ∧ x.Reliable ∧ x.effects.events = w.effects.events ∧
      ∃ roles, (x.perform party (Service.userRoles user)).1 = .ok roles ∧
        ∃ r ∈ roles, r.id = id ∧ r.definition = role := by
  obtain ⟨v, quiet, hv, primed⟩ := h.primes reliable fresh lasting hrole hrow
  obtain ⟨x, quiet', -, primed⟩ := primed.delivers hv
  have works : Step x { x with failing := [] } :=
    .passes x.now x.moment x.nextId x.people x.instancePolicies [] (Nat.le_refl _)
  have quiet := quiet.trans quiet'
  refine ⟨_, quiet.run.tail works, reliable_of_failing rfl, quiet.events, ?_⟩
  have primed' : ({ x with failing := [] } : World κ).Primed party user id [] role a :=
    ⟨primed.snapshot, primed.list⟩
  exact primed'.reads (by rw [← quiet.now] at active; exact active) rfl

/-- What is loaded, or shown, of a pair does not matter while news of it waits. -/
theorem pairs_lead (h : w.Synced party queue) (ha : a ∈ w.store.rows)
    (waits : ∃ e ∈ queue, e.grants a.userId a.roleId = true) :
    RowNews.Leads none (pairQueue queue a.userId a.roleId) (some a) := by
  have hfound : w.store.findAssignment a.userId a.roleId = some a :=
    h.sound.store.findAssignment_iff.mpr ⟨ha, rfl, rfl⟩
  have hleads := (h.follows.rows a.userId).leads a.roleId (h.sound.store.rows_role a ha)
  rw [hfound] at hleads
  refine ⟨by simp, hleads.answered, fun b hb => .inr ?_⟩
  rcases hleads.ends b hb with ⟨hnil, -⟩ | hlast
  · obtain ⟨e, he, hg⟩ := waits
    cases e with
    | userRoleAssigned x =>
      have hx := List.filterMap_eq_nil_iff.mp hnil _ he
      simp [RoleEvent.newsOfPair] at hx
      simp [RoleEvent.grants] at hg
      exact absurd hg.2 (hx hg.1)
    | _ => simp [RoleEvent.grants] at hg
  · exact hlast

theorem roles_lead (h : w.Synced party queue) (hstored : w.storedRole id = some role)
    {created : Role} (waits : .roleCreated created ∈ queue) (hid : created.id = id) :
    RoleNews.Leads none (roleQueue queue id) (some role) := by
  have hleads := h.follows.roles.leads id
  rw [hstored] at hleads
  have hcreates : .created created.definition ∈ roleQueue queue id :=
    List.mem_filterMap.mpr ⟨_, waits, if_pos hid⟩
  refine ⟨.inr ?_, hleads.kept, by simp, hleads.news_older, fun _ => ⟨_, hcreates⟩⟩
  rcases hleads.ends with ⟨hnil, -⟩ | hlast
  · simp [hnil] at hcreates
  · exact hlast

structure After (w v : World κ) (party : κ) (queue : List RoleEvent) (e : RoleEvent)
    (s : Store) : Prop where
  change : w.Change e s
  synced : v.Synced party (queue ++ [e])
  roles : ∀ id, v.storedRole id = RoleSnapshot.shown id s.roles
  rows : v.store.rows = s.rows
  events : v.effects.events = w.effects.events ++ [e]
  now : v.now = w.now
  moment : v.moment = w.moment
  lifetimes : v.lifetimes = w.lifetimes
  nextId : v.nextId = w.nextId
  failing : v.failing = w.failing

theorem unassign_after (h : w.Synced party queue) (reliable : w.Reliable) {actor : Option Actor}
    (ok : w.perform party (Service.unassign user id actor) = (.ok (), v)) :
    ∃ a ∈ w.store.rows, a.userId = user ∧ a.roleId = id ∧ a.isActiveAt w.now = true ∧
      After w v party queue (.userRoleUnassigned a) (w.store.deleteAssignment a.id).2 := by
  obtain ⟨a, ha, hu, hr, active, u, rfl, noted⟩ := unassign_ok reliable ok
  have change : w.Change (.userRoleUnassigned a) (w.store.deleteAssignment a.id).2 :=
    .unassigned ha
  have touched : Move party _ _ := Move.touches (w :=
    (w.setStore (w.store.deleteAssignment a.id).2).announce party (.userRoleUnassigned a)) id
    (rfl : w.now = _)
  have turns : Turns party w v := .tail (.tail (.single (.announces party change)) touched.turn)
    noted.turn
  obtain ⟨effects, rfl, hevents⟩ := noted
  refine ⟨a, ha, hu, hr, active, change, h.of_turns turns (h.announce_waiting party _ _), fun id => ?_,
    rfl, hevents, rfl, rfl, rfl, rfl, rfl⟩
  exact shown_modifyFirst_keep _ (fun _ => rfl) fun _ => rfl

theorem deleteRole_after (h : w.Synced party queue) (reliable : w.Reliable) {actor : Option Actor}
    (ok : w.perform party (Service.deleteRole id actor) = (.ok (), v)) :
    ∃ role s, role.id = id ∧ w.store.findRole id = some role ∧ w.store.deleteRole id = .ok s ∧
      After w v party queue (.roleDeleted role) s := by
  obtain ⟨role, s, hf, hdelete, noted⟩ := deleteRole_ok reliable ok
  obtain rfl := Store.findRole_id hf
  have change : w.Change (.roleDeleted role) s := .deleted hf hdelete
  have turns : Turns party w v := .tail (.single (.announces party change)) noted.turn
  obtain ⟨effects, rfl, hevents⟩ := noted
  exact ⟨role, s, rfl, hf, hdelete, change, h.of_turns turns (h.announce_waiting party _ _),
    fun id => rfl, rfl, hevents, rfl, rfl, rfl, rfl, rfl⟩

/-- What waited before a change is delivered after it, and the user has the role again. -/
theorem After.replays (after : After w v party queue e s) (reliable : w.Reliable)
    (fresh : w.Unused w.nextId) (known : w.nextId ∉ e.ids) (lasting : w.Lasting party)
    (active : a.isActiveAt w.now = true)
    (hrole : RoleNews.Leads (RoleSnapshot.shown id s.roles) (roleQueue queue id) (some role))
    (hrow : RowNews.Leads (s.findAssignment user id) (pairQueue queue user id) (some a)) :
    ∃ x, Runs v x ∧ x.Reliable ∧ x.effects.events = v.effects.events ∧
      ∃ roles, (x.perform party (Service.userRoles user)).1 = .ok roles ∧
        ∃ r ∈ roles, r.id = id ∧ r.definition = role := by
  apply after.synced.replays (a := a)
  · intro port hport
    rw [after.failing]
    exact reliable port hport
  · intro f hf
    rw [after.nextId]
    rw [after.events] at hf
    rcases List.mem_append.mp hf with hf | hf
    · exact fresh f hf
    · exact List.mem_singleton.mp hf ▸ known
  · rw [Lasting, after.moment, after.lifetimes]
    exact lasting
  · rw [after.now]
    exact active
  · rwa [after.roles]
  · rwa [findAssignment_of_rows after.rows]

/-- A revocation is undone while a grant of its pair waits. -/
theorem unassign_replays (h : w.Synced party queue) (reliable : w.Reliable)
    (fresh : w.Unused w.nextId) (lasting : w.Lasting party) {actor : Option Actor}
    (ok : w.perform party (Service.unassign user id actor) = (.ok (), v))
    (waits : ∃ e ∈ v.feed.waiting party, e.grants user id = true) :
    ∃ x, Runs v x ∧ x.Reliable ∧ x.effects.events = v.effects.events ∧
      ∃ roles, (x.perform party (Service.userRoles user)).1 = .ok roles ∧
        ∃ r ∈ roles, r.id = id ∧ w.storedRole id = some r.definition := by
  obtain ⟨a, ha, rfl, rfl, active, after⟩ := unassign_after h reliable ok
  obtain ⟨role, hrole⟩ : ∃ role, w.storedRole a.roleId = some role := by
    apply Option.ne_none_iff_exists'.mp
    intro hnone
    have := h.sound.store.rows_role a ha
    rw [(shown_none_iff _ _).mp hnone] at this
    simp at this
  have known : w.nextId ∉ (RoleEvent.userRoleUnassigned a).ids :=
    fresh (.userRoleAssigned a) (h.sound.rows_known a ha)
  have hroles := h.follows.roles.leads a.roleId
  rw [hrole] at hroles
  have hgone := h.sound.store.findAssignment_deleteAssignment ha
  have hrows : RowNews.Leads none (pairQueue queue a.userId a.roleId) (some a) := by
    apply pairs_lead h ha
    obtain ⟨e, he, hg⟩ := waits
    rw [after.synced.waiting] at he
    rcases List.mem_append.mp he with he | he
    · exact ⟨e, he, hg⟩
    · rw [List.mem_singleton.mp he] at hg
      simp [RoleEvent.grants] at hg
  obtain ⟨x, run, works, events, roles, read, r, hr, hid, hdef⟩ :=
    after.replays reliable fresh known lasting active hroles (hgone ▸ hrows)
  exact ⟨x, run, works, events, roles, read, r, hr, hid, hrole.trans (congrArg some hdef.symm)⟩

def CreatedFirst (w : World κ) (queue : List RoleEvent) : Prop :=
  ∀ before created after, queue = before ++ .roleCreated created :: after →
    ∀ a, .userRoleAssigned a ∈ w.effects.events → a.roleId = created.id →
      .userRoleAssigned a ∈ after

theorem CreatedFirst.turn (o : w.CreatedFirst queue) (h : w.Synced party queue)
    (turn : Turn party w v) (hv : v.Synced party rest) : v.CreatedFirst rest := by
  intro before created after hrest b hb hid
  cases turn with
  | @announces e s sender change =>
    obtain rfl : queue ++ [e] = rest := (h.announce_waiting sender e s).symm.trans hv.waiting
    rcases List.eq_nil_or_concat after with rfl | ⟨after, f, rfl⟩
    · -- The creation is the change itself, and its role was never spoken of.
      obtain rfl : e = .roleCreated created := by simpa using (List.append_inj' hrest rfl).2
      cases change with
      | created fresh ok =>
        rcases List.mem_append.mp hb with hb | hb
        · exact absurd (by simp [RoleEvent.ids, hid]) (fresh _ hb)
        · simp at hb
    · obtain ⟨hqueue, hf⟩ : queue = before ++ .roleCreated created :: after ∧ [e] = [f] :=
        List.append_inj' (by simpa using hrest) rfl
      rw [List.concat_eq_append]
      rcases List.mem_append.mp hb with hb | hb
      · exact List.mem_append_left _ (o _ _ _ hqueue b hb hid)
      · exact List.mem_append_right _ (hf ▸ hb)
  | delivers =>
    rcases h.deliver_cases with ⟨rfl, he⟩ | ⟨e, queue, rfl, hfeed, -, -⟩
    · obtain rfl : rest = [] := by rw [← hv.waiting, he, h.waiting]
      simp at hrest
    · obtain rfl : rest = queue := hv.waiting.symm.trans hfeed
      rw [(Quiet.deliver w party).events] at hb
      exact o (e :: before) created after (by simp [hrest]) b hb hid
  | rests stored sound holds roles lists =>
    obtain rfl : rest = queue := hv.waiting.symm.trans (Feed.waiting_of_holds (holds _ h.holds))
    exact o _ _ _ hrest b (stored.events ▸ hb) hid

theorem CreatedFirst.turns (o : w.CreatedFirst queue) (h : w.Synced party queue)
    (turns : Turns party w v) : ∃ rest, v.Synced party rest ∧ v.CreatedFirst rest := by
  induction turns with
  | refl => exact ⟨queue, h, o⟩
  | tail _ turn ih =>
    obtain ⟨rest, hx, ox⟩ := ih
    obtain ⟨rest', hv⟩ := hx.turn turn
    exact ⟨rest', hv, ox.turn hx turn hv⟩

theorem Runs.createdFirst {start : World κ} (run : Runs start w) (begins : start.Begins party) :
    ∃ queue, w.Synced party queue ∧ w.CreatedFirst queue :=
  CreatedFirst.turns (by simp [CreatedFirst]) begins.synced (run.turns begins.synced)

/-- A deletion is undone while the creation of the role waits and a user still holds it. -/
theorem deleteRole_replays (h : w.Synced party queue) (o : w.CreatedFirst queue)
    (reliable : w.Reliable) (fresh : w.Unused w.nextId) (lasting : w.Lasting party)
    {actor : Option Actor} (ok : w.perform party (Service.deleteRole id actor) = (.ok (), v))
    (waits : ∃ e ∈ v.feed.waiting party, e.creates id = true) (ha : a ∈ w.store.rows)
    (held : a.roleId = id) (active : a.isActiveAt w.now = true) :
    ∃ x, Runs v x ∧ x.Reliable ∧ x.effects.events = v.effects.events ∧
      ∃ roles, (x.perform party (Service.userRoles a.userId)).1 = .ok roles ∧
        ∃ r ∈ roles, r.id = id := by
  subst held
  obtain ⟨role, s, hid, hf, hdelete, after⟩ := deleteRole_after h reliable ok
  obtain ⟨created, hcreated, hwaits⟩ : ∃ created, created.id = a.roleId ∧
      .roleCreated created ∈ queue := by
    obtain ⟨e, he, hc⟩ := waits
    rw [after.synced.waiting] at he
    cases e with
    | roleCreated created =>
      exact ⟨created, by simpa [RoleEvent.creates] using hc, by simpa using he⟩
    | _ => simp [RoleEvent.creates] at hc
  have granted : .userRoleAssigned a ∈ queue := by
    obtain ⟨before, behind, rfl⟩ := List.append_of_mem hwaits
    have := o before created behind rfl a (h.sound.rows_known a ha) hcreated.symm
    simp [this]
  have hrows := pairs_lead h ha ⟨_, granted, by simp [RoleEvent.grants]⟩
  have hstored : w.storedRole a.roleId = some role.definition := by
    rw [storedRole, shown_eq_findRole, hf]
    rfl
  have hroles := roles_lead h hstored hwaits hcreated
  have known : w.nextId ∉ (RoleEvent.roleDeleted role).ids := by
    obtain ⟨e, he, hids⟩ := h.sound.roles_known role (Store.findRole_mem hf)
    intro hnext
    have hnext : w.nextId = role.id.uuid := by simpa [RoleEvent.ids] using hnext
    exact fresh e he (hnext ▸ hids)
  have gone := Store.findAssignment_deleteRole hdelete a.userId
  have unlisted : RoleSnapshot.shown a.roleId s.roles = none :=
    (shown_none_iff s _).mpr (Store.hasRole_deleteRole hdelete)
  obtain ⟨x, run, works, events, roles, read, r, hr, hid, -⟩ :=
    after.replays reliable fresh known lasting active (unlisted ▸ hroles) (gone ▸ hrows)
  exact ⟨x, run, works, events, roles, read, r, hr, hid⟩

theorem isConditional_definition (role : Role) :
    role.definition.isConditional = role.isConditional := rfl

/-- Until the pair is granted again, no run leads to a read in which the party gives the
role to the user, unless the role has become conditional. -/
def Withheld (w : World κ) (party : κ) (user : UserId) (id : RoleId) : Prop :=
  ∀ x roles, Runs w x → x.Reliable →
    (∀ e ∈ x.effects.events, e.grants user id = true → e ∈ w.effects.events) →
    (x.perform party (Service.userRoles user)).1 = .ok roles →
    ∀ role ∈ roles, role.id = id → role.isConditional = true

def Erased (w : World κ) (party : κ) (id : RoleId) : Prop :=
  ∀ x user roles, Runs w x → x.Reliable →
    (x.perform party (Service.userRoles user)).1 = .ok roles → ∀ role ∈ roles, role.id ≠ id

/-- A party reads its own revocation of a manual role exactly if no grant of the pair
waits for it, and its own deletion of a role if no creation of the role waits. If one
does, a user who held the role until then can read it again. -/
theorem own_writes_read {w₀ w v : World κ} {party : κ} {actor : Option Actor} {user : UserId}
    {id : RoleId} (start : w₀.Begins party) (run : Runs w₀ w) (reliable : w.Reliable)
    (fresh : w.Unused w.nextId) :
    (w.perform party (Service.unassign user id actor) = (.ok (), v) →
      ((∀ e ∈ v.feed.waiting party, e.grants user id = false) → v.Withheld party user id) ∧
      (w.Lasting party → (∀ role ∈ w.store.findRole id, role.isConditional = false) →
        (∃ e ∈ v.feed.waiting party, e.grants user id = true) → ¬ v.Withheld party user id)) ∧
    (w.perform party (Service.deleteRole id actor) = (.ok (), v) →
      ((∀ e ∈ v.feed.waiting party, e.creates id = false) → v.Erased party id) ∧
      (w.Lasting party → (∃ a ∈ w.store.rows, a.roleId = id ∧ a.isActiveAt w.now = true) →
        (∃ e ∈ v.feed.waiting party, e.creates id = true) → ¬ v.Erased party id)) := by
  obtain ⟨queue, h, first⟩ := run.createdFirst start
  refine ⟨fun ok => ⟨fun none_waits => ?_, fun lasting manual waits withheld => ?_⟩,
    fun ok => ⟨fun none_waits => ?_, fun lasting held waits erased => ?_⟩⟩
  · obtain ⟨a, -, -, -, -, after⟩ := unassign_after h reliable ok
    intro x roles later works noGrant read role hr hid
    have turns := later.turns after.synced
    have lapsed := (unassign_lapses h reliable ok none_waits).turns after.synced turns noGrant
    obtain ⟨_, hx⟩ := after.synced.turns turns
    exact lapsed.read hx works (Prod.ext read rfl) hr hid
  · obtain ⟨x, later, works, events, roles, read, r, hr, hid, hdef⟩ :=
      unassign_replays h reliable fresh lasting ok waits
    have conditional := withheld x roles later works (fun e he _ => events ▸ he) read r hr hid
    obtain ⟨stored, hstored, hd⟩ := Option.map_eq_some_iff.mp hdef
    have hmanual := manual stored hstored
    rw [← isConditional_definition, hd, isConditional_definition, conditional] at hmanual
    simp at hmanual
  · obtain ⟨role, s, -, -, -, after⟩ := deleteRole_after h reliable ok
    intro x user roles later works read role hr
    have turns := later.turns after.synced
    have gone := (deleteRole_gone h reliable ok none_waits).turns after.synced turns
    obtain ⟨_, hx⟩ := after.synced.turns turns
    exact gone.read hx works (Prod.ext read rfl) hr
  · obtain ⟨a, ha, hid, active⟩ := held
    obtain ⟨x, later, works, -, roles, read, r, hr, hr'⟩ :=
      deleteRole_replays h first reliable fresh lasting ok waits ha hid active
    exact erased x a.userId roles later works read r hr hr'

/-- A service that took its own grant off the queue before it revoked the row reads the
revocation; one that did not can read the role again. -/
theorem own_writes_read_in_time :
    let user : UserId := ⟨.generated 0⟩
    let role : RoleId := ⟨.generated 1⟩
    let w₀ : World Party := { startingAt default 0 with feed := Feed.empty.subscribe .main }
    let w₁ := w₀.ask .main (.generated 1) (Service.createRole (.manual "r") none)
    let w₂ := w₁.ask .main (.generated 2) (Service.assign user role none none)
    let early : World Party := { w₂ with nextId := .generated 3 }
    let late : World Party := (early.deliverNext .main).deliverNext .main
    let after := fun w : World Party => (w.perform .main (Service.unassign user role none)).2
    (w₀.Begins .main ∧ Runs w₀ early ∧ Runs early late) ∧
      (after late).Withheld .main user role ∧ ¬ (after early).Withheld .main user role := by
  intro user role w₀ w₁ w₂ early late after
  have start : w₀.Begins .main := .of_empty rfl rfl (Feed.holds_subscribe _ _) rfl
  have run₀ : Runs w₀ w₀ := .refl
  have run₁ : Runs w₀ w₁ := run₀.ask .main (.createRole _ none) (reliable_of_failing rfl)
    (by decide)
  have run₂ : Runs w₀ w₂ := run₁.ask .main (.assign user role none none)
    (reliable_of_failing (by decide +kernel)) (by decide +kernel)
  have run : Runs w₀ early := run₂.tail (.draws w₂ _)
  have later : Runs early late := .tail (.single (.delivers Party.main)) (.delivers Party.main)
  have ok (w : World Party) (h : (w.perform .main (Service.unassign user role none)).1 = .ok ()) :
      w.perform .main (Service.unassign user role none) = (.ok (), after w) := Prod.ext h rfl
  refine ⟨⟨start, run, later⟩, ?_, ?_⟩
  · refine ((own_writes_read start (run.trans later) (reliable_of_failing (by decide +kernel))
      (by decide +kernel)).1 (ok late (by decide +kernel))).1 (by decide +kernel)
  · refine ((own_writes_read start run (reliable_of_failing (by decide +kernel))
      (by decide +kernel)).1 (ok early (by decide +kernel))).2 (by decide +kernel)
      (by decide +kernel) (by decide +kernel)

/-- A user reads a manual role that was revoked, and that nobody assigned since: its
grant was applied when it was made and arrives once more. -/
theorem revoked_role_read_again :
    let user : UserId := ⟨.generated 0⟩
    let role : RoleId := ⟨.generated 1⟩
    let w₀ : World Party := { startingAt default 0 with feed := Feed.empty.subscribe .main }
    let w₁ := w₀.ask .main (.generated 1) (Service.createRole (.manual "r") none)
    let w₂ := w₁.ask .main (.generated 0) (Service.userRoles user)
    let w₃ := w₂.ask .main (.generated 2) (Service.assign user role none none)
    let v := w₃.ask .main (.generated 3) (Service.unassign user role none)
    let x := (v.deliverNext .main).deliverNext .main
    (w₀.Begins .main ∧ Runs w₀ v ∧ Runs v x ∧ x.Reliable) ∧
      v.effects.events.getLast?.map (·.name) = some "userRoleUnassigned" ∧
      x.effects.events = v.effects.events ∧
      (x.perform .main (Service.userRoles user)).1.toOption.map
        (List.map fun r => (r.id, r.target)) = some [(role, .manual)] := by
  intro user role w₀ w₁ w₂ w₃ v x
  have start : w₀.Begins .main := .of_empty rfl rfl (Feed.holds_subscribe _ _) rfl
  have run₀ : Runs w₀ w₀ := .refl
  have run₁ : Runs w₀ w₁ := run₀.ask .main (.createRole _ none) (reliable_of_failing rfl)
    (by decide)
  have run₂ : Runs w₀ w₂ := run₁.ask .main (.reads (.userRoles user))
    (reliable_of_failing (by decide +kernel)) (by decide +kernel)
  have run₃ : Runs w₀ w₃ := run₂.ask .main (.assign user role none none)
    (reliable_of_failing (by decide +kernel)) (by decide +kernel)
  have run : Runs w₀ v := run₃.ask .main (.unassign user role none)
    (reliable_of_failing (by decide +kernel)) (by decide +kernel)
  have later : Runs v x := .tail (.single (.delivers Party.main)) (.delivers Party.main)
  exact ⟨⟨start, run, later, reliable_of_failing (by decide +kernel)⟩, by decide +kernel,
    by decide +kernel, by decide +kernel⟩

end World

end Entitlement
