import Entitlement.Proofs.Sync.Runs

/-!
# What a service reads of its own writes

A service patches its cache when it revokes a row or deletes a role, and every event
comes back to it through its queue. A revocation stays in effect as long as no grant of
the pair was still waiting when it was made, and a deletion as long as the creation of
the role was not: such an event undoes the patch when it is delivered.
-/

set_option autoImplicit false

namespace Entitlement

namespace RoleEvent

def grants (user : UserId) (id : RoleId) : RoleEvent → Bool
  | .userRoleAssigned a => a.userId = user ∧ a.roleId = id
  | _ => false

def creates (id : RoleId) : RoleEvent → Bool
  | .roleCreated role => role.id = id
  | _ => false

variable {user : UserId} {id : RoleId} {e : RoleEvent}

theorem newsOfPair_of_not_grants (h : e.grants user id = false) {n : RowNews}
    (hn : e.newsOfPair user id = some n) : ∃ a, n = .revoked a := by
  cases e with
  | userRoleAssigned a =>
    have hne : ¬ (a.userId = user ∧ a.roleId = id) := by simpa [grants] using h
    rw [newsOfPair, if_neg hne] at hn
    simp at hn
  | userRoleUnassigned a =>
    simp only [newsOfPair, Option.ite_none_right_eq_some, Option.some.injEq] at hn
    exact ⟨a, hn.2.symm⟩
  | _ => simp [newsOfPair] at hn

theorem newsOf_of_not_creates (h : e.creates id = false) {n : RoleNews}
    (hn : e.newsOf id = some n) : n.apply none = none := by
  cases e with
  | roleCreated role =>
    have hne : role.id ≠ id := by simpa [creates] using h
    rw [newsOf, if_neg hne] at hn
    simp at hn
  | roleUpdated role =>
    simp only [newsOf, Option.ite_none_right_eq_some, Option.some.injEq] at hn
    rw [← hn.2]
    rfl
  | roleDeleted role =>
    simp only [newsOf, Option.ite_none_right_eq_some, Option.some.injEq] at hn
    rw [← hn.2]
    rfl
  | _ => simp [newsOf] at hn

end RoleEvent

namespace World

variable {κ : Type} {w v : World κ} {queue : List RoleEvent} {e : RoleEvent} {user : UserId}
  {id : RoleId} {s : Store}

theorem Change.pair_free (h : w.Change e s) (hw : w.Sound)
    (hfree : w.store.findAssignment user id = none) (hg : e.grants user id = false) :
    s.findAssignment user id = none := by
  rw [Store.findAssignment_none] at hfree ⊢
  intro a ha hu hr
  rcases List.mem_append.mp (h.rows_known hw a ha) with hold | hnew
  · cases h with
    | created fresh ok =>
      obtain ⟨-, rfl⟩ := Store.insertRole_ok.mp ok
      exact hfree a ha hu hr
    | updated found later ok =>
      obtain ⟨-, rfl⟩ := Store.updateRole_ok.mp ok
      exact hfree a ha hu hr
    | deleted found ok =>
      obtain ⟨-, rfl⟩ := Store.deleteRole_ok.mp ok
      exact hfree a (List.mem_of_mem_filter ha) hu hr
    | assigned fresh hasRole ok =>
      obtain ⟨-, rfl⟩ := (Store.insertAssignment_ok (hw.new_row fresh)).mp ok
      rcases List.mem_append.mp ha with ha | ha
      · exact hfree a ha hu hr
      · obtain rfl := List.mem_singleton.mp ha
        simp [RoleEvent.grants, hu, hr] at hg
    | unassigned stored => exact hfree a (Store.mem_deleteAssignment.mp ha).1 hu hr
  · obtain rfl := (List.mem_singleton.mp hnew).symm
    simp [RoleEvent.grants, hu, hr] at hg

/-- The row of a grant is new, so its news was never told. -/
theorem Change.grants_new (change : w.Change e s) (hg : e.grants user id = true) :
    e ∉ w.effects.events := by
  intro told
  cases e with
  | userRoleAssigned a => exact change.granted_new rfl told rfl
  | _ => simp [RoleEvent.grants] at hg

/-- An identifier is not drawn twice, so a role that was stored once is not created again. -/
theorem Change.creates_known (change : w.Change e s) (known : ¬ w.Unused id.uuid) :
    e.creates id = false := by
  cases change with
  | @created role s fresh ok =>
    have hne : role.id ≠ id := fun hid => known (hid ▸ fresh)
    simpa [RoleEvent.creates] using hne
  | _ => rfl

variable [DecidableEq κ] {party sender : κ}

theorem Synced.waiting (h : w.Synced party queue) : w.feed.waiting party = queue :=
  Feed.waiting_of_holds h.holds

theorem Synced.deliver_cases (h : w.Synced party queue) :
    (queue = [] ∧ w.deliverNext party = w) ∨ ∃ e rest, queue = e :: rest ∧
      (w.deliverNext party).feed.waiting party = rest ∧
      (w.deliverNext party).caches party = (w.caches party).apply e ∧
      (w.deliverNext party).store = w.store := by
  cases queue with
  | nil => exact .inl ⟨rfl, deliverNext_nil h.holds⟩
  | cons e rest =>
    refine .inr ⟨e, rest, rfl, ?_, ?_, ?_⟩ <;> rw [deliverNext_cons h.holds]
    · exact Feed.waiting_of_holds (Feed.holds_advance h.holds)
    · exact setCache_caches _
    · rfl

theorem Synced.announce_waiting (h : w.Synced party queue) (sender : κ) (e : RoleEvent)
    (s : Store) :
    ((w.setStore s).announce sender e).feed.waiting party = queue ++ [e] :=
  Feed.waiting_of_holds (Feed.holds_publish h.holds e)

theorem Synced.announce_forall {P : RoleEvent → Prop} (h : w.Synced party queue) (sender : κ)
    (s : Store) (waiting : ∀ f ∈ w.feed.waiting party, P f) (announced : P e) :
    ∀ f ∈ ((w.setStore s).announce sender e).feed.waiting party, P f := by
  intro f hf
  rw [h.announce_waiting] at hf
  rcases List.mem_append.mp hf with hf | hf
  · exact waiting f (h.waiting ▸ hf)
  · exact List.mem_singleton.mp hf ▸ announced

theorem Turn.events (turn : Turn party w v) : w.effects.events ⊆ v.effects.events := by
  cases turn with
  | announces sender change => exact List.subset_append_left _ _
  | delivers =>
    rcases w.deliverNext_cases party with he | ⟨e, he⟩ <;> rw [he]
    · intro _ h
      exact h
    · intro _ h
      exact h
  | rests stored _ _ _ _ => exact stored.events ▸ fun _ h => h

structure Lapsed (w : World κ) (party : κ) (user : UserId) (id : RoleId) : Prop where
  stored : w.store.findAssignment user id = none
  shown : ∀ c, (user, c) ∈ (w.caches party).lists.entries → UserLists.shown id c.value = none
  waiting : ∀ e ∈ w.feed.waiting party, e.grants user id = false

/-- An event that grants nothing leaves a list without the role. -/
theorem shown_apply_none (h : w.Synced party queue) (hv : v.Sound)
    (hevents : w.effects.events ⊆ v.effects.events) (he : e ∈ v.effects.events)
    (hg : e.grants user id = false)
    (hshown : ∀ c, (user, c) ∈ (w.caches party).lists.entries → UserLists.shown id c.value = none)
    (c : Cached (List Assignment))
    (hc : (user, c) ∈ ((w.caches party).apply e).lists.entries) :
    UserLists.shown id c.value = none := by
  obtain ⟨d, hd, hp⟩ := Cache.mem_apply_lists hc
  have hl := h.follows.lists user d hd
  have hid (a : Assignment) (ha : e.row? = some a) (x : Assignment) (hx : x ∈ d.value) :
      x.id = a.id → x = a := hv.row_known he ha (hevents (hl.known x hx))
  cases hn : e.newsOfPair user id with
  | none => rw [hp.shown_kept hl.sound hid hn, hshown d hd]
  | some n =>
    obtain ⟨a, rfl⟩ := RoleEvent.newsOfPair_of_not_grants hg hn
    rw [hp.shown_news hl.sound hid hn, hshown d hd]
    rfl

theorem Lapsed.turn (l : w.Lapsed party user id) (h : w.Synced party queue)
    (turn : Turn party w v) (hno : ∀ e ∈ v.effects.events, e.grants user id = true →
      e ∈ w.effects.events) : v.Lapsed party user id := by
  cases turn with
  | @announces e s sender change =>
    have hg : e.grants user id = false := by
      by_contra hg
      rw [Bool.not_eq_false] at hg
      exact change.grants_new hg (hno e (List.mem_append_right _ (List.mem_singleton_self e)) hg)
    have hv : ((w.setStore s).announce sender e).Sound := h.sound.of_change change rfl rfl
    constructor
    · exact change.pair_free h.sound l.stored hg
    · intro c hc
      rcases announce_caches party w sender e s with he | he <;> rw [he] at hc
      · exact l.shown c hc
      · exact shown_apply_none h hv (List.subset_append_left _ _)
          (List.mem_append_right _ (List.mem_singleton_self e)) hg l.shown c hc
    · exact h.announce_forall sender s l.waiting hg
  | delivers =>
    rcases h.deliver_cases with ⟨-, he⟩ | ⟨e, rest, rfl, hfeed, hcache, hstore⟩
    · rwa [he]
    · have hg : e.grants user id = false := l.waiting e (by simp [h.waiting])
      constructor
      · exact hstore ▸ l.stored
      · intro c hc
        rw [hcache] at hc
        exact shown_apply_none h h.sound (fun _ h => h) (h.follows.known e (by simp)) hg l.shown
          c hc
      · intro f hf
        rw [hfeed] at hf
        exact l.waiting f (by simp [h.waiting, hf])
  | rests stored sound holds roles lists =>
    have hv : v.Sound := h.sound.of_stored stored (sound h.sound.store)
    constructor
    · exact (findAssignment_of_rows stored.rows user id).trans l.stored
    · intro c hc
      rcases lists user c hc with hc | hc
      · exact l.shown c hc
      · rw [hc, shown_assignmentsOfUser h.sound, l.stored]
    · rw [Feed.waiting_of_holds (holds queue h.holds), ← h.waiting]
      exact l.waiting

theorem Turns.events (turns : Turns party w v) : w.effects.events ⊆ v.effects.events := by
  induction turns with
  | refl => exact fun _ h => h
  | tail _ turn ih => exact fun _ he => turn.events (ih he)

theorem Lapsed.turns (l : w.Lapsed party user id) (h : w.Synced party queue)
    (turns : Turns party w v) (hno : ∀ e ∈ v.effects.events, e.grants user id = true →
      e ∈ w.effects.events) : v.Lapsed party user id := by
  induction turns with
  | refl => exact l
  | tail before turn ih =>
    obtain ⟨_, hx⟩ := h.turns before
    apply (ih fun e he => hno e (turn.events he)).turn hx turn
    intro e he hg
    exact Turns.events before (hno e he hg)

structure Gone (w : World κ) (party : κ) (id : RoleId) : Prop where
  stored : w.store.hasRole id = false
  known : ¬ w.Unused id.uuid
  shown : ∀ c, (w.caches party).roles.entry = some c → RoleSnapshot.shown id c.value = none
  waiting : ∀ e ∈ w.feed.waiting party, e.creates id = false

theorem Gone.apply_none {cache : Cache} (hg : e.creates id = false)
    (hshown : ∀ c, cache.roles.entry = some c → RoleSnapshot.shown id c.value = none)
    (c : Cached (List Role)) (hc : (cache.apply e).roles.entry = some c) :
    RoleSnapshot.shown id c.value = none := by
  rw [Cache.apply_entry] at hc
  obtain ⟨d, hd, rfl⟩ := Option.map_eq_some_iff.mp hc
  cases hn : e.newsOf id with
  | none => rw [RoleSnapshot.shown_patch_other hn, hshown d hd]
  | some n => rw [RoleSnapshot.shown_patch hn, hshown d hd, RoleEvent.newsOf_of_not_creates hg hn]

theorem Gone.turn (g : w.Gone party id) (h : w.Synced party queue) (turn : Turn party w v) :
    v.Gone party id := by
  have known : ¬ v.Unused id.uuid := fun hv => g.known fun e he => hv e (turn.events he)
  cases turn with
  | @announces e s sender change =>
    have hg : e.creates id = false := change.creates_known g.known
    have hstored : w.storedRole id = none := (shown_none_iff _ _).mpr g.stored
    constructor
    · apply (shown_none_iff s id).mp
      cases hn : e.newsOf id with
      | none => rw [change.role_kept h.sound hn, hstored]
      | some n => rw [(change.role_news hn).2.1, hstored, RoleEvent.newsOf_of_not_creates hg hn]
    · exact known
    · intro c hc
      rcases announce_caches party w sender e s with he | he <;> rw [he] at hc
      · exact g.shown c hc
      · exact Gone.apply_none hg g.shown c hc
    · exact h.announce_forall sender s g.waiting hg
  | delivers =>
    rcases h.deliver_cases with ⟨-, he⟩ | ⟨e, rest, rfl, hfeed, hcache, hstore⟩
    · rwa [he]
    · have hg : e.creates id = false := g.waiting e (by simp [h.waiting])
      constructor
      · exact hstore ▸ g.stored
      · exact known
      · intro c hc
        rw [hcache] at hc
        exact Gone.apply_none hg g.shown c hc
      · intro f hf
        rw [hfeed] at hf
        exact g.waiting f (by simp [h.waiting, hf])
  | rests stored sound holds roles lists =>
    constructor
    · exact (stored.hasRole id).trans g.stored
    · exact known
    · intro c hc
      rcases roles c hc with hc | hc
      · exact g.shown c hc
      · rw [hc, shown_none_iff, g.stored]
    · rw [Feed.waiting_of_holds (holds queue h.holds), ← h.waiting]
      exact g.waiting

theorem Gone.turns (g : w.Gone party id) (h : w.Synced party queue) (turns : Turns party w v) :
    v.Gone party id := by
  induction turns with
  | refl => exact g
  | tail before turn ih =>
    obtain ⟨_, hx⟩ := h.turns before
    exact ih.turn hx turn

theorem Runs.turns (run : Runs w v) (h : w.Synced party queue) : Turns party w v := by
  induction run with
  | refl => exact .refl
  | tail _ step ih =>
    obtain ⟨_, hx⟩ := h.turns ih
    exact ih.trans (step.turns hx.sound)

/-- A lapsed pair gives its user no record of the role, unless a condition does. -/
theorem Lapsed.read (l : w.Lapsed party user id) (h : w.Synced party queue) (hw : w.Reliable)
    {roles : List Role} (read : w.perform party (Service.userRoles user) = (.ok roles, v))
    {role : Role} (hr : role ∈ roles) (hid : role.id = id) : role.isConditional = true := by
  obtain ⟨x, snapshot, list, moves, -, hlist, hevents, -, resolves⟩ :=
    perform_resolveRoles (k := party) hw user w.now fun _ => true
  rw [← perform_userRoles, read] at resolves
  have hx := l.turns h moves.turns fun e he _ => hevents ▸ he
  rcases ((resolves roles rfl).made role hr).2 with hc | ⟨a, ha, hrole, -⟩
  · exact hc
  · exact absurd (hrole.trans hid) (UserLists.shown_none.mp (hx.shown list hlist) a ha)

theorem Gone.read (g : w.Gone party id) (h : w.Synced party queue) (hw : w.Reliable)
    {roles : List Role} (read : w.perform party (Service.userRoles user) = (.ok roles, v))
    {role : Role} (hr : role ∈ roles) : role.id ≠ id := by
  obtain ⟨x, snapshot, list, moves, hsnapshot, -, -, -, resolves⟩ :=
    perform_resolveRoles (k := party) hw user w.now fun _ => true
  rw [← perform_userRoles, read] at resolves
  have hx := g.turns h moves.turns
  exact RoleSnapshot.shown_none.mp (hx.shown snapshot hsnapshot) role
    (List.mem_of_mem_filter ((resolves roles rfl).made role hr).1)

theorem Noted.turn (h : Noted w v) : Turn party w v :=
  (Move.notes h : Move party w v).turn

theorem grants_of_newsOfPair {a : Assignment} (h : e.newsOfPair user id = some (.granted a)) :
    e.grants user id = true := by
  cases hg : e.grants user id with
  | true => rfl
  | false =>
    obtain ⟨b, hb⟩ := RoleEvent.newsOfPair_of_not_grants hg h
    simp at hb

/-- Without a grant in the queue, every list shows what is stored of the pair. -/
theorem Synced.shown_of_no_grant (h : w.Synced party queue) {a : Assignment}
    (ha : a ∈ w.store.rows) (hno : ∀ e ∈ queue, e.grants a.userId a.roleId = false)
    (c : Cached (List Assignment)) (hc : (a.userId, c) ∈ (w.caches party).lists.entries) :
    UserLists.shown a.roleId c.value = some a := by
  have hl := (h.follows.lists a.userId c hc).leads a.roleId (h.sound.store.rows_role a ha)
  rcases hl.ends a (h.sound.store.findAssignment_iff.mpr ⟨ha, rfl, rfl⟩) with ⟨-, hs⟩ | hlast
  · exact hs
  · obtain ⟨e, he, hn⟩ := List.mem_filterMap.mp (List.mem_of_getLast? hlast)
    exact absurd (hno e he) (by simp [grants_of_newsOfPair hn])

theorem unassign_lapses (h : w.Synced party queue) (hw : w.Reliable) {actor : Option Actor}
    (ok : w.perform party (Service.unassign user id actor) = (.ok (), v))
    (hno : ∀ e ∈ v.feed.waiting party, e.grants user id = false) : v.Lapsed party user id := by
  obtain ⟨a, ha, rfl, rfl, -, u, hu, noted⟩ := unassign_ok hw ok
  have change : w.Change (.userRoleUnassigned a) (w.store.deleteAssignment a.id).2 :=
    .unassigned ha
  have hturn : Turn party w u := hu ▸ .announces party change
  obtain ⟨effects, hv, hevents⟩ := noted
  have hfeed : v.feed.waiting party = queue ++ [.userRoleUnassigned a] := by
    rw [hv, ← h.announce_waiting party, ← hu]
    rfl
  have hnews : RoleEvent.newsOfPair a.userId a.roleId (.userRoleUnassigned a) =
      some (.revoked a) := if_pos ⟨rfl, rfl⟩
  have hfound : w.store.findAssignment a.userId a.roleId = some a :=
    h.sound.store.findAssignment_iff.mpr ⟨ha, rfl, rfl⟩
  have hgone : (RowNews.revoked a).apply (some a) = none := by simp [RowNews.apply]
  have lapsed : u.Lapsed party a.userId a.roleId := by
    refine ⟨?_, fun c hc => ?_, fun e he => hno e ?_⟩
    · rw [hu]
      exact (change.pair_news h.sound hnews).2.trans (by rw [hfound, hgone])
    · have hcache : u.caches party = (w.caches party).apply (.userRoleUnassigned a) := by
        rw [hu]
        exact setCache_caches _
      rw [hcache] at hc
      obtain ⟨d, hd, hp⟩ := Cache.mem_apply_lists hc
      have hl := h.follows.lists a.userId d hd
      have hid (b : Assignment) (hb : RoleEvent.row? (.userRoleUnassigned a) = some b)
          (x : Assignment) (hx : x ∈ d.value) : x.id = b.id → x = b := by
        obtain rfl := Option.some.inj hb
        exact h.sound.granted_once x a (hl.known x hx) (h.sound.rows_known a ha)
      rw [hp.shown_news hl.sound hid hnews,
        h.shown_of_no_grant ha (fun e he => hno e ?_) d hd, hgone]
      simp [hfeed, he]
    · rw [hfeed]
      rwa [hu, h.announce_waiting] at he
  obtain ⟨_, hsynced⟩ := h.turn hturn
  have touched : Move party u (u.setStore (u.store.touchRole a.roleId w.now)) :=
    .touches _ (hu ▸ rfl)
  apply lapsed.turns hsynced (.head touched.turn (.single (Noted.turn ⟨effects, hv, hevents⟩)))
  intro e he _
  rw [hv, hevents] at he
  exact he

theorem deleteRole_gone (h : w.Synced party queue) (hw : w.Reliable) {actor : Option Actor}
    (ok : w.perform party (Service.deleteRole id actor) = (.ok (), v))
    (hno : ∀ e ∈ v.feed.waiting party, e.creates id = false) : v.Gone party id := by
  obtain ⟨role, s, hf, hdelete, noted⟩ := deleteRole_ok hw ok
  obtain rfl := Store.findRole_id hf
  have change : w.Change (.roleDeleted role) s := .deleted hf hdelete
  have hturn : Turn party w ((w.setStore s).announce party (.roleDeleted role)) :=
    .announces party change
  have hnews : RoleEvent.newsOf role.id (.roleDeleted role) = some .deleted := if_pos rfl
  obtain ⟨_, hsynced⟩ := h.turn hturn
  have gone : ((w.setStore s).announce party (.roleDeleted role)).Gone party role.id := by
    refine ⟨(shown_none_iff s role.id).mp (change.role_news hnews).2.1, fun hu => ?_,
      fun c hc => ?_, fun e he => hno e ?_⟩
    · exact hu _ (List.mem_append_right _ (List.mem_singleton_self _)) (by simp [RoleEvent.ids])
    · rw [show ((w.setStore s).announce party (.roleDeleted role)).caches party = _ from
        setCache_caches _, Cache.apply_entry] at hc
      obtain ⟨d, hd, rfl⟩ := Option.map_eq_some_iff.mp hc
      exact RoleSnapshot.shown_patch hnews
    · obtain ⟨effects, rfl, -⟩ := noted
      exact he
  exact gone.turn hsynced noted.turn

end World

end Entitlement
