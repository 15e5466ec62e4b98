import Entitlement.Proofs.Sync.Changes
import Entitlement.Proofs.Sync.Queue
import Entitlement.Proofs.World.Reads

/-!
# A subscriber follows the store

For every role, and for every pair of user and stored role, the events that wait for a
party lead from what its cache shows to what is stored. Every move of any party, every
delivery, and whatever empties the cache keeps that.
-/

set_option autoImplicit false

namespace Entitlement

def UserLists.Patched (e : RoleEvent) (user : UserId) (rows after : List Assignment) : Prop :=
  (after = patch e rows ∧ ∀ a, e.row? = some a → a.userId = user) ∨
    (after = rows ∧ ∃ a, e.row? = some a ∧ a.userId ≠ user)

namespace UserLists

variable {e : RoleEvent} {user : UserId} {id : RoleId} {rows : List Assignment}

theorem newsOfPair_of_other_user {a : Assignment} (ha : e.row? = some a) (hu : a.userId ≠ user) :
    e.newsOfPair user id = none := by
  cases e with
  | userRoleAssigned b =>
    obtain rfl := Option.some.inj ha
    simp [RoleEvent.newsOfPair, hu]
  | userRoleUnassigned b =>
    obtain rfl := Option.some.inj ha
    simp [RoleEvent.newsOfPair, hu]
  | _ => rfl

theorem Patched.mem {after : List Assignment} {b : Assignment} (hp : Patched e user rows after)
    (hb : b ∈ after) : b ∈ rows ∨ e = .userRoleAssigned b := by
  rcases hp with ⟨rfl, -⟩ | ⟨rfl, -⟩
  · exact mem_of_mem_patch hb
  · exact .inl hb

section

variable {after : List Assignment} (hp : Patched e user rows after) (hrows : Sound user rows)
  (hid : ∀ a, e.row? = some a → ∀ x ∈ rows, x.id = a.id → x = a)

include hp hrows hid

theorem Patched.sound : Sound user after := by
  rcases hp with ⟨rfl, hu⟩ | ⟨rfl, -⟩
  · exact patch_sound hrows fun a ha => ⟨hu a ha, hid a ha⟩
  · exact hrows

theorem Patched.shown_news {n : RowNews} (hn : e.newsOfPair user id = some n) :
    shown id after = n.apply (shown id rows) := by
  rcases hp with ⟨rfl, hu⟩ | ⟨-, a, ha, hne⟩
  · exact shown_patch hrows (fun a ha => ⟨hu a ha, hid a ha⟩) hn
  · rw [newsOfPair_of_other_user ha hne] at hn
    simp at hn

theorem Patched.shown_kept (hn : e.newsOfPair user id = none) :
    shown id after = shown id rows := by
  rcases hp with ⟨rfl, hu⟩ | ⟨rfl, -⟩
  · exact shown_patch_other hrows (fun a ha => ⟨hu a ha, hid a ha⟩) hn
  · rfl

end

end UserLists

namespace Cache

variable {c : Cache} {event : RoleEvent} {user : UserId} {d : Cached (List Assignment)}

theorem apply_entry : (c.apply event).roles.entry =
    c.roles.entry.map fun s => { s with value := RoleSnapshot.patch event s.value } := by
  cases event with
  | userRoleAssigned a => cases h : c.roles.entry <;> simp [apply, h, RoleSnapshot.patch]
  | userRoleUnassigned a => cases h : c.roles.entry <;> simp [apply, h, RoleSnapshot.patch]
  | _ => rfl

theorem mem_apply_lists (h : (user, d) ∈ (c.apply event).lists.entries) :
    ∃ d₀, (user, d₀) ∈ c.lists.entries ∧ UserLists.Patched event user d₀.value d.value := by
  have patched (a : Assignment) (ha : event.row? = some a)
      (h : (user, d) ∈ (c.lists.apply event a.userId).entries) :
      ∃ d₀, (user, d₀) ∈ c.lists.entries ∧ UserLists.Patched event user d₀.value d.value := by
    obtain ⟨⟨u, d₀⟩, hd, he⟩ := List.mem_map.mp h
    dsimp only at he
    by_cases hu : u = a.userId
    · rw [if_pos hu] at he
      obtain ⟨rfl, rfl⟩ := Prod.mk.inj he
      refine ⟨d₀, hd, .inl ⟨rfl, fun b hb => ?_⟩⟩
      rw [hu, ← Option.some.inj (ha.symm.trans hb)]
    · rw [if_neg hu] at he
      obtain ⟨rfl, rfl⟩ := Prod.mk.inj he
      exact ⟨d₀, hd, .inr ⟨rfl, a, ha, fun e => hu e.symm⟩⟩
  cases event with
  | userRoleAssigned a => exact patched a rfl h
  | userRoleUnassigned a => exact patched a rfl h
  | _ => exact ⟨d, h, .inl ⟨rfl, fun a ha => by simp [RoleEvent.row?] at ha⟩⟩

end Cache

namespace World

variable {κ : Type}

abbrev roleQueue (queue : List RoleEvent) (id : RoleId) : List RoleNews :=
  queue.filterMap (·.newsOf id)

abbrev pairQueue (queue : List RoleEvent) (user : UserId) (id : RoleId) : List RowNews :=
  queue.filterMap (·.newsOfPair user id)

structure ShowsRoles (w : World κ) (queue : List RoleEvent) (roles : List Role) : Prop where
  nodup : (roles.map (·.id)).Nodup
  leads : ∀ id, RoleNews.Leads (RoleSnapshot.shown id roles) (roleQueue queue id)
    (w.storedRole id)

structure ShowsRows (w : World κ) (queue : List RoleEvent) (user : UserId)
    (rows : List Assignment) : Prop where
  sound : UserLists.Sound user rows
  known : ∀ a ∈ rows, .userRoleAssigned a ∈ w.effects.events
  leads : ∀ id, w.store.hasRole id = true → RowNews.Leads (UserLists.shown id rows)
    (pairQueue queue user id) (w.store.findAssignment user id)

/-- The queue leads from what a cache shows, and from what is stored, to what is stored. -/
structure Follows (w : World κ) (cache : Cache) (queue : List RoleEvent) : Prop where
  known : ∀ e ∈ queue, e ∈ w.effects.events
  roles : w.ShowsRoles queue w.store.roles
  rows : ∀ user, w.ShowsRows queue user (w.store.assignmentsOfUser user)
  snapshot : ∀ c, cache.roles.entry = some c → w.ShowsRoles queue c.value
  lists : ∀ user c, (user, c) ∈ cache.lists.entries → w.ShowsRows queue user c.value

variable {w v : World κ} {party : κ} {queue : List RoleEvent} {e : RoleEvent} {s : Store}
  {cache : Cache} {roles : List Role} {rows : List Assignment} {user : UserId} {id : RoleId}

/-- An event that was announced tells its row from all others. -/
theorem Sound.row_known (hw : w.Sound) (he : e ∈ w.effects.events) {a x : Assignment}
    (ha : e.row? = some a) (hx : .userRoleAssigned x ∈ w.effects.events) (hid : x.id = a.id) :
    x = a := by
  cases e with
  | userRoleAssigned b =>
    obtain rfl := Option.some.inj ha
    exact hw.granted_once x b hx he hid
  | userRoleUnassigned b =>
    obtain rfl := Option.some.inj ha
    exact hw.granted_once x b hx (hw.revoked_known b he) hid
  | _ => simp [RoleEvent.row?] at ha

theorem ShowsRoles.deliver (h : w.ShowsRoles (e :: queue) roles) :
    w.ShowsRoles queue (RoleSnapshot.patch e roles) where
  nodup := RoleSnapshot.patch_nodup h.nodup
  leads id := by
    have hl := h.leads id
    cases hn : e.newsOf id with
    | none =>
      rw [RoleSnapshot.shown_patch_other hn]
      rwa [roleQueue, List.filterMap_cons_none hn] at hl
    | some n =>
      rw [RoleSnapshot.shown_patch hn]
      rw [roleQueue, List.filterMap_cons_some hn] at hl
      exact RoleNews.leads_deliver hl

theorem ShowsRoles.publish {after : List Role} (h : w.ShowsRoles queue roles) (hw : w.Sound)
    (known : ∀ f ∈ queue, f ∈ w.effects.events) (change : w.Change e s) (hs : v.store = s)
    (hafter : after = roles ∨ after = RoleSnapshot.patch e roles) :
    v.ShowsRoles (queue ++ [e]) after where
  nodup := by
    rcases hafter with rfl | rfl
    · exact h.nodup
    · exact RoleSnapshot.patch_nodup h.nodup
  leads id := by
    have hl := h.leads id
    rw [storedRole, hs, roleQueue, List.filterMap_append]
    cases hn : e.newsOf id with
    | none =>
      rw [change.role_kept hw hn, List.filterMap_cons_none hn, List.filterMap_nil, List.append_nil]
      rcases hafter with rfl | rfl
      · exact hl
      · rwa [RoleSnapshot.shown_patch_other hn]
    | some n =>
      obtain ⟨fits, hstored, hunused⟩ := change.role_news hn
      rw [hstored, List.filterMap_cons_some hn, List.filterMap_nil]
      apply RoleNews.leads_publish hl fits
      · intro r hr
        exact List.filterMap_eq_nil_iff.mpr fun f hf =>
          newsOf_of_unused (hunused r hr) (known f hf)
      · rcases hafter with rfl | rfl
        · exact .inl rfl
        · exact .inr (RoleSnapshot.shown_patch hn)

theorem ShowsRoles.load (h : w.ShowsRoles queue roles) (hw : w.Sound) :
    w.ShowsRoles queue w.store.roles where
  nodup := hw.store.roles_nodup
  leads id := RoleNews.leads_load (h.leads id)

theorem shown_assignmentsOfUser (hw : w.Sound) (user : UserId) (id : RoleId) :
    UserLists.shown id (w.store.assignmentsOfUser user) = w.store.findAssignment user id := by
  ext a
  rw [(UserLists.sound_of_store hw.store.distinct user).shown_iff, hw.store.findAssignment_iff,
    Store.mem_assignmentsOfUser, and_assoc]

theorem ShowsRows.load (h : w.ShowsRows queue user rows) (hw : w.Sound) :
    w.ShowsRows queue user (w.store.assignmentsOfUser user) where
  sound := UserLists.sound_of_store hw.store.distinct user
  known a ha := hw.rows_known a (Store.mem_assignmentsOfUser.mp ha).1
  leads id hid := by
    rw [shown_assignmentsOfUser hw]
    exact RowNews.leads_load (h.leads id hid)

theorem ShowsRows.deliver {after : List Assignment} (h : w.ShowsRows (e :: queue) user rows)
    (hw : w.Sound) (he : e ∈ w.effects.events) (hp : UserLists.Patched e user rows after) :
    w.ShowsRows queue user after := by
  have hid (a : Assignment) (ha : e.row? = some a) (x : Assignment) (hx : x ∈ rows) :
      x.id = a.id → x = a := hw.row_known he ha (h.known x hx)
  constructor
  · exact hp.sound h.sound hid
  · intro b hb
    rcases hp.mem hb with hb | rfl
    · exact h.known b hb
    · exact he
  · intro id hrole
    have hl := h.leads id hrole
    cases hn : e.newsOfPair user id with
    | none =>
      rw [hp.shown_kept h.sound hid hn]
      rwa [pairQueue, List.filterMap_cons_none hn] at hl
    | some n =>
      rw [hp.shown_news h.sound hid hn]
      rw [pairQueue, List.filterMap_cons_some hn] at hl
      exact RowNews.leads_deliver hl

section

variable {after : List Assignment} (h : w.ShowsRows queue user rows) (hw : w.Sound)
  (change : w.Change e s) (hrole : s.hasRole id = true)
  (kept : e.newsOfPair user id = none → UserLists.shown id after = UserLists.shown id rows)

include h hw change hrole kept

/-- The news of a pair whose role was stored before the change goes to the end of the queue. -/
theorem ShowsRows.leads_known (hold : w.store.hasRole id = true)
    (news : ∀ n, e.newsOfPair user id = some n →
      UserLists.shown id after = UserLists.shown id rows ∨
        UserLists.shown id after = n.apply (UserLists.shown id rows)) :
    RowNews.Leads (UserLists.shown id after) (pairQueue (queue ++ [e]) user id)
      (s.findAssignment user id) := by
  have hl := h.leads id hold
  rw [pairQueue, List.filterMap_append]
  cases hn : e.newsOfPair user id with
  | none =>
    rw [change.pair_kept hw hrole hn, kept hn, List.filterMap_cons_none hn, List.filterMap_nil,
      List.append_nil]
    exact hl
  | some n =>
    obtain ⟨fits, hstored⟩ := change.pair_news hw hn
    rw [hstored, List.filterMap_cons_some hn, List.filterMap_nil]
    exact RowNews.leads_publish hl fits (news n hn)

/-- Nothing was ever said of a role that is new, so none of its pairs is shown or waits. -/
theorem ShowsRows.leads_new (known : ∀ f ∈ queue, f ∈ w.effects.events)
    (hold : w.store.hasRole id = false) :
    RowNews.Leads (UserLists.shown id after) (pairQueue (queue ++ [e]) user id)
      (s.findAssignment user id) := by
  obtain ⟨hunused, hn, hstored⟩ := change.new_role hw hold hrole user
  have hshown : UserLists.shown id rows = none :=
    UserLists.shown_none.mpr fun a ha hr =>
      hunused _ (h.known a ha) (by simp [RoleEvent.ids, hr])
  have hqueue : queue.filterMap (·.newsOfPair user id) = [] :=
    List.filterMap_eq_nil_iff.mpr fun f hf => newsOfPair_of_unused hunused (known f hf)
  rw [pairQueue, List.filterMap_append, hqueue, hstored, kept hn, hshown,
    List.filterMap_cons_none hn, List.filterMap_nil]
  exact RowNews.leads_self

end

theorem ShowsRows.publish {after : List Assignment} (h : w.ShowsRows queue user rows)
    (hw : w.Sound) (known : ∀ f ∈ queue, f ∈ w.effects.events) (change : w.Change e s)
    (hs : v.store = s) (hevents : v.effects.events = w.effects.events ++ [e])
    (hafter : after = rows ∨ UserLists.Patched e user rows after) :
    v.ShowsRows (queue ++ [e]) user after := by
  have hv : v.Sound := hw.of_change change hs hevents
  have he : e ∈ v.effects.events := by simp [hevents]
  have hknown (x : Assignment) (hx : x ∈ rows) : .userRoleAssigned x ∈ v.effects.events := by
    rw [hevents]
    exact List.mem_append_left _ (h.known x hx)
  have hid (a : Assignment) (ha : e.row? = some a) (x : Assignment) (hx : x ∈ rows) :
      x.id = a.id → x = a := hv.row_known he ha (hknown x hx)
  constructor
  · rcases hafter with rfl | hp
    · exact h.sound
    · exact hp.sound h.sound hid
  · intro b hb
    rcases hafter with rfl | hp
    · exact hknown b hb
    · rcases hp.mem hb with hb | rfl
      · exact hknown b hb
      · exact he
  · intro id hrole
    have kept (hn : e.newsOfPair user id = none) :
        UserLists.shown id after = UserLists.shown id rows := by
      rcases hafter with rfl | hp
      · rfl
      · exact hp.shown_kept h.sound hid hn
    rw [hs] at hrole ⊢
    cases hold : w.store.hasRole id with
    | true =>
      apply h.leads_known hw change hrole kept hold
      intro n hn
      rcases hafter with rfl | hp
      · exact .inl rfl
      · exact .inr (hp.shown_news h.sound hid hn)
    | false => exact h.leads_new hw change hrole kept known hold

structure SameStored (w v : World κ) : Prop where
  roles : ∀ id, v.storedRole id = w.storedRole id
  rows : v.store.rows = w.store.rows
  events : v.effects.events = w.effects.events

theorem SameStored.hasRole (h : SameStored w v) (id : RoleId) :
    v.store.hasRole id = w.store.hasRole id := by
  have hiff := shown_none_iff v.store id
  rw [← storedRole, h.roles, storedRole, shown_none_iff] at hiff
  cases hw : w.store.hasRole id <;> cases hv : v.store.hasRole id <;> simp_all

theorem Sound.of_stored (hw : w.Sound) (h : SameStored w v) (hs : v.store.Sound) : v.Sound where
  store := hs
  roles_known role hr := by
    have hrole : w.store.hasRole role.id = true :=
      (h.hasRole role.id).symm.trans (Store.hasRole_iff.mpr ⟨role, hr, rfl⟩)
    obtain ⟨r, hr, hid⟩ := Store.hasRole_iff.mp hrole
    rw [h.events, ← hid]
    exact hw.roles_known r hr
  rows_known := by rw [h.rows, h.events]; exact hw.rows_known
  granted_once := by rw [h.events]; exact hw.granted_once
  revoked_known := by rw [h.events]; exact hw.revoked_known

theorem ShowsRoles.same (h : w.ShowsRoles queue roles) (hv : SameStored w v) :
    v.ShowsRoles queue roles where
  nodup := h.nodup
  leads id := by
    rw [hv.roles]
    exact h.leads id

theorem ShowsRows.same (h : w.ShowsRows queue user rows) (hv : SameStored w v) :
    v.ShowsRows queue user rows where
  sound := h.sound
  known := by
    rw [hv.events]
    exact h.known
  leads id hid := by
    rw [findAssignment_of_rows hv.rows]
    exact h.leads id (hv.hasRole id ▸ hid)

theorem Follows.same (h : w.Follows cache queue) (hv : SameStored w v) (hs : v.Sound) :
    v.Follows cache queue where
  known := by
    rw [hv.events]
    exact h.known
  roles := (h.roles.same hv).load hs
  rows user := ((h.rows user).same hv).load hs
  snapshot c hc := (h.snapshot c hc).same hv
  lists user c hc := (h.lists user c hc).same hv

theorem Follows.recached {next : Cache} (h : w.Follows cache queue)
    (hroles : ∀ c, next.roles.entry = some c →
      cache.roles.entry = some c ∨ c.value = w.store.roles)
    (hlists : ∀ user c, (user, c) ∈ next.lists.entries →
      (user, c) ∈ cache.lists.entries ∨ c.value = w.store.assignmentsOfUser user) :
    w.Follows next queue where
  known := h.known
  roles := h.roles
  rows := h.rows
  snapshot c hc := by
    rcases hroles c hc with hc | hc
    · exact h.snapshot c hc
    · exact hc ▸ h.roles
  lists user c hc := by
    rcases hlists user c hc with hc | hc
    · exact h.lists user c hc
    · exact hc ▸ h.rows user

theorem Follows.deliver (h : w.Follows cache (e :: queue)) (hw : w.Sound) :
    w.Follows (cache.apply e) queue where
  known f hf := h.known f (by simp [hf])
  roles := h.roles.deliver.load hw
  rows user := by
    have he := h.known e (by simp)
    by_cases hu : ∀ a, e.row? = some a → a.userId = user
    · exact ((h.rows user).deliver hw he (.inl ⟨rfl, hu⟩)).load hw
    · push Not at hu
      obtain ⟨a, ha, hne⟩ := hu
      exact ((h.rows user).deliver hw he (.inr ⟨rfl, a, ha, hne⟩)).load hw
  snapshot c hc := by
    rw [Cache.apply_entry] at hc
    obtain ⟨d, hd, rfl⟩ := Option.map_eq_some_iff.mp hc
    exact (h.snapshot d hd).deliver
  lists user c hc := by
    obtain ⟨d, hd, hp⟩ := Cache.mem_apply_lists hc
    exact (h.lists user d hd).deliver hw (h.known e (by simp)) hp

theorem Follows.publish {next : Cache} (h : w.Follows cache queue) (hw : w.Sound)
    (change : w.Change e s) (hs : v.store = s)
    (hevents : v.effects.events = w.effects.events ++ [e])
    (hnext : next = cache ∨ next = cache.apply e) : v.Follows next (queue ++ [e]) := by
  have hv : v.Sound := hw.of_change change hs hevents
  constructor
  · intro f hf
    rw [hevents]
    rcases List.mem_append.mp hf with hf | hf
    · exact List.mem_append_left _ (h.known f hf)
    · exact List.mem_append_right _ hf
  · exact (h.roles.publish hw h.known change hs (.inl rfl)).load hv
  · intro user
    exact ((h.rows user).publish hw h.known change hs hevents (.inl rfl)).load hv
  · intro c hc
    rcases hnext with rfl | rfl
    · exact (h.snapshot c hc).publish hw h.known change hs (.inl rfl)
    · rw [Cache.apply_entry] at hc
      obtain ⟨d, hd, rfl⟩ := Option.map_eq_some_iff.mp hc
      exact (h.snapshot d hd).publish hw h.known change hs (.inr rfl)
  · intro user c hc
    rcases hnext with rfl | rfl
    · exact (h.lists user c hc).publish hw h.known change hs hevents (.inl rfl)
    · obtain ⟨d, hd, hp⟩ := Cache.mem_apply_lists hc
      exact (h.lists user d hd).publish hw h.known change hs hevents (.inr hp)

end World

end Entitlement
