import Entitlement.Proofs.Crowd.Editing
import Entitlement.Proofs.Delivery.History
import Entitlement.Proofs.Sync.Convergence

/-!
# Deliveries in any order

A cache that was loaded before a history hears of all its events, in any order and any
number of times. It agrees with the store in the end exactly if the events arrived in
time: a removal takes back only what has arrived before it, and a change of a role that
has not arrived yet is lost.
-/

set_option autoImplicit false

namespace Entitlement

def Cache.hear (heard : List RoleEvent) (cache : Cache) : Cache :=
  heard.foldl (fun cache e => cache.apply e) cache

theorem RoleSnapshot.shown_hear (heard : List RoleEvent) (id : RoleId) (roles : List Role) :
    shown id (heard.foldl (fun roles e => patch e roles) roles) =
      RoleNews.after (shown id roles) (World.roleQueue heard id) := by
  induction heard generalizing roles with
  | nil => rfl
  | cons e rest ih =>
    rw [List.foldl_cons, ih]
    cases hn : e.newsOf id with
    | none =>
      have same : World.roleQueue (e :: rest) id = World.roleQueue rest id :=
        List.filterMap_cons_none hn
      rw [shown_patch_other hn, same]
    | some n =>
      have first : World.roleQueue (e :: rest) id = n :: World.roleQueue rest id :=
        List.filterMap_cons_some hn
      rw [shown_patch hn, first]
      rfl

theorem RoleSnapshot.hear_nodup (heard : List RoleEvent) {roles : List Role}
    (h : (roles.map (·.id)).Nodup) :
    ((heard.foldl (fun roles e => patch e roles) roles).map (·.id)).Nodup := by
  induction heard generalizing roles with
  | nil => exact h
  | cons e rest ih => exact ih (patch_nodup h)

theorem Cache.hear_entry (heard : List RoleEvent) (cache : Cache) :
    (cache.hear heard).roles.entry = cache.roles.entry.map fun c =>
      { c with value := heard.foldl (fun roles e => RoleSnapshot.patch e roles) c.value } := by
  induction heard generalizing cache with
  | nil => simp [hear]
  | cons e rest ih =>
    show ((cache.apply e).hear rest).roles.entry = _
    rw [ih, apply_entry, Option.map_map]
    rfl

namespace UserLists

def told (user : UserId) (rows : List Assignment) (e : RoleEvent) : List Assignment :=
  match e.row? with
  | some a => if a.userId = user then patch e rows else rows
  | none => rows

theorem told_patched (user : UserId) (rows : List Assignment) (e : RoleEvent) :
    Patched e user rows (told user rows e) := by
  cases he : e.row? with
  | none =>
    refine .inl ⟨?_, fun a ha => by simp [he] at ha⟩
    rw [told, he]
    cases e <;> first | rfl | cases he
  | some a =>
    by_cases hu : a.userId = user
    · refine .inl ⟨by rw [told, he]; exact if_pos hu, fun b hb => ?_⟩
      obtain rfl := Option.some.inj (he.symm.trans hb)
      exact hu
    · exact .inr ⟨by rw [told, he]; exact if_neg hu, a, he, hu⟩

end UserLists

theorem Cache.apply_entries (cache : Cache) (e : RoleEvent) :
    (cache.apply e).lists.entries = cache.lists.entries.map fun entry =>
      (entry.1, { entry.2 with value := UserLists.told entry.1 entry.2.value e }) := by
  have about (a : Assignment) (ha : e.row? = some a) :
      (cache.lists.apply e a.userId).entries = cache.lists.entries.map fun entry =>
        (entry.1, { entry.2 with value := UserLists.told entry.1 entry.2.value e }) := by
    refine List.map_congr_left fun entry _ => ?_
    by_cases hu : entry.1 = a.userId
    · simp [UserLists.told, ha, hu]
    · simp [UserLists.told, ha, hu, Ne.symm hu]
  cases e with
  | userRoleAssigned a => exact about a rfl
  | userRoleUnassigned a => exact about a rfl
  | _ => exact (List.map_id' _).symm

theorem Cache.hear_entries (heard : List RoleEvent) (cache : Cache) :
    (cache.hear heard).lists.entries = cache.lists.entries.map fun entry =>
      (entry.1, { entry.2 with value := heard.foldl (UserLists.told entry.1) entry.2.value }) := by
  induction heard generalizing cache with
  | nil => exact (List.map_id' _).symm
  | cons e rest ih =>
    show ((cache.apply e).hear rest).lists.entries = _
    rw [ih, apply_entries, List.map_map]
    rfl

structure Cache.Loaded (s : Store) (cache : Cache) : Prop where
  snapshot : ∃ c, cache.roles.entry = some c ∧ c.value = s.roles
  lists : ∀ user c, (user, c) ∈ cache.lists.entries → c.value = s.assignmentsOfUser user

namespace World

variable {κ : Type} {w₀ w : World κ} {es heard : List RoleEvent} {cache : Cache} {last : Instant}
  {user : UserId} {rows : List Assignment}

/-- The events that a cache hears of arrive in time, for each role, and for each pair of a user
whose list it has and a role that is stored in the end. -/
structure InTime (w₀ w : World κ) (cache : Cache) (heard : List RoleEvent) : Prop where
  roles : ∀ id, RoleNews.InTime (w₀.storedRole id) (w.storedRole id) (roleQueue heard id)
  rows : ∀ user c, (user, c) ∈ cache.lists.entries → ∀ id, w.store.hasRole id = true →
    RowNews.InTime (w₀.store.findAssignment user id) (w.store.findAssignment user id)
      (pairQueue heard user id)

/-- What is heard of a pair is applied to what is shown of it. -/
theorem Sound.shown_told (hw : w.Sound) (known : ∀ e ∈ heard, e ∈ w.effects.events)
    (sound : UserLists.Sound user rows)
    (hrows : ∀ a ∈ rows, .userRoleAssigned a ∈ w.effects.events) :
    UserLists.Sound user (heard.foldl (UserLists.told user) rows) ∧
      ∀ id, UserLists.shown id (heard.foldl (UserLists.told user) rows) =
        RowNews.after (UserLists.shown id rows) (pairQueue heard user id) := by
  induction heard generalizing rows with
  | nil => exact ⟨sound, fun _ => rfl⟩
  | cons e rest ih =>
    obtain ⟨he, hrest⟩ := List.forall_mem_cons.mp known
    have hp := UserLists.told_patched user rows e
    have hid (a : Assignment) (ha : e.row? = some a) (x : Assignment) (hx : x ∈ rows) :
        x.id = a.id → x = a := hw.row_known he ha (hrows x hx)
    obtain ⟨sound', shown⟩ := ih hrest (hp.sound sound hid) fun a ha => by
      rcases hp.mem ha with ha | rfl
      · exact hrows a ha
      · exact he
    refine ⟨sound', fun id => ?_⟩
    rw [List.foldl_cons, shown]
    cases hn : e.newsOfPair user id with
    | none =>
      have same : pairQueue (e :: rest) user id = pairQueue rest user id :=
        List.filterMap_cons_none hn
      rw [hp.shown_kept sound hid hn, same]
    | some n =>
      have first : pairQueue (e :: rest) user id = n :: pairQueue rest user id :=
        List.filterMap_cons_some hn
      rw [hp.shown_news sound hid hn, first]
      rfl

section

variable (since : Since w₀ w es) (past : w₀.Past) (timed : Timed w₀.now last es) (sound : w₀.Sound)
  (all : ∀ e, e ∈ heard ↔ e ∈ es)

include since past timed sound all

/-- A snapshot that was stored at first agrees with the store exactly if its news is in time. -/
theorem snapshot_settles_iff :
    ((heard.foldl (fun roles e => RoleSnapshot.patch e roles) w₀.store.roles).map
        Role.definition).Perm (w.store.roles.map Role.definition) ↔
      ∀ id, RoleNews.InTime (w₀.storedRole id) (w.storedRole id) (roleQueue heard id) := by
  rw [definitions_perm_iff since.sound (RoleSnapshot.hear_nodup heard sound.store.roles_nodup)]
  refine forall_congr' fun id => ?_
  rw [RoleSnapshot.shown_hear]
  exact (since.roles id).settles_iff (Since.records_ordered past timed id)
    (by simp [List.mem_filterMap, all])

/-- The rows of a user that were stored at first agree with the store exactly if the news of all
pairs is in time. -/
theorem rows_settle_iff (user : UserId) :
    ((heard.foldl (UserLists.told user) (w₀.store.assignmentsOfUser user)).filter
        fun a => w.store.hasRole a.roleId).Perm (w.store.rows.filter fun a => a.userId = user) ↔
      ∀ id, w.store.hasRole id = true →
        RowNews.InTime (w₀.store.findAssignment user id) (w.store.findAssignment user id)
          (pairQueue heard user id) := by
  have known (e : RoleEvent) (he : e ∈ heard) : e ∈ w.effects.events := since.known ((all e).mp he)
  have before (a : Assignment) (ha : a ∈ w₀.store.assignmentsOfUser user) :
      .userRoleAssigned a ∈ w.effects.events := by
    rw [since.events]
    exact List.mem_append_left _ (sound.rows_known a (Store.mem_assignmentsOfUser.mp ha).1)
  obtain ⟨listed, shown⟩ := since.sound.shown_told known
    (UserLists.sound_of_store sound.store.distinct user) before
  rw [rows_perm_iff since.sound listed]
  refine forall₂_congr fun id hid => ?_
  rw [shown, shown_assignmentsOfUser sound]
  obtain ⟨ordered, granted⟩ := since.grants_ordered sound past timed user id
  exact (since.rows user id hid).settles_iff ordered
    (fun a ha b hb => since.sound.granted_once a b (granted a ha) (granted b hb))
    (by simp [List.mem_filterMap, all])

end

variable [DecidableEq κ]

/-- Once a cache that was loaded before a history has heard of each of its events at least once, in
whatever order, it agrees with the store exactly if the events arrived in time. -/
theorem deliveries_settle_iff (sound : w₀.Sound) (past : w₀.Past) (history : History w₀ last w)
    (loaded : cache.Loaded w₀.store) (events : w.effects.events = w₀.effects.events ++ es)
    (all : ∀ e, e ∈ heard ↔ e ∈ es) : w.Agrees (cache.hear heard) ↔ InTime w₀ w cache heard := by
  obtain ⟨told, since, timed⟩ := history.since sound past
  obtain rfl : told = es := List.append_cancel_left (since.events.symm.trans events)
  have snapshot := snapshot_settles_iff since past timed sound all
  have rows := rows_settle_iff since past timed sound all
  obtain ⟨c, hc, hvalue⟩ := loaded.snapshot
  have entry : (cache.hear heard).roles.entry =
      some { c with value := heard.foldl (fun roles e => RoleSnapshot.patch e roles) c.value } := by
    rw [Cache.hear_entry, hc]
    rfl
  constructor
  · intro agrees
    refine ⟨snapshot.mp (hvalue ▸ agrees.snapshot _ entry), fun user d hd => (rows user).mp ?_⟩
    rw [← loaded.lists user d hd]
    have listed := List.mem_map_of_mem (f := fun entry : UserId × Cached (List Assignment) =>
      (entry.1, { entry.2 with value := heard.foldl (UserLists.told entry.1) entry.2.value })) hd
    exact agrees.lists user _ (Cache.hear_entries heard cache ▸ listed)
  · intro inTime
    refine ⟨fun d hd => ?_, fun user d hd => ?_⟩
    · obtain rfl := Option.some.inj (entry.symm.trans hd)
      exact hvalue ▸ snapshot.mpr inTime.roles
    · rw [Cache.hear_entries] at hd
      obtain ⟨⟨u, d₀⟩, hd₀, e⟩ := List.mem_map.mp hd
      obtain ⟨rfl, rfl⟩ := Prod.mk.inj e
      rw [loaded.lists u d₀ hd₀]
      exact (rows u).mpr (inTime.rows u d₀ hd₀)

def askAt (party : κ) (now : Instant) (nextId : Uuid) (q : Request) (w : World κ) : World κ :=
  (perform party q.service { w with now, nextId }).2

theorem History.askAt (history : History w₀ last w) (party : κ) {now : Instant} {nextId : Uuid}
    {q : Request} (edit : q.IsEdit) (later : last < now) (reliable : w.Reliable)
    (fresh : w.Unused nextId) : History w₀ now (w.askAt party now nextId q) :=
  History.edits (w := { w with now, nextId }) (history.rests rfl rfl) party q edit later reliable
    fresh

/-- A role is created and changed, and assigned, taken away and assigned again. A cache hears of it
all backwards, and of the role once more in order. -/
theorem deliveries_settle_iff_backwards :
    let role : RoleId := ⟨.generated 0⟩
    let user : UserId := ⟨.generated 9⟩
    let w₀ : World Party := .startingAt ⟨0, 0⟩ 0
    let w₁ := w₀.askAt .main ⟨1, 0⟩ role.uuid (.createRole (.manual "r") none)
    let w₂ := w₁.askAt .peer ⟨2, 0⟩ (.generated 1)
      (.updateRole role { RoleEdit.nothing with name := some "s" } none)
    let w₃ := w₂.askAt .main ⟨3, 0⟩ (.generated 2) (.assign user role none none)
    let w₄ := w₃.askAt .peer ⟨4, 0⟩ (.generated 3) (.unassign user role none)
    let w := w₄.askAt .main ⟨5, 0⟩ (.generated 4) (.assign user role none none)
    let cache : Cache := ⟨⟨some ⟨[], 1⟩, 0⟩, ⟨[(user, ⟨[], 1⟩)], 0⟩⟩
    let heard := w.effects.events.reverse ++ w.effects.events.take 2
    (w₀.Sound ∧ w₀.Past ∧ History w₀ ⟨5, 0⟩ w ∧ cache.Loaded w₀.store ∧
      w.effects.events = w₀.effects.events ++ w.effects.events ∧
      ∀ e, e ∈ heard ↔ e ∈ w.effects.events) ∧
      (w.Agrees (cache.hear heard) ↔ InTime w₀ w cache heard) ∧
      (cache.hear heard).roles.entry.map (fun c => c.value.map (·.name.text)) = some ["s"] ∧
      (cache.hear heard).lists.entries.map (fun entry => entry.2.value.map (·.id.uuid)) =
        [[.generated 4]] := by
  intro role user w₀ w₁ w₂ w₃ w₄ w cache heard
  have sound : w₀.Sound := sound_of_empty rfl rfl
  have past : w₀.Past := past_of_empty rfl rfl
  have begun : History w₀ w₀.now w₀ := .start
  have created : History w₀ ⟨1, 0⟩ w₁ := begun.askAt .main trivial (by decide +kernel)
    (reliable_of_failing rfl) (by decide +kernel)
  have changed : History w₀ ⟨2, 0⟩ w₂ := created.askAt .peer trivial (by decide)
    (reliable_of_failing (by decide +kernel)) (by decide +kernel)
  have assigned : History w₀ ⟨3, 0⟩ w₃ := changed.askAt .main trivial (by decide)
    (reliable_of_failing (by decide +kernel)) (by decide +kernel)
  have unassigned : History w₀ ⟨4, 0⟩ w₄ := assigned.askAt .peer trivial (by decide)
    (reliable_of_failing (by decide +kernel)) (by decide +kernel)
  have history : History w₀ ⟨5, 0⟩ w := unassigned.askAt .main trivial (by decide)
    (reliable_of_failing (by decide +kernel)) (by decide +kernel)
  have loaded : cache.Loaded w₀.store := by
    refine ⟨⟨_, rfl, rfl⟩, fun user c hc => ?_⟩
    obtain ⟨rfl, rfl⟩ := Prod.mk.inj (List.mem_singleton.mp hc)
    simp [w₀, startingAt, Store.assignmentsOfUser, Store.empty]
  have events : w.effects.events = w₀.effects.events ++ w.effects.events :=
    (List.nil_append _).symm
  have all (e : RoleEvent) : e ∈ heard ↔ e ∈ w.effects.events := by
    rw [List.mem_append, List.mem_reverse]
    exact or_iff_left_of_imp List.mem_of_mem_take
  exact ⟨⟨sound, past, history, loaded, events, all⟩,
    deliveries_settle_iff sound past history loaded events all, by decide +kernel,
    by decide +kernel⟩

/-- A cache that hears of a deletion first and of the creation later shows the role in the end. -/
theorem deleted_role_shown_again :
    let role : RoleId := ⟨.generated 0⟩
    let w₀ : World Party := .startingAt ⟨0, 0⟩ 0
    let w₁ := w₀.askAt .main ⟨1, 0⟩ role.uuid (.createRole (.manual "r") none)
    let w := w₁.askAt .main ⟨2, 0⟩ (.generated 1) (.deleteRole role none)
    let cache : Cache := ⟨⟨some ⟨[], 1⟩, 0⟩, .empty⟩
    let heard := w.effects.events.reverse
    (w₀.Sound ∧ w₀.Past ∧ History w₀ ⟨2, 0⟩ w ∧ cache.Loaded w₀.store ∧
      ∀ e, e ∈ heard ↔ e ∈ w.effects.events) ∧
      w.store.roles = [] ∧ (cache.hear heard).roles.entry.map
        (fun c => c.value.map (·.id)) = some [role] ∧ ¬ w.Agrees (cache.hear heard) := by
  intro role w₀ w₁ w cache heard
  have sound : w₀.Sound := sound_of_empty rfl rfl
  have past : w₀.Past := past_of_empty rfl rfl
  have begun : History w₀ w₀.now w₀ := .start
  have created : History w₀ ⟨1, 0⟩ w₁ := begun.askAt .main trivial (by decide +kernel)
    (reliable_of_failing rfl) (by decide +kernel)
  have history : History w₀ ⟨2, 0⟩ w := created.askAt .main trivial (by decide)
    (reliable_of_failing (by decide +kernel)) (by decide +kernel)
  have loaded : cache.Loaded w₀.store := ⟨⟨_, rfl, rfl⟩, by simp [cache, UserLists.empty]⟩
  have gone : w.store.roles = [] := by decide +kernel
  have shown : (cache.hear heard).roles.entry.map (fun c => c.value.map (·.id)) = some [role] := by
    decide +kernel
  refine ⟨⟨sound, past, history, loaded, by simp [heard]⟩, gone, shown, fun agrees => ?_⟩
  obtain ⟨c, hc, ids⟩ := Option.map_eq_some_iff.mp shown
  have none := agrees.snapshot c hc
  rw [gone, List.map_nil, List.perm_nil, List.map_eq_nil_iff] at none
  simp [none] at ids

end World

end Entitlement
