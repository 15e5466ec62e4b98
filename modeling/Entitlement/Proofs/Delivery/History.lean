import Entitlement.Proofs.Delivery.Course
import Entitlement.Proofs.Outage.Edits
import Entitlement.Proofs.Sync.Follows
import Entitlement.Proofs.World.Lifecycle

/-!
# A history of edits

Roles are created, changed and deleted, and assigned and taken away, by any of the services,
each time later than before. What was announced since some moment is then a course of news
for every role and for every pair of a stored role, and each record and each row in it is
later than those before.
-/

set_option autoImplicit false

namespace Entitlement

def RoleEvent.stamp? : RoleEvent → Option Instant
  | .roleCreated role | .roleUpdated role => some role.updatedAt
  | .userRoleAssigned a => some a.createdAt
  | .roleDeleted _ | .userRoleUnassigned _ => none

namespace World

variable {κ : Type} {w₀ w v : World κ} {e : RoleEvent} {s : Store} {es : List RoleEvent}

structure Since (w₀ w : World κ) (es : List RoleEvent) : Prop where
  sound : w.Sound
  events : w.effects.events = w₀.effects.events ++ es
  roles : ∀ id, RoleNews.Course (w₀.storedRole id) (roleQueue es id) (w.storedRole id)
  rows : ∀ user id, w.store.hasRole id = true →
    RowNews.Course (w₀.store.findAssignment user id) (pairQueue es user id)
      (w.store.findAssignment user id)

namespace Since

theorem start (h₀ : w₀.Sound) : Since w₀ w₀ [] where
  sound := h₀
  events := (List.append_nil _).symm
  roles _ := .start
  rows _ _ _ := .start

theorem same (h : Since w₀ w es) (stored : SameStored w v) (sound : v.store.Sound) :
    Since w₀ v es where
  sound := h.sound.of_stored stored sound
  events := stored.events.trans h.events
  roles id := stored.roles id ▸ h.roles id
  rows user id hid := by
    rw [findAssignment_of_rows stored.rows]
    exact h.rows user id (stored.hasRole id ▸ hid)

theorem unused_before (h : Since w₀ w es) {id : Uuid} (unused : w.Unused id) : w₀.Unused id :=
  fun f hf => unused f (h.events ▸ List.mem_append_left _ hf)

theorem known (h : Since w₀ w es) (he : e ∈ es) : e ∈ w.effects.events :=
  h.events ▸ List.mem_append_right _ he

theorem change (h : Since w₀ w es) (h₀ : w₀.Sound) (change : w.Change e s) (hs : v.store = s)
    (hevents : v.effects.events = w.effects.events ++ [e]) : Since w₀ v (es ++ [e]) where
  sound := h.sound.of_change change hs hevents
  events := by rw [hevents, h.events, List.append_assoc]
  roles id := by
    have after : v.storedRole id = RoleSnapshot.shown id s.roles := hs ▸ rfl
    rw [after, roleQueue, List.filterMap_append]
    cases hn : e.newsOf id with
    | none =>
      rw [change.role_kept h.sound hn, List.filterMap_cons_none hn, List.filterMap_nil,
        List.append_nil]
      exact h.roles id
    | some n =>
      obtain ⟨fits, stored, unused⟩ := change.role_news hn
      rw [stored, List.filterMap_cons_some hn, List.filterMap_nil]
      refine (h.roles id).told fits fun r hr => ⟨?_, ?_⟩
      · exact (shown_none_iff _ _).mpr (h₀.new_role (h.unused_before (unused r hr)))
      · exact List.filterMap_eq_nil_iff.mpr fun f hf => newsOf_of_unused (unused r hr) (h.known hf)
  rows user id hid := by
    rw [hs] at hid ⊢
    rw [pairQueue, List.filterMap_append]
    cases hold : w.store.hasRole id with
    | true =>
      cases hn : e.newsOfPair user id with
      | none =>
        rw [change.pair_kept h.sound hid hn, List.filterMap_cons_none hn, List.filterMap_nil,
          List.append_nil]
        exact h.rows user id hold
      | some n =>
        obtain ⟨fits, stored⟩ := change.pair_news h.sound hn
        rw [stored, List.filterMap_cons_some hn, List.filterMap_nil]
        exact (h.rows user id hold).told fits
    | false =>
      -- Nothing was ever said of a role that is new, so none of its pairs has a course yet.
      obtain ⟨unused, hn, stored⟩ := change.new_role h.sound hold hid user
      have before : w₀.store.findAssignment user id = none :=
        Store.findAssignment_none.mpr fun a ha _ hr => h.unused_before unused _
          (h₀.rows_known a ha) (by simp [RoleEvent.ids, hr])
      have silent : es.filterMap (·.newsOfPair user id) = [] :=
        List.filterMap_eq_nil_iff.mpr fun f hf => newsOfPair_of_unused unused (h.known hf)
      rw [silent, before, stored, List.filterMap_cons_none hn, List.filterMap_nil]
      exact .start

variable [DecidableEq κ] {k : κ}

theorem move (h : Since w₀ w es) (h₀ : w₀.Sound) (move : Move k w v) :
    ∃ more, Since w₀ v (es ++ more) := by
  have quiet (stored : SameStored w v) (sound : v.store.Sound) :
      ∃ more, Since w₀ v (es ++ more) := ⟨[], by simpa using h.same stored sound⟩
  cases move with
  | @announces e s change dated => exact ⟨[e], h.change h₀ change rfl rfl⟩
  | @touches id usedAt now =>
    exact quiet ⟨fun _ => shown_modifyFirst_keep _ (fun _ => rfl) fun _ => rfl, rfl, rfl⟩
      (Store.touchRole_sound h.sound.store id usedAt)
  | notes noted =>
    obtain ⟨effects, rfl, he⟩ := noted
    exact quiet ⟨fun _ => rfl, rfl, he⟩ h.sound.store
  | loadsRoles expiresAt => exact quiet ⟨fun _ => rfl, rfl, rfl⟩ h.sound.store
  | loadsRows user expiresAt => exact quiet ⟨fun _ => rfl, rfl, rfl⟩ h.sound.store

theorem moves (h : Since w₀ w es) (h₀ : w₀.Sound) (moves : Moves k w v) :
    ∃ more, Since w₀ v (es ++ more) := by
  induction moves with
  | refl => exact ⟨[], by simpa using h⟩
  | tail _ move ih =>
    obtain ⟨more, h⟩ := ih
    obtain ⟨last, h⟩ := h.move h₀ move
    exact ⟨more ++ last, by rwa [← List.append_assoc]⟩

end Since

def StampsNow (w v : World κ) : Prop :=
  ∃ es, v.effects.events = w.effects.events ++ es ∧
    (es.filterMap (·.stamp?)).Sublist [w.now]

theorem StampsNow.refl (w : World κ) : StampsNow w w := ⟨[], by simp, by simp⟩

section

variable [DecidableEq κ] {k : κ} {q : Request}

theorem edit_moves (hw : w.Reliable) (hs : w.Sound) (fresh : w.Unused w.nextId) (hq : q.IsEdit) :
    Moves k w (perform k q.service w).2 := by
  cases q with
  | createRole draft actor => exact createRole_moves hw fresh draft actor
  | updateRole id edit actor => exact updateRole_moves hw id edit actor
  | deleteRole id actor => exact deleteRole_moves hw id actor
  | assign user role expiresAt actor => exact assign_moves hw hs fresh user role expiresAt actor
  | unassign user role actor => exact unassign_moves hw user role actor
  | _ => exact hq.elim

theorem stampsNow_announced (noted : Noted ((w.setStore s).announce k e) v)
    (stamp : ∀ t, e.stamp? = some t → t = w.now) : StampsNow w v := by
  obtain ⟨effects, rfl, he⟩ := noted
  refine ⟨[e], he, ?_⟩
  cases hs : e.stamp? with
  | none => simp [hs]
  | some t => simp [hs, stamp t hs]

theorem createRole_stampsNow (hw : w.Reliable) (draft : RoleDraft) (actor : Option Actor) :
    StampsNow w (perform k (Service.createRole draft actor) w).2 := by
  rcases createRole_cases (k := k) hw draft actor with
    ⟨fault, -, h⟩ | ⟨role, s, v, hd, -, h, noted⟩ <;> rw [h]
  · exact .refl w
  · obtain ⟨-, -, hupdated, -⟩ := draft_gives hd
    refine stampsNow_announced noted ?_
    rintro t ⟨⟩
    exact hupdated

theorem updateRole_stampsNow (hw : w.Reliable)
    (past : ∀ role ∈ w.store.roles, role.updatedAt < w.now)
    (id : RoleId) (edit : RoleEdit) (actor : Option Actor) :
    StampsNow w (perform k (Service.updateRole id edit actor) w).2 := by
  rcases updateRole_cases (k := k) hw id edit actor with
    ⟨fault, h⟩ | ⟨before, edited, after, s, v, hf, -, hafter, -, h, noted⟩ <;> rw [h]
  · exact .refl w
  · have earlier := past before (Store.findRole_mem hf)
    have hnow : max w.now before.updatedAt = w.now :=
      if_neg fun le => Instant.not_lt.mpr le earlier
    refine stampsNow_announced noted ?_
    rintro t ⟨⟩
    rw [hafter, hnow]

theorem edit_stampsNow (hw : w.Reliable) (hs : w.Sound) (fresh : w.Unused w.nextId)
    (past : ∀ role ∈ w.store.roles, role.updatedAt < w.now) (hq : q.IsEdit) :
    StampsNow w (perform k q.service w).2 := by
  cases q with
  | createRole draft actor => exact createRole_stampsNow hw draft actor
  | updateRole id edit actor => exact updateRole_stampsNow hw past id edit actor
  | deleteRole id actor =>
    rcases deleteRole_cases (k := k) hw id actor with ⟨-, h⟩ | ⟨role, s, v, -, -, h, noted⟩
    · exact h ▸ .refl w
    · exact h ▸ stampsNow_announced noted nofun
  | assign user role expiresAt actor =>
    rcases assign_outcome (k := k) hw hs fresh user role expiresAt actor with
      ⟨-, h⟩ | ⟨-, -, h⟩ | ⟨-, -, v, h, reworks⟩
    · exact h ▸ .refl w
    · exact h ▸ .refl w
    · exact h ▸ ⟨_, reworks.events, by simp [RoleEvent.stamp?]⟩
  | unassign user role actor =>
    rcases unassign_outcome (k := k) hw hs.store.distinct user role actor with
      ⟨-, h⟩ | ⟨a, v, -, h, reworks, -⟩
    · exact h ▸ .refl w
    · exact h ▸ ⟨_, reworks.events, by simp [RoleEvent.stamp?]⟩
  | _ => exact hq.elim

end

structure Timed (first last : Instant) (es : List RoleEvent) : Prop where
  le : first ≤ last
  ordered : (es.filterMap (·.stamp?)).Pairwise (· < ·)
  within : ∀ t ∈ es.filterMap (·.stamp?), first < t ∧ t ≤ last

theorem Timed.append {first last now : Instant} {more : List RoleEvent} (h : Timed first last es)
    (later : last < now) (stamps : (more.filterMap (·.stamp?)).Sublist [now]) :
    Timed first now (es ++ more) where
  le := Instant.le_trans h.le (Instant.le_of_lt later)
  ordered := by
    rw [List.filterMap_append, List.pairwise_append]
    refine ⟨h.ordered, (List.pairwise_singleton _ now).sublist stamps, fun t ht u hu => ?_⟩
    obtain rfl := List.mem_singleton.mp (stamps.subset hu)
    exact Instant.lt_of_le_of_lt (h.within t ht).2 later
  within t ht := by
    rw [List.filterMap_append] at ht
    rcases List.mem_append.mp ht with ht | ht
    · exact ⟨(h.within t ht).1, Instant.le_trans (h.within t ht).2 (Instant.le_of_lt later)⟩
    · obtain rfl := List.mem_singleton.mp (stamps.subset ht)
      exact ⟨Instant.lt_of_le_of_lt h.le later, Instant.le_refl _⟩

/-- What events bring is in the order of its times, after something that was there before. -/
theorem Timed.pairwise {α : Type} {first last : Instant} (h : Timed first last es)
    (f : RoleEvent → Option α) (time : α → Instant) {start : Option α}
    (stamp : ∀ e a, f e = some a → e.stamp? = some (time a))
    (before : ∀ a, start = some a → time a ≤ first) :
    (start.toList ++ es.filterMap f).Pairwise fun a b => time a < time b := by
  refine List.pairwise_append.mpr ⟨?_, ?_, fun a ha b hb => ?_⟩
  · cases start <;> simp
  · exact List.pairwise_filterMap.mpr ((List.pairwise_filterMap.mp h.ordered).imp
      fun later a ha b hb => later _ (stamp _ a ha) _ (stamp _ b hb))
  · obtain ⟨e, he, hb⟩ := List.mem_filterMap.mp hb
    exact Instant.lt_of_le_of_lt (before a (Option.mem_toList.mp ha))
      (h.within _ (List.mem_filterMap.mpr ⟨e, he, stamp e b hb⟩)).1

end World

theorem RoleEvent.stamp_of_record {e : RoleEvent} {id : RoleId} {role : Role}
    (h : (e.newsOf id).bind RoleNews.record? = some role) : e.stamp? = some role.updatedAt := by
  cases e with
  | roleCreated r =>
    by_cases hr : r.id = id <;> simp [newsOf, hr, RoleNews.record?] at h
    subst h
    rfl
  | roleUpdated r =>
    by_cases hr : r.id = id <;> simp [newsOf, hr, RoleNews.record?] at h
    subst h
    rfl
  | roleDeleted r => by_cases hr : r.id = id <;> simp [newsOf, hr, RoleNews.record?] at h
  | _ => simp [newsOf] at h

theorem RoleEvent.grants_of_pair {e : RoleEvent} {user : UserId} {id : RoleId} {a : Assignment}
    (h : (e.newsOfPair user id).bind RowNews.granted? = some a) : e = .userRoleAssigned a := by
  cases e with
  | userRoleAssigned b =>
    by_cases hb : b.userId = user ∧ b.roleId = id <;> simp [newsOfPair, hb, RowNews.granted?] at h
    rw [h]
  | userRoleUnassigned b =>
    by_cases hb : b.userId = user ∧ b.roleId = id <;> simp [newsOfPair, hb, RowNews.granted?] at h
  | _ => simp [newsOfPair] at h

namespace World

variable {κ : Type} {w₀ w v : World κ} {es : List RoleEvent} {last : Instant}

structure Past (w : World κ) : Prop where
  roles : ∀ role ∈ w.store.roles, role.updatedAt ≤ w.now
  rows : ∀ a ∈ w.store.rows, a.createdAt ≤ w.now

theorem past_of_empty (hroles : w.store.roles = []) (hrows : w.store.rows = []) : w.Past :=
  ⟨by simp [hroles], by simp [hrows]⟩

/-- What is stored of a role was stored at first or came with an event. -/
theorem Since.role_time (h : Since w₀ w es) {role : Role} (hr : role ∈ w.store.roles) :
    (∃ r ∈ w₀.store.roles, r.updatedAt = role.updatedAt) ∨
      role.updatedAt ∈ es.filterMap (·.stamp?) := by
  have shown : w.storedRole role.id = some role.definition := by
    rw [storedRole, RoleSnapshot.shown,
      (Keyed.find_iff Role.id h.sound.store.roles_nodup).mpr ⟨hr, rfl⟩]
    rfl
  have course := h.roles role.id
  rw [shown] at course
  rcases List.mem_append.mp (List.mem_of_getLast? course.last) with first | later
  · obtain ⟨r, hr, hdef⟩ := Option.map_eq_some_iff.mp (Option.mem_toList.mp first)
    exact .inl ⟨r, List.mem_of_find?_eq_some hr, congrArg (·.updatedAt) hdef⟩
  · rw [List.filterMap_filterMap] at later
    obtain ⟨e, he, hrecord⟩ := List.mem_filterMap.mp later
    have stamp := RoleEvent.stamp_of_record hrecord
    exact .inr (List.mem_filterMap.mpr ⟨e, he, stamp⟩)

/-- Of a role, each record is later than those before it. -/
theorem Since.records_ordered (past : w₀.Past) (timed : Timed w₀.now last es) (id : RoleId) :
    (RoleNews.records (w₀.storedRole id) (roleQueue es id)).Pairwise fun r s =>
      r.updatedAt < s.updatedAt := by
  rw [RoleNews.records, List.filterMap_filterMap]
  refine timed.pairwise _ Role.updatedAt (fun e r => RoleEvent.stamp_of_record) fun r hr => ?_
  obtain ⟨x, hx, rfl⟩ := Option.map_eq_some_iff.mp hr
  exact past.roles x (List.mem_of_find?_eq_some hx)

/-- Of a pair, each row was created later than those before it, and has an identifier of its
own. -/
theorem Since.grants_ordered (h : Since w₀ w es) (h₀ : w₀.Sound) (past : w₀.Past)
    (timed : Timed w₀.now last es) (user : UserId) (id : RoleId) :
    (RowNews.grants (w₀.store.findAssignment user id) (pairQueue es user id)).Pairwise
        (fun a b => a.createdAt < b.createdAt) ∧
      ∀ a ∈ RowNews.grants (w₀.store.findAssignment user id) (pairQueue es user id),
        .userRoleAssigned a ∈ w.effects.events := by
  rw [RowNews.grants, List.filterMap_filterMap]
  constructor
  · refine timed.pairwise _ Assignment.createdAt (fun e a he => ?_) fun a ha => ?_
    · rw [RoleEvent.grants_of_pair he]
      rfl
    · exact past.rows a (Store.findAssignment_mem ha).1
  · intro a ha
    rcases List.mem_append.mp ha with first | later
    · rw [h.events]
      exact List.mem_append_left _
        (h₀.rows_known a (Store.findAssignment_mem (Option.mem_toList.mp first)).1)
    · obtain ⟨e, he, hgrant⟩ := List.mem_filterMap.mp later
      exact RoleEvent.grants_of_pair hgrant ▸ h.known he

variable [DecidableEq κ]

/-- Edits that were carried out one after the other, by any of the services, each later than the
one before; the last of them at some time. In between anything may happen that leaves the store
alone and announces nothing. -/
inductive History (w₀ : World κ) : Instant → World κ → Prop
  | start : History w₀ w₀.now w₀
  | edits {last : Instant} {w : World κ} (history : History w₀ last w) (k : κ) (q : Request)
      (edit : q.IsEdit) (later : last < w.now) (reliable : w.Reliable)
      (fresh : w.Unused w.nextId) : History w₀ w.now (perform k q.service w).2
  | rests {last : Instant} {w v : World κ} (history : History w₀ last w) (store : v.store = w.store)
      (events : v.effects.events = w.effects.events) : History w₀ last v

/-- What was announced in a history is a course of news, in the order of its times. -/
theorem History.since (history : History w₀ last w) (h₀ : w₀.Sound) (past : w₀.Past) :
    ∃ es, Since w₀ w es ∧ Timed w₀.now last es := by
  induction history with
  | start => exact ⟨[], .start h₀, Instant.le_refl _, by simp, by simp⟩
  | rests _ store events ih =>
    obtain ⟨es, since, timed⟩ := ih
    refine ⟨es, since.same ⟨fun id => ?_, ?_, events⟩ ?_, timed⟩
    · rw [storedRole, store, storedRole]
    · rw [store]
    · rw [store]
      exact since.sound.store
  | @edits last w _ k q edit later reliable fresh ih =>
    obtain ⟨es, since, timed⟩ := ih
    have earlier (role : Role) (hr : role ∈ w.store.roles) : role.updatedAt < w.now := by
      refine Instant.lt_of_le_of_lt ?_ later
      rcases since.role_time hr with ⟨r, hr, same⟩ | stamped
      · exact same ▸ Instant.le_trans (past.roles r hr) timed.le
      · exact (timed.within _ stamped).2
    obtain ⟨more, next⟩ := since.moves h₀ (edit_moves (k := k) reliable since.sound fresh edit)
    obtain ⟨told, announced, stamps⟩ :=
      edit_stampsNow (k := k) reliable since.sound fresh earlier edit
    have same : more = told := by
      have := next.events
      rw [announced, since.events, List.append_assoc, List.append_right_inj,
        List.append_right_inj] at this
      exact this.symm
    exact ⟨es ++ more, next, timed.append later (same ▸ stamps)⟩

end World

end Entitlement
