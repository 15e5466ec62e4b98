import Entitlement.Proofs.Sync.Follows

/-!
# Runs of services that share a store and a feed

Requests are carried out one after the other, by any party and at any reading of the
clock. Between them, in any order, events are delivered one at a time, caches are pruned
and cleared, and the surroundings change. A subscriber follows the store all the while.
-/

set_option autoImplicit false

namespace Entitlement.World

variable {κ : Type} [DecidableEq κ]

inductive Step : World κ → World κ → Prop
  | requests {w : World κ} {α : Type} {request : Service α} (party : κ)
      (offered : Offered request) (reliable : w.Reliable) (fresh : w.Unused w.nextId) :
      Step w (w.perform party request).2
  | delivers {w : World κ} (party : κ) : Step w (w.deliverNext party)
  | prunes {w : World κ} (party : κ) : Step w (Service.pruneCache.runOn (answer party) w).2
  | clears {w : World κ} (party : κ) : Step w (Service.clearCache.runOn (answer party) w).2
  | passes {w : World κ} (now : Instant) (moment : Moment) (nextId : Uuid) (people : List Person)
      (instancePolicies : Option InstancePolicies) (failing : List Port)
      (later : w.moment ≤ moment) :
      Step w { w with now, moment, nextId, people, instancePolicies, failing }

theorem Step.draws (w : World κ) (nextId : Uuid) : Step w { w with nextId } :=
  .passes w.now w.moment nextId w.people w.instancePolicies w.failing (Nat.le_refl _)

def ask {α : Type} (party : κ) (nextId : Uuid) (request : Service α) (w : World κ) : World κ :=
  (perform party request { w with nextId }).2

abbrev Runs : World κ → World κ → Prop := Relation.ReflTransGen Step

theorem Runs.ask {w₀ w : World κ} {α : Type} {request : Service α} {nextId : Uuid}
    (run : Runs w₀ w) (party : κ) (offered : Offered request) (reliable : w.Reliable)
    (fresh : w.Unused nextId) : Runs w₀ (w.ask party nextId request) :=
  (run.tail (.draws w nextId)).tail (.requests party offered reliable fresh)

structure Begins (w : World κ) (party : κ) : Prop where
  store : w.store = .empty
  events : w.effects.events = []
  subscribed : w.feed.Holds party []
  snapshot : ∀ c, (w.caches party).roles.entry = some c → c.value = []
  lists : ∀ user c, (user, c) ∈ (w.caches party).lists.entries → c.value = []

theorem Begins.of_empty {w : World κ} {party : κ} (store : w.store = .empty)
    (events : w.effects.events = []) (subscribed : w.feed.Holds party [])
    (cache : w.caches party = .empty) : w.Begins party where
  store := store
  events := events
  subscribed := subscribed
  snapshot := by simp [cache, Cache.empty, RoleSnapshot.empty]
  lists := by simp [cache, Cache.empty, UserLists.empty]

structure Synced (w : World κ) (party : κ) (queue : List RoleEvent) : Prop where
  sound : w.Sound
  holds : w.feed.Holds party queue
  follows : w.Follows (w.caches party) queue

variable {w v : World κ} {party sender : κ} {queue : List RoleEvent} {e : RoleEvent}

theorem setCache_other (c : Cache) (h : party ≠ sender) :
    (w.setCache sender c).caches party = w.caches party := by
  simp [setCache, h]

theorem Begins.sound (h : w.Begins party) : w.Sound := sound_of_empty h.store h.events

theorem Begins.synced (h : w.Begins party) : w.Synced party [] := by
  have hroles (rs : List Role) (hr : rs = []) : w.ShowsRoles [] rs := by
    subst hr
    constructor
    · simp
    · intro id
      rw [storedRole, h.store]
      exact .inl ⟨rfl, rfl⟩
  have hrows (user : UserId) (rs : List Assignment) (hr : rs = []) : w.ShowsRows [] user rs := by
    subst hr
    exact ⟨⟨by simp, by simp⟩, by simp,
      fun id hid => by simp [h.store, Store.hasRole, Store.empty] at hid⟩
  refine ⟨h.sound, h.subscribed, by simp, hroles _ (by rw [h.store]; rfl), fun user => hrows _ _ ?_,
    fun c hc => hroles _ (h.snapshot c hc), fun user c hc => hrows _ _ (h.lists user c hc)⟩
  simp [h.store, Store.assignmentsOfUser, Store.empty]

/-- What a run is made of, as one subscriber sees it: announcements, deliveries to the
subscriber itself, and all that leaves the stored records and the queue as they are. Its
cache then shows what it did before, or what is stored, or nothing. -/
inductive Turn (party : κ) : World κ → World κ → Prop
  | announces {w : World κ} {e : RoleEvent} {s : Store} (sender : κ) (change : w.Change e s) :
      Turn party w ((w.setStore s).announce sender e)
  | delivers (w : World κ) : Turn party w (w.deliverNext party)
  | rests {w v : World κ} (stored : SameStored w v)
      (sound : w.store.Sound → v.store.Sound)
      (holds : ∀ queue, w.feed.Holds party queue → v.feed.Holds party queue)
      (roles : ∀ c, (v.caches party).roles.entry = some c →
        (w.caches party).roles.entry = some c ∨ c.value = w.store.roles)
      (lists : ∀ user c, (user, c) ∈ (v.caches party).lists.entries →
        (user, c) ∈ (w.caches party).lists.entries ∨ c.value = w.store.assignmentsOfUser user) :
      Turn party w v

abbrev Turns (party : κ) : World κ → World κ → Prop := Relation.ReflTransGen (Turn party)

theorem Turn.recached (w : World κ) (sender : κ) {next : Cache}
    (roles : ∀ c, next.roles.entry = some c →
      (w.caches sender).roles.entry = some c ∨ c.value = w.store.roles)
    (lists : ∀ user c, (user, c) ∈ next.lists.entries →
      (user, c) ∈ (w.caches sender).lists.entries ∨ c.value = w.store.assignmentsOfUser user) :
    Turn party w (w.setCache sender next) := by
  by_cases hp : party = sender
  · subst hp
    refine .rests ⟨fun _ => rfl, rfl, rfl⟩ id (fun _ h => h) ?_ ?_ <;> rw [setCache_caches]
    · exact roles
    · exact lists
  · refine .rests ⟨fun _ => rfl, rfl, rfl⟩ id (fun _ h => h) ?_ ?_ <;> rw [setCache_other _ hp]
    · intro c hc
      exact .inl hc
    · intro user c hc
      exact .inl hc

theorem Move.turn (move : Move sender w v) : Turn party w v := by
  cases move with
  | announces change => exact .announces sender change
  | @touches id usedAt _ =>
    refine .rests ⟨fun other => ?_, rfl, rfl⟩ (fun h => Store.touchRole_sound h id usedAt)
      (fun _ h => h) (fun c hc => .inl hc) fun user c hc => .inl hc
    exact shown_modifyFirst_keep _ (fun _ => rfl) fun _ => rfl
  | notes noted =>
    obtain ⟨effects, rfl, he⟩ := noted
    exact .rests ⟨fun _ => rfl, rfl, he⟩ id (fun _ h => h) (fun c hc => .inl hc)
      fun user c hc => .inl hc
  | loadsRoles expiresAt =>
    refine .recached w sender (fun c hc => .inr ?_) fun user c hc => .inl hc
    rw [← Option.some.inj hc]
  | loadsRows user expiresAt =>
    refine .recached w sender (fun c hc => .inl hc) fun u c hc => ?_
    rcases UserLists.mem_of_mem_put hc with ⟨rfl, rfl⟩ | hc
    · exact .inr rfl
    · exact .inl hc

theorem Moves.turns (moves : Moves sender w v) : Turns party w v := by
  induction moves with
  | refl => exact .refl
  | tail _ move ih => exact ih.tail move.turn

/-- A delivery to another party leaves the queue and the cache alone. -/
theorem Turn.delivers_other (w : World κ) (hne : party ≠ sender) :
    Turn party w (w.deliverNext sender) := by
  rcases w.deliverNext_cases sender with he | ⟨e, he⟩ <;> rw [he]
  · exact .rests ⟨fun _ => rfl, rfl, rfl⟩ id (fun _ h => h) (fun c hc => .inl hc)
      fun user c hc => .inl hc
  · have hcache : ({ w.setCache sender ((w.caches sender).apply e) with
        feed := w.feed.advance sender } : World κ).caches party = w.caches party :=
      setCache_other _ hne
    refine .rests ⟨fun _ => rfl, rfl, rfl⟩ id (fun _ h => Feed.holds_advance_other h hne) ?_ ?_ <;>
      rw [hcache]
    · intro c hc
      exact .inl hc
    · intro user c hc
      exact .inl hc

theorem Step.turns (step : Step w v) (hw : w.Sound) : Turns party w v := by
  cases step with
  | requests sender offered reliable fresh => exact (offered.moves reliable hw fresh).turns
  | delivers sender =>
    by_cases hp : party = sender
    · subst hp
      exact .single (.delivers w)
    · exact .single (.delivers_other w hp)
  | prunes sender =>
    refine .single (.recached w sender (fun c hc => .inl ?_) fun user c hc => .inl ?_)
    · exact (Option.filter_eq_some_iff.mp hc).1
    · exact List.mem_of_mem_filter hc
  | clears sender =>
    refine .single (.recached w sender (fun c hc => ?_) fun user c hc => ?_)
    · simp [Cache.clear, RoleSnapshot.clear] at hc
    · simp [Cache.clear, UserLists.clear] at hc
  | passes now moment nextId people instancePolicies failing later =>
    exact .single (.rests ⟨fun _ => rfl, rfl, rfl⟩ id (fun _ h => h) (fun c hc => .inl hc)
      fun user c hc => .inl hc)

theorem announce_caches (party : κ) (w : World κ) (sender : κ) (e : RoleEvent) (s : Store) :
    ((w.setStore s).announce sender e).caches party = w.caches party ∨
      ((w.setStore s).announce sender e).caches party = (w.caches party).apply e := by
  by_cases hp : party = sender
  · subst hp
    exact .inr (setCache_caches _)
  · exact .inl (setCache_other _ hp)

/-- Every turn keeps the queue leading to the store: an announcement prolongs it, and a
delivery takes its first event off, if there is one. -/
theorem Synced.turn (h : w.Synced party queue) (turn : Turn party w v) :
    ∃ queue, v.Synced party queue := by
  cases turn with
  | @announces e s sender change =>
    exact ⟨queue ++ [e], h.sound.of_change change rfl rfl, Feed.holds_publish h.holds e,
      h.follows.publish h.sound change rfl rfl (announce_caches party w sender e s)⟩
  | delivers =>
    cases queue with
    | nil =>
      rw [deliverNext_nil h.holds]
      exact ⟨[], h⟩
    | cons e rest =>
      rw [deliverNext_cons h.holds]
      refine ⟨rest, h.sound.of_same rfl rfl, Feed.holds_advance h.holds, ?_⟩
      refine .same (w := w) ?_ ⟨fun _ => rfl, rfl, rfl⟩ (h.sound.of_same rfl rfl)
      show w.Follows ((w.setCache party _).caches party) rest
      rw [setCache_caches]
      exact h.follows.deliver h.sound
  | rests stored sound holds roles lists =>
    have hv : v.Sound := h.sound.of_stored stored (sound h.sound.store)
    exact ⟨queue, hv, holds queue h.holds, (h.follows.recached roles lists).same stored hv⟩

theorem Synced.turns (h : w.Synced party queue) (turns : Turns party w v) :
    ∃ queue, v.Synced party queue := by
  induction turns with
  | refl => exact ⟨queue, h⟩
  | tail _ turn ih =>
    obtain ⟨queue, ih⟩ := ih
    exact ih.turn turn

/-- In every reachable world a queue leads each subscriber from its cache to the store. -/
theorem Runs.synced (run : Runs w v) (h : w.Begins party) : ∃ queue, v.Synced party queue := by
  induction run with
  | refl => exact ⟨[], h.synced⟩
  | tail _ step ih =>
    obtain ⟨queue, ih⟩ := ih
    exact ih.turns (step.turns ih.sound)

end Entitlement.World
