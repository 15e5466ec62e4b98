import Entitlement.Proofs.Crowd.History
import Entitlement.Proofs.Sync.Follows

/-!
# Where records come from

Whatever a request is told, a cache shows or an event carries was in the store at some time:
the record of a role as it stood there, and a row under its user. Nothing is spread before
it is stored, so every step of a crowd keeps that, whatever fails and however late or often
an event arrives.
-/

set_option autoImplicit false

namespace Entitlement

def RoleEvent.HeldIn (history : List Store) : RoleEvent → Prop
  | .roleCreated role | .roleUpdated role => role.HeldIn history
  | .userRoleAssigned a => a.HeldIn history
  | _ => True

def Exchange.CachedIn (history : List Store) : Exchange → Prop
  | ⟨.lookupRoles, .fresh roles⟩ => RolesHeld history roles
  | ⟨.installRoles _ _, roles⟩ => RolesHeld history roles
  | ⟨.lookupAssignments user, .fresh rows⟩ => RowsHeld history user rows
  | ⟨.installAssignments user _ _, rows⟩ => RowsHeld history user rows
  | _ => True

structure Cache.HeldIn (history : List Store) (cache : Cache) : Prop where
  snapshot : ∀ c, cache.roles.entry = some c → RolesHeld history c.value
  lists : ∀ user c, (user, c) ∈ cache.lists.entries → RowsHeld history user c.value

variable {history later : List Store} {role : Role} {a : Assignment} {user : UserId}
  {roles : List Role} {rows : List Assignment} {cache : Cache} {event : RoleEvent} {x : Exchange}
  {log : Log}

section

variable (more : history ⊆ later)

include more

theorem RoleEvent.HeldIn.mono (h : event.HeldIn history) : event.HeldIn later := by
  cases event with
  | roleCreated role => exact Role.HeldIn.mono more h
  | roleUpdated role => exact Role.HeldIn.mono more h
  | userRoleAssigned a => exact Assignment.HeldIn.mono more h
  | _ => trivial

theorem Exchange.CachedIn.mono (h : x.CachedIn history) : x.CachedIn later := by
  unfold Exchange.CachedIn at *
  split at h
  · exact h.mono more
  · exact h.mono more
  · exact h.mono more
  · exact h.mono more
  · trivial

theorem Cache.HeldIn.mono (h : cache.HeldIn history) : cache.HeldIn later :=
  ⟨fun c hc => (h.snapshot c hc).mono more, fun user c hc => (h.lists user c hc).mono more⟩

end

section

variable {q : Request} {c : Call} (told : ∀ y ∈ log, y.StoredIn history)
  (hcache : cache.HeldIn history)

include told

theorem Request.Earned.held (h : q.Earned log event) : event.HeldIn history := by
  cases event with
  | roleCreated role => exact told _ h
  | roleUpdated role => exact told _ h
  | userRoleAssigned a => exact told _ h
  | _ => trivial

theorem Exchange.published_held {r : c.Answer} (may : q.May log c)
    (h : Exchange.published? ⟨c, r⟩ = some event) : event.HeldIn history := by
  cases c with
  | publish e =>
    cases r with
    | error fault => simp [Exchange.published?] at h
    | ok _ =>
      obtain rfl := Option.some.inj h
      exact Request.Earned.held told may
  | _ => simp [Exchange.published?] at h

include hcache

theorem Exchange.Shows.cached (shows : x.Shows cache) (may : q.May log x.call) :
    x.CachedIn history := by
  unfold Exchange.CachedIn
  split
  · obtain ⟨c, hc, rfl⟩ := shows
    exact hcache.snapshot c hc
  · rcases shows with h | ⟨c, hc, rfl⟩
    · rw [h]
      exact told _ may
    · exact hcache.snapshot c hc
  · obtain ⟨c, hc, rfl⟩ := shows
    exact hcache.lists _ c hc
  · rcases shows with h | ⟨c, hc, rfl⟩
    · rw [h]
      exact told _ may
    · exact hcache.lists _ c hc
  · trivial

omit told in
theorem Cache.apply_held (he : event.HeldIn history) : (cache.apply event).HeldIn history where
  snapshot c hc := by
    rw [apply_entry] at hc
    obtain ⟨d, hd, rfl⟩ := Option.map_eq_some_iff.mp hc
    intro r hr
    rcases RoleSnapshot.mem_of_mem_patch hr with hr | rfl | rfl
    · exact hcache.snapshot d hd r hr
    · exact he
    · exact he
  lists user c hc := by
    obtain ⟨d, hd, hp⟩ := mem_apply_lists hc
    intro a ha
    rcases hp with ⟨e, hu⟩ | ⟨e, -⟩
    · rcases UserLists.mem_of_mem_patch (e ▸ ha) with ha | rfl
      · exact hcache.lists user d hd a ha
      · exact ⟨he, hu a rfl⟩
    · exact hcache.lists user d hd a (e ▸ ha)

theorem Call.recache_held (may : q.May log c) (lifetimes : Lifetimes) (now : Moment) :
    (c.recache lifetimes now cache).HeldIn history := by
  cases c with
  | installRoles version loaded =>
    refine ⟨fun c hc => ?_, hcache.lists⟩
    simp only [recache, RoleSnapshot.install] at hc
    split at hc
    · exact hcache.snapshot c hc
    · split at hc
      · obtain rfl := Option.some.inj hc
        exact told _ may
      · exact hcache.snapshot c hc
  | installAssignments user version loaded =>
    refine ⟨hcache.snapshot, fun u c hc => ?_⟩
    simp only [recache, UserLists.install] at hc
    split at hc
    · exact hcache.lists u c hc
    · split at hc
      · rcases UserLists.mem_of_mem_put hc with ⟨rfl, rfl⟩ | hc
        · exact told _ may
        · exact hcache.lists u c hc
      · exact hcache.lists u c hc
  | applyEvent event => exact Cache.apply_held hcache (Request.Earned.held told may)
  | pruneCache =>
    exact ⟨fun c hc => hcache.snapshot c (Option.filter_eq_some_iff.mp hc).1,
      fun user c hc => hcache.lists user c (List.mem_of_mem_filter hc)⟩
  | clearCache => exact ⟨fun c hc => by simp [recache, Cache.clear, RoleSnapshot.clear] at hc,
      fun user c hc => by simp [recache, Cache.clear, UserLists.clear] at hc⟩
  | _ => exact hcache

end

def Thread.read? {κ : Type} [DecidableEq κ] (party : κ) (user : UserId) :
    Thread κ → Option (Log × List Role)
  | ⟨p, .userRoles u, log, .done (.ok roles)⟩ =>
    if p = party ∧ u = user then some (log, roles) else none
  | _ => none

theorem Thread.read?_eq {κ : Type} [DecidableEq κ] {party : κ} {th : Thread κ}
    (h : th.read? party user = some (log, roles)) :
    th = ⟨party, .userRoles user, log, .done (.ok roles)⟩ := by
  unfold read? at h
  split at h
  · split at h
    · next e =>
      obtain ⟨rfl, rfl⟩ := e
      obtain ⟨rfl, rfl⟩ := Prod.mk.inj (Option.some.inj h)
      rfl
    · simp at h
  · simp at h

namespace Crowd

variable {κ : Type} [DecidableEq κ] {terms : Terms κ} {s t : Crowd κ} {th : Thread κ}

structure Sourced (s : Crowd κ) : Prop where
  stored : s.Stored
  caches : ∀ party, (s.world.caches party).HeldIn s.history
  events : ∀ e ∈ s.world.effects.events, e.HeldIn s.history
  cached : s.Told fun _ x => x.CachedIn s.history

theorem Sourced.answered (h : s.Sourced) {i : Nat} {party : κ} {q : Request} {log : Log} {c : Call}
    {next : c.Answer → Procedure (Except Fault q.Value)}
    (running : s.threads[i]? = some ⟨party, q, log, .call c next⟩) (may : q.May log c) :
    (s.answered i party q log c next).Sourced := by
  have told := h.stored.told _ (List.mem_of_getElem? running)
  have more : s.history ⊆ (s.answered i party q log c next).history := history_grows
  refine ⟨h.stored.answered running, fun other => ?_, fun e he => ?_, ?_⟩
  · show Cache.HeldIn _ ((s.world.answer party c).2.caches other)
    rw [World.answer_caches]
    split
    · exact (Call.recache_held told (h.caches party) may _ _).mono more
    · exact (h.caches other).mono more
  · change e ∈ (s.world.answer party c).2.effects.events at he
    rw [World.answer_events] at he
    rcases List.mem_append.mp he with he | he
    · exact (h.events e he).mono more
    · exact (Exchange.published_held told may (Option.mem_toList.mp he)).mono more
  · have new := (World.answer_shows party c s.world).cached told (h.caches party) may
    exact h.cached.answered running (fun _ _ hx => hx.mono more) (new.mono more)

theorem Step.sourced (step : Step terms s t) (conducts : ∀ th ∈ s.threads, th.Conducts)
    (h : s.Sourced) : t.Sourced := by
  cases step with
  | accepts party admitted =>
    exact ⟨⟨h.stored.current, h.stored.told.accept party _⟩, h.caches, h.events,
      h.cached.accept party _⟩
  | proceeds running allowed =>
    exact h.answered running (conducts _ (List.mem_of_getElem? running)).due
  | @arrives party event announced =>
    refine ⟨⟨h.stored.current, h.stored.told⟩, fun other => ?_, h.events, h.cached⟩
    show Cache.HeldIn _ (if other = party then _ else _)
    split
    · exact Cache.apply_held (h.caches party) (h.events _ announced)
    · exact h.caches other
  | passes now moment nextId people instancePolicies failing feed =>
    exact ⟨⟨h.stored.current, h.stored.told⟩, h.caches, h.events, h.cached⟩

variable {w : World κ} {issued : List Uuid}

theorem Runs.sourced (run : Runs terms (begin w issued) s)
    (cold : ∀ party, w.caches party = .empty) (silent : w.effects.events = []) : s.Sourced := by
  induction run with
  | refl =>
    refine ⟨Runs.stored (show Runs terms _ _ from .refl), fun party => ?_, fun e he => ?_, by simp [Told, begin]⟩
    · rw [begin, cold party]
      exact ⟨fun c hc => by simp [Cache.empty, RoleSnapshot.empty] at hc,
        fun u c hc => by simp [Cache.empty, UserLists.empty] at hc⟩
    · rw [begin, silent] at he
      simp at he
  | tail run step ih => exact step.sourced (Runs.conducts run) ih

variable {party : κ}

omit [DecidableEq κ] in
theorem Sourced.of_snapshot (h : s.Sourced) (mem : th ∈ s.threads) (shown : th.log.Snapshot roles) :
    RolesHeld s.history roles := by
  rcases shown with shown | ⟨version, loaded, shown⟩
  · exact h.cached th mem _ shown
  · exact h.cached th mem _ shown

omit [DecidableEq κ] in
theorem Sourced.of_rows (h : s.Sourced) (mem : th ∈ s.threads) (shown : th.log.Rows user rows) :
    RowsHeld s.history user rows := by
  rcases shown with shown | ⟨version, loaded, shown⟩
  · exact h.cached th mem _ shown
  · exact h.cached th mem _ shown

/-- No role without a grant. Each role that a read of a user's roles counts as assigned goes back
to a row of just this pair that was stored and is not over at the time that the read goes by,
and each record that the read returns was stored as it is, however its cache came by it. -/
theorem assigned_role_granted (cold : ∀ party, w.caches party = .empty)
    (silent : w.effects.events = []) (run : Runs (.any κ) (begin w issued) s)
    (returned : ⟨party, .userRoles user, log, .done (.ok roles)⟩ ∈ s.threads) :
    ∃ time manual met, log.readings = [time] ∧
      Request.Resolves user time (fun _ => true) log manual met ∧ roles = manual ++ met ∧
      (∀ role ∈ manual, ∃ a : Assignment, a.HeldIn s.history ∧ a.userId = user ∧ a.roleId = role.id ∧
        a.isActiveAt time = true) ∧
      ∀ role ∈ roles, role.HeldIn s.history := by
  have h := run.sourced cold silent
  obtain ⟨time, manual, met, hreadings, resolves, rfl⟩ := (run.conducts _ returned).ended
  refine ⟨time, manual, met, hreadings, resolves, rfl, ?_⟩
  obtain ⟨snapshot, rows, hsnapshot, hrows, rfl, hmet⟩ := resolves
  have records := h.of_snapshot returned hsnapshot
  constructor
  · intro role hrole
    obtain ⟨-, a, ha, hid, active⟩ := World.mem_assignedRoles.mp hrole
    obtain ⟨held, hu⟩ := h.of_rows returned hrows a ha
    exact ⟨a, held, hu, hid, active⟩
  · intro role hrole
    rcases List.mem_append.mp hrole with hrole | hrole
    · exact records role (List.mem_of_mem_filter (World.mem_assignedRoles.mp hrole).1)
    · obtain ⟨c, hc⟩ := hmet role hrole
      exact records role (List.mem_of_mem_filter (World.conditional_of_mem_candidates hc).1)

/-- One service has stored the grant of a role but not yet told anybody; the other one, asked for
the first time, returns the role. -/
theorem assigned_role_granted_unannounced :
    let user : UserId := ⟨.generated 9⟩
    let role : RoleId := ⟨.generated 0⟩
    let w : World Party := World.startingAt default 0
    let s := ((begin w []).acceptAll [(.main, .createRole (.manual "r") none),
      (.main, .assign user role none none), (.peer, .userRoles user)]).turns
        (List.replicate 6 0 ++ List.replicate 5 1 ++ List.replicate 7 2)
    (w.effects.events = [] ∧ Runs (.any Party) (begin w []) s) ∧
      ∃ log roles, ⟨.peer, .userRoles user, log, .done (.ok roles)⟩ ∈ s.threads ∧
        roles.map (·.id) = [role] ∧ ∃ time manual met, log.readings = [time] ∧
          Request.Resolves user time (fun _ => true) log manual met ∧ roles = manual ++ met ∧
          (∀ role ∈ manual, ∃ a : Assignment, a.HeldIn s.history ∧ a.userId = user ∧
            a.roleId = role.id ∧ a.isActiveAt time = true) ∧
          ∀ role ∈ roles, role.HeldIn s.history := by
  intro user role w s
  have run : Runs (.any Party) (begin w []) s :=
    Runs.turns (Runs.acceptAll .refl fun _ _ => trivial) (fun _ _ _ _ _ _ _ => trivial)
      (show Smooth w.now _ _ by decide +kernel)
  obtain ⟨log, roles, returned, ids⟩ : ∃ log roles,
      ⟨.peer, .userRoles user, log, .done (.ok roles)⟩ ∈ s.threads ∧ roles.map (·.id) = [role] := by
    have asked : (s.threads.filterMap fun th => th.read? .peer user).map
        (fun read => read.2.map (·.id)) = [[role]] := by decide +kernel
    obtain ⟨⟨log, roles⟩, hread, ids⟩ := List.mem_map.mp (asked ▸ List.mem_singleton_self _)
    obtain ⟨th, mem, hread⟩ := List.mem_filterMap.mp hread
    exact ⟨log, roles, Thread.read?_eq hread ▸ mem, ids⟩
  exact ⟨⟨rfl, run⟩, log, roles, returned, ids,
    assigned_role_granted (fun _ => rfl) rfl run returned⟩

end Crowd

end Entitlement
