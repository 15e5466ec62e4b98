import Mathlib.Data.List.Induction
import Entitlement.Proofs.Desk.Loads

/-!
# How old a cached value may be

A cache before a store that others change at will, without ever telling it. What is read through
it was loaded from the store less than a lifetime ago, and has been changed since by the events
that were applied to its half and by nothing else. No event makes a value last longer, and a
lifetime whose end cannot be represented keeps none.
-/

set_option autoImplicit false

namespace Entitlement

namespace Wanted

def lifetime (lifetimes : Lifetimes) : Wanted → Nat
  | .roles => lifetimes.roles
  | .rows _ => lifetimes.assignments

def patch (e : RoleEvent) : (w : Wanted) → w.Value → w.Value
  | .roles, value => RoleSnapshot.patch e value
  | .rows user, value =>
    if e.row?.any fun a => a.userId = user then UserLists.patch e value else value

def fresh? (cache : Cache) (now : Moment) : (w : Wanted) → Option w.Value
  | .roles => cache.roles.freshValue? now
  | .rows user => cache.lists.freshValue? user now

def Held (cache : Cache) : (w : Wanted) → Cached w.Value → Prop
  | .roles, c => cache.roles.entry = some c
  | .rows user, c => (user, c) ∈ cache.lists.entries

def keep (cache : Cache) : (w : Wanted) → Cached w.Value → Cache
  | .roles, c => { cache with roles.entry := some c }
  | .rows user, c => { cache with lists.entries := UserLists.put user c cache.lists.entries }

def call : Wanted → Call
  | .roles => .listRoles
  | .rows user => .assignmentsOfUser user

end Wanted

/-- What can happen around a cache, each at one moment. When the surroundings change, they may
become anything at all. -/
inductive Incident (κ : Type) where
  | reads (wanted : Wanted)
  | applies (event : RoleEvent)
  | clears
  | prunes
  | passes (time : Nat)
  | changes (surroundings : World κ)

def Incident.event? {κ : Type} : Incident κ → Option RoleEvent
  | .applies event => some event
  | _ => none

def Wanted.patched {κ : Type} (w : Wanted) (incidents : List (Incident κ)) (value : w.Value) :
    w.Value :=
  ((incidents.filterMap Incident.event?).filter fun e => w.isOf e).foldl (fun v e => w.patch e v)
    value

namespace World

variable {κ : Type} [DecidableEq κ] (k : κ)

def undergo : Incident κ → World κ → World κ
  | .reads wanted, w => (perform k wanted.service w).2
  | .applies event, w => (answer k (.applyEvent event) w).2
  | .clears, w => (answer k .clearCache w).2
  | .prunes, w => (answer k .pruneCache w).2
  | .passes time, w => { w with moment := w.moment + time }
  | .changes surroundings, w =>
    { surroundings with caches := w.caches, lifetimes := w.lifetimes, moment := w.moment }

def undergoAll (incidents : List (Incident κ)) (w : World κ) : World κ :=
  incidents.foldl (fun w i => undergo k i w) w

def stored (w : World κ) : (wanted : Wanted) → Except Fault wanted.Value
  | .roles => (answer k .listRoles w).1
  | .rows user => (answer k (.assignmentsOfUser user) w).1

def Loads (w : World κ) (wanted : Wanted) (value : wanted.Value) : Prop :=
  wanted.fresh? (w.caches k) w.moment = none ∧ w.stored k wanted = .ok value

/-- How a value that is read after some incidents came to be: a read loaded it, either this read
or one less than a lifetime ago, and the events applied since have changed it. -/
structure LoadedInTime (w : World κ) (incidents : List (Incident κ)) (wanted : Wanted)
    (value : wanted.Value) (before after : List (Incident κ)) (loaded : wanted.Value) : Prop where
  read : incidents ++ [.reads wanted] = before ++ .reads wanted :: after
  loads : (w.undergoAll k before).Loads k wanted loaded
  patched : value = wanted.patched after loaded
  recent : after = [] ∨
    (w.undergoAll k before).moment ≤ (w.undergoAll k incidents).moment ∧
    (w.undergoAll k incidents).moment <
      (w.undergoAll k before).moment + wanted.lifetime (w.lifetimes k) ∧
    (w.undergoAll k before).moment + wanted.lifetime (w.lifetimes k) < Moment.bound
  seen : ∀ past since, incidents = past ++ since →
    (w.undergoAll k past).moment + wanted.lifetime (w.lifetimes k) ≤
      (w.undergoAll k incidents).moment → past <+: before

end World

namespace World

variable {κ : Type} [DecidableEq κ] {k : κ} {w : World κ} {wanted : Wanted}

theorem perform_fresh {value : wanted.Value}
    (fresh : wanted.fresh? (w.caches k) w.moment = some value) :
    perform k wanted.service w = (.ok value, w) := by
  cases wanted with
  | roles => exact perform_cachedRoles_fresh fresh
  | rows user => exact perform_cachedAssignments_fresh fresh

theorem perform_listRoles_stored :
    perform k Service.listRoles w = (w.stored k .roles, w.noteLoad .listRoles) := by
  show answer k .listRoles w = _
  unfold stored
  by_cases fails : (w.noteLoad .listRoles).fails .listRoles <;>
    simp [answer, noteInquiry, serve, fails, Call.failed?]

theorem perform_assignmentsOfUser_stored (user : UserId) :
    perform k (Service.assignmentsOfUser user) w =
      (w.stored k (.rows user), w.noteLoad (.assignmentsOfUser user)) := by
  show answer k (.assignmentsOfUser user) w = _
  unfold stored
  by_cases fails : (w.noteLoad (.assignmentsOfUser user)).fails (.assignmentsOfUser user) <;>
    simp [answer, noteInquiry, serve, fails, Call.failed?]

theorem perform_lookupRoles :
    perform k (Service.ofProcedure (.ask .lookupRoles)) w =
      (.ok ((w.caches k).roles.lookup w.moment), w) := rfl

theorem perform_lookupAssignments (user : UserId) :
    perform k (Service.ofProcedure (.ask (.lookupAssignments user))) w =
      (.ok ((w.caches k).lists.lookup user w.moment), w) := rfl

theorem perform_installRoles {loaded : List Role}
    (missing : (w.caches k).roles.freshValue? w.moment = none) :
    perform k (Service.ofProcedure (.ask (.installRoles (w.caches k).roles.version loaded))) w =
      (.ok loaded, w.setCache k (Wanted.roles.keep (w.caches k)
        ⟨loaded, Moment.deadline w.moment (w.lifetimes k).roles⟩)) := by
  rw [perform_ofProcedure]
  simp [Procedure.ask, Procedure.runOn, answer, fails, Call.port?, noteLoad, noteInquiry, serve,
    RoleSnapshot.install, missing, Wanted.keep]

theorem perform_installAssignments {user : UserId} {loaded : List Assignment}
    (missing : (w.caches k).lists.freshValue? user w.moment = none) :
    perform k (Service.ofProcedure
        (.ask (.installAssignments user (w.caches k).lists.version loaded))) w =
      (.ok loaded, w.setCache k ((Wanted.rows user).keep (w.caches k)
        ⟨loaded, Moment.deadline w.moment (w.lifetimes k).assignments⟩)) := by
  rw [perform_ofProcedure]
  simp [Procedure.ask, Procedure.runOn, answer, fails, Call.port?, noteLoad, noteInquiry, serve,
    UserLists.install, missing, Wanted.keep]

/-- Without a value that counts the store is asked, and what it answers is kept for a lifetime. -/
theorem perform_missing (missing : wanted.fresh? (w.caches k) w.moment = none) :
    perform k wanted.service w =
      match w.stored k wanted with
      | .error fault => (.error fault, w.noteLoad wanted.call)
      | .ok value => (.ok value, (w.noteLoad wanted.call).setCache k
          (wanted.keep (w.caches k)
            ⟨value, Moment.deadline w.moment (wanted.lifetime (w.lifetimes k))⟩)) := by
  cases wanted with
  | roles =>
    have cold : (w.caches k).roles.freshValue? w.moment = none := missing
    show perform k Service.cachedRoles w = _
    rw [Service.cachedRoles, perform_bind, perform_lookupRoles, RoleSnapshot.lookup, cold]
    dsimp only
    rw [perform_bind, perform_listRoles_stored]
    cases w.stored k .roles with
    | error fault => rfl
    | ok value => exact perform_installRoles (w := w.noteLoad .listRoles) cold
  | rows user =>
    have cold : (w.caches k).lists.freshValue? user w.moment = none := missing
    show perform k (Service.cachedAssignments user) w = _
    rw [Service.cachedAssignments, perform_bind, perform_lookupAssignments, UserLists.lookup, cold]
    dsimp only
    rw [perform_bind, perform_assignmentsOfUser_stored]
    cases w.stored k (.rows user) with
    | error fault => rfl
    | ok value => exact perform_installAssignments (w := w.noteLoad (.assignmentsOfUser user)) cold

end World

namespace Wanted

variable {w other : Wanted} {cache : Cache} {c d : Cached w.Value} {e : RoleEvent} {now : Moment}

theorem held_of_fresh {value : w.Value} (fresh : w.fresh? cache now = some value) :
    ∃ c, w.Held cache c ∧ c.value = value ∧ now < c.expiresAt := by
  cases w with
  | roles =>
    simp only [fresh?, RoleSnapshot.freshValue?] at fresh
    cases held : cache.roles.entry with
    | none => simp [held] at fresh
    | some c =>
      simp only [held, Option.ite_none_right_eq_some, Option.some.injEq] at fresh
      exact ⟨c, held, fresh.2, of_decide_eq_true fresh.1⟩
  | rows user =>
    simp only [fresh?, UserLists.freshValue?] at fresh
    cases found : cache.lists.entries.lookup user with
    | none => simp [found] at fresh
    | some c =>
      simp only [found, Option.ite_none_right_eq_some, Option.some.injEq] at fresh
      obtain ⟨before, after, split, -⟩ := List.lookup_eq_some_iff.mp found
      exact ⟨c, by simp [Held, split], fresh.2, of_decide_eq_true fresh.1⟩

theorem held_keep {new : Cached other.Value} (h : w.Held (other.keep cache new) d) :
    (⟨other, new⟩ : Σ w : Wanted, Cached w.Value) = ⟨w, d⟩ ∨ w.Held cache d := by
  cases other with
  | roles =>
    cases w with
    | roles => exact .inl (by rw [Option.some.inj h])
    | rows user => exact .inr h
  | rows user =>
    cases w with
    | roles => exact .inr h
    | rows owner =>
      rcases UserLists.mem_of_mem_put h with ⟨rfl, rfl⟩ | h
      · exact .inl rfl
      · exact .inr h

theorem held_lists_apply {user owner : UserId} {c : Cached (List Assignment)}
    (h : (user, c) ∈ (cache.lists.apply e owner).entries) :
    ∃ d, (user, d) ∈ cache.lists.entries ∧
      c = ⟨if owner = user then UserLists.patch e d.value else d.value, d.expiresAt⟩ := by
  obtain ⟨⟨u, d⟩, hd, same⟩ := List.mem_map.mp h
  by_cases hu : u = owner
  · simp only [hu, if_true, Prod.mk.injEq] at same
    obtain ⟨rfl, rfl⟩ := same
    exact ⟨d, hu ▸ hd, by rw [if_pos rfl]⟩
  · simp only [hu, if_false, Prod.mk.injEq] at same
    obtain ⟨rfl, rfl⟩ := same
    exact ⟨d, hd, by rw [if_neg (Ne.symm hu)]⟩

/-- An event changes what is held of its half, and not how long it counts. -/
theorem held_apply (h : w.Held (cache.apply e) d) : ∃ c, w.Held cache c ∧
    d = ⟨if w.isOf e then w.patch e c.value else c.value, c.expiresAt⟩ := by
  cases w with
  | roles =>
    cases e with
    | userRoleAssigned a => exact ⟨d, h, rfl⟩
    | userRoleUnassigned a => exact ⟨d, h, rfl⟩
    | _ =>
      obtain ⟨c, held, rfl⟩ := Option.map_eq_some_iff.mp h
      exact ⟨c, held, rfl⟩
  | rows user =>
    cases e with
    | userRoleAssigned a =>
      obtain ⟨c, held, rfl⟩ := held_lists_apply h
      exact ⟨c, held, by simp [isOf, patch, RoleEvent.row?]⟩
    | userRoleUnassigned a =>
      obtain ⟨c, held, rfl⟩ := held_lists_apply h
      exact ⟨c, held, by simp [isOf, patch, RoleEvent.row?]⟩
    | _ => exact ⟨d, h, rfl⟩

theorem held_prune (h : w.Held (cache.prune now).2 d) : w.Held cache d := by
  cases w with
  | roles => exact (Option.filter_eq_some_iff.mp h).1
  | rows user => exact List.mem_of_mem_filter h

theorem not_held_clear : ¬ w.Held cache.clear d := by
  cases w with
  | roles => exact nofun
  | rows user => exact nofun

end Wanted

theorem Wanted.patched_append {κ : Type} {w : Wanted} (first second : List (Incident κ))
    (value : w.Value) :
    w.patched (first ++ second) value = w.patched second (w.patched first value) := by
  simp only [patched, List.filterMap_append, List.filter_append, List.foldl_append]

theorem Wanted.patched_applies {κ : Type} {w : Wanted} (e : RoleEvent) (value : w.Value) :
    w.patched [(.applies e : Incident κ)] value = if w.isOf e then w.patch e value else value := by
  by_cases of : w.isOf e <;> simp [patched, Incident.event?, of]

namespace World

variable {κ : Type} [DecidableEq κ] {k : κ} {w : World κ} {wanted : Wanted} {i : Incident κ}

/-- A read touches nothing but what was asked for. -/
theorem perform_service_frame :
    (perform k wanted.service w).2.moment = w.moment ∧
      (perform k wanted.service w).2.lifetimes = w.lifetimes := by
  cases fresh : wanted.fresh? (w.caches k) w.moment with
  | some value => simp [perform_fresh fresh]
  | none =>
    rw [perform_missing fresh]
    cases w.stored k wanted <;> cases wanted <;> exact ⟨rfl, rfl⟩

theorem moment_undergo : w.moment ≤ (w.undergo k i).moment := by
  cases i with
  | reads wanted => exact Nat.le_of_eq perform_service_frame.1.symm
  | passes time => exact Nat.le_add_right _ _
  | _ => exact Nat.le_refl _

theorem lifetimes_undergo : (w.undergo k i).lifetimes = w.lifetimes := by
  cases i with
  | reads wanted => exact perform_service_frame.2
  | _ => rfl

/-- What a cache holds after an incident was loaded by it, or was held before and lasts as long
as it did. -/
theorem held_undergo {d : Cached wanted.Value} (h : wanted.Held ((w.undergo k i).caches k) d) :
    (i = .reads wanted ∧ w.Loads k wanted d.value ∧
        d.expiresAt = Moment.deadline w.moment (wanted.lifetime (w.lifetimes k))) ∨
      ∃ c, wanted.Held (w.caches k) c ∧ d = ⟨wanted.patched [i] c.value, c.expiresAt⟩ := by
  cases i with
  | reads other =>
    simp only [undergo] at h
    cases fresh : other.fresh? (w.caches k) w.moment with
    | some value =>
      rw [perform_fresh fresh] at h
      exact .inr ⟨d, h, rfl⟩
    | none =>
      rw [perform_missing fresh] at h
      cases told : w.stored k other with
      | error fault =>
        rw [told] at h
        exact .inr ⟨d, by cases other <;> exact h, rfl⟩
      | ok value =>
        rw [told] at h
        simp only [setCache_caches] at h
        rcases Wanted.held_keep h with same | h
        · cases same
          exact .inl ⟨rfl, ⟨fresh, told⟩, rfl⟩
        · exact .inr ⟨d, h, rfl⟩
  | applies e =>
    rw [undergo, answer_caches, if_pos rfl] at h
    obtain ⟨c, held, rfl⟩ := Wanted.held_apply h
    exact .inr ⟨c, held, by rw [Wanted.patched_applies]⟩
  | clears =>
    rw [undergo, answer_caches, if_pos rfl] at h
    exact absurd h Wanted.not_held_clear
  | prunes =>
    rw [undergo, answer_caches, if_pos rfl] at h
    exact .inr ⟨d, Wanted.held_prune h, rfl⟩
  | passes time => exact .inr ⟨d, h, rfl⟩
  | changes surroundings => exact .inr ⟨d, h, rfl⟩

variable {incidents before since : List (Incident κ)}

theorem undergoAll_append :
    w.undergoAll k (before ++ since) = (w.undergoAll k before).undergoAll k since :=
  List.foldl_append

theorem moment_undergoAll :
    (w.undergoAll k before).moment ≤ (w.undergoAll k (before ++ since)).moment := by
  rw [undergoAll_append]
  generalize w.undergoAll k before = v
  induction since generalizing v with
  | nil => exact Nat.le_refl _
  | cons i rest ih => exact Nat.le_trans moment_undergo (ih _)

theorem lifetimes_undergoAll : (w.undergoAll k incidents).lifetimes = w.lifetimes := by
  induction incidents generalizing w with
  | nil => rfl
  | cons i rest ih => exact ih.trans lifetimes_undergo

/-- What a cache holds was loaded at some point and has been patched since. When it ends was
settled at that point. -/
theorem held_undergoAll (cold : w.caches k = .empty) {d : Cached wanted.Value}
    (h : wanted.Held ((w.undergoAll k incidents).caches k) d) :
    ∃ before after loaded, incidents = before ++ .reads wanted :: after ∧
      (w.undergoAll k before).Loads k wanted loaded ∧
      d = ⟨wanted.patched after loaded, Moment.deadline (w.undergoAll k before).moment
        (wanted.lifetime (w.lifetimes k))⟩ := by
  induction incidents using List.reverseRecOn generalizing d with
  | nil =>
    rw [show (w.undergoAll k []).caches k = .empty from cold] at h
    cases wanted <;> exact nomatch h
  | append_singleton rest i ih =>
    rw [undergoAll_append] at h
    rcases held_undergo (w := w.undergoAll k rest) h with ⟨rfl, loads, ends⟩ | ⟨c, held, rfl⟩
    · refine ⟨rest, [], d.value, rfl, loads, ?_⟩
      rw [lifetimes_undergoAll] at ends
      rw [← ends]
      rfl
    · obtain ⟨before, after, loaded, rfl, loads, rfl⟩ := ih held
      refine ⟨before, after ++ [i], loaded, by simp, loads, ?_⟩
      rw [Wanted.patched_append]

theorem lt_of_lt_deadline {start now : Moment} {lifetime : Nat} (le : start ≤ now)
    (lt : now < Moment.deadline start lifetime) :
    now < start + lifetime ∧ start + lifetime < Moment.bound := by
  unfold Moment.deadline at lt
  split at lt
  · next fits => exact ⟨lt, fits⟩
  · exact absurd lt (Nat.not_lt.mpr le)

theorem loads_of_missing {value : wanted.Value}
    (missing : wanted.fresh? (w.caches k) w.moment = none)
    (ok : (perform k wanted.service w).1 = .ok value) : w.Loads k wanted value := by
  refine ⟨missing, ?_⟩
  rw [perform_missing missing] at ok
  cases told : w.stored k wanted with
  | error fault =>
    rw [told] at ok
    cases ok
  | ok loaded =>
    rw [told] at ok
    exact ok

/-- Whatever happens, a value that is read through a cache was loaded within its lifetime. What
others changed without telling is seen one lifetime later at the latest. -/
theorem read_within_lifetime (cold : w.caches k = .empty) {value : wanted.Value}
    (ok : (perform k wanted.service (w.undergoAll k incidents)).1 = .ok value) :
    ∃ before after loaded, w.LoadedInTime k incidents wanted value before after loaded := by
  cases fresh : wanted.fresh? ((w.undergoAll k incidents).caches k)
      (w.undergoAll k incidents).moment with
  | none =>
    refine ⟨incidents, [], value, rfl, loads_of_missing fresh ok, rfl, .inl rfl, ?_⟩
    rintro past since rfl -
    exact List.prefix_append past since
  | some kept =>
    rw [perform_fresh fresh] at ok
    obtain ⟨c, held, rfl, lasts⟩ := Wanted.held_of_fresh fresh
    obtain ⟨before, after, loaded, rfl, loads, rfl⟩ := held_undergoAll cold held
    obtain ⟨within, fits⟩ := lt_of_lt_deadline moment_undergoAll lasts
    refine ⟨before, after ++ [.reads wanted], loaded, by simp, loads, ?_,
      .inr ⟨moment_undergoAll, within, fits⟩, ?_⟩
    · rw [Wanted.patched_append]
      exact (Except.ok.inj ok).symm
    · intro past since split old
      -- what is not all before the load goes on from there, and so is less than a lifetime old
      rcases List.prefix_or_prefix_of_prefix (List.prefix_append before _)
        (split ▸ List.prefix_append past since) with ⟨between, rfl⟩ | inside
      · exact absurd (Nat.lt_of_le_of_lt old within)
          (Nat.not_lt.mpr (Nat.add_le_add_right moment_undergoAll _))
      · exact inside

/-- Others store a row without telling. A list that was read before shows only the row that was
told, until a lifetime is over and the store is asked again. -/
theorem lost_row_shown_in_time :
    let user : UserId := ⟨.generated 9⟩
    let wanted : Wanted := .rows user
    let told : Assignment := ⟨⟨.generated 8⟩, ⟨.generated 0⟩, user, none, default⟩
    let lost : Assignment := ⟨⟨.generated 7⟩, ⟨.generated 1⟩, user, none, default⟩
    let w : World Party := { startingAt default 0 with lifetimes := fun _ => ⟨10, 10⟩ }
    let changed : List (Incident Party) :=
      [.reads wanted, .changes { w with store := ⟨[], [lost]⟩ }]
    let early := changed ++ [.passes 4, .applies (.userRoleAssigned told), .prunes, .passes 5]
    let late := early ++ [.passes 1]
    w.caches .main = .empty ∧
      (perform .main wanted.service (w.undergoAll .main early)).1 = .ok [told] ∧
      (perform .main wanted.service (w.undergoAll .main late)).1 = .ok [lost] ∧
      (∃ before after loaded,
        w.LoadedInTime .main early wanted [told] before after loaded) ∧
      ∃ before after loaded,
        w.LoadedInTime .main late wanted [lost] before after loaded ∧ changed <+: before := by
  intro user wanted told lost w changed early late
  have readEarly : (perform .main wanted.service (w.undergoAll .main early)).1 = .ok [told] := by
    decide +kernel
  have readLate : (perform .main wanted.service (w.undergoAll .main late)).1 = .ok [lost] := by
    decide +kernel
  have seen : ∃ before after loaded,
      w.LoadedInTime .main late wanted [lost] before after loaded :=
    read_within_lifetime rfl readLate
  obtain ⟨before, after, loaded, inTime⟩ := seen
  exact ⟨rfl, readEarly, readLate, read_within_lifetime rfl readEarly, before, after, loaded,
    inTime, inTime.seen changed _ rfl (by decide +kernel)⟩

end World

end Entitlement
