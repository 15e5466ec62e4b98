import Entitlement.Proofs.Crowd.Answers
import Entitlement.Proofs.Sync.Follows

/-!
# A cache and the loads that run on it

A load looks at the cache and notes the version of its half, reads the store, and offers
what it has read. Any number of loads run side by side, one call at a time, while the
cache is cleared and pruned and time passes. What is asked of cached values stays true
if all that is read has it: a load that was overtaken by a change of its half no longer
counts.
-/

set_option autoImplicit false

namespace Entitlement

inductive Wanted where
  | roles
  | rows (user : UserId)

namespace Wanted

@[reducible] def Value : Wanted → Type
  | .roles => List Role
  | .rows _ => List Assignment

def service : (w : Wanted) → Service w.Value
  | .roles => Service.cachedRoles
  | .rows user => Service.cachedAssignments user

def reading : (w : Wanted) → Nat → Service w.Value
  | .roles, version => do
    let loaded ← Service.listRoles
    Service.ofProcedure (.ask (.installRoles version loaded))
  | .rows user, version => do
    let loaded ← Service.assignmentsOfUser user
    Service.ofProcedure (.ask (.installAssignments user version loaded))

def holding : (w : Wanted) → Nat → w.Value → Service w.Value
  | .roles, version, loaded => Service.ofProcedure (.ask (.installRoles version loaded))
  | .rows user, version, loaded =>
    Service.ofProcedure (.ask (.installAssignments user version loaded))

def version (cache : Cache) : Wanted → Nat
  | .roles => cache.roles.version
  | .rows _ => cache.lists.version

def isOf (e : RoleEvent) : Wanted → Bool
  | .roles => e.row?.isNone
  | .rows _ => e.row?.isSome

def Meets (R : List Role → Prop) (L : UserId → List Assignment → Prop) :
    (w : Wanted) → w.Value → Prop
  | .roles, value => R value
  | .rows user, value => L user value

end Wanted

structure Load where
  wanted : Wanted
  rest : Procedure (Except Fault wanted.Value)

def Load.HasLooked (l : Load) : Prop := l.rest ≠ l.wanted.service.run

structure Desk where
  cache : Cache
  moment : Moment
  loads : List Load

namespace Desk

def Tells (lifetimes : Lifetimes) (returns : Exchange → Prop) (d : Desk) : Exchange → Prop
  | ⟨.lookupRoles, r⟩ => r = d.cache.roles.lookup d.moment
  | ⟨.installRoles version loaded, r⟩ =>
    r = (d.cache.roles.install d.moment lifetimes.roles version loaded).1
  | ⟨.lookupAssignments user, r⟩ => r = d.cache.lists.lookup user d.moment
  | ⟨.installAssignments user version loaded, r⟩ =>
    r = (d.cache.lists.install user d.moment lifetimes.assignments version loaded).1
  | x => returns x

/-- A step in which no event is applied. To clear or to prune a cache takes a step for each of
its halves, and what is pruned was over at a moment that may have passed since. -/
inductive Quiet (lifetimes : Lifetimes) (returns : Exchange → Prop) : Desk → Desk → Prop
  | begins {d : Desk} (wanted : Wanted) :
      Quiet lifetimes returns d { d with loads := d.loads ++ [⟨wanted, wanted.service.run⟩] }
  | proceeds {d : Desk} {i : Nat} {wanted : Wanted} {c : Call} {r : c.Answer}
      {next : c.Answer → Procedure (Except Fault wanted.Value)}
      (due : d.loads[i]? = some ⟨wanted, .call c next⟩) (told : d.Tells lifetimes returns ⟨c, r⟩) :
      Quiet lifetimes returns d { d with
        cache := c.recache lifetimes d.moment d.cache
        loads := d.loads.set i ⟨wanted, next r⟩ }
  | clearsRoles {d : Desk} : Quiet lifetimes returns d { d with cache.roles := d.cache.roles.clear }
  | clearsLists {d : Desk} : Quiet lifetimes returns d { d with cache.lists := d.cache.lists.clear }
  | prunesRoles {d : Desk} {now : Moment} (past : now ≤ d.moment) :
      Quiet lifetimes returns d { d with cache.roles := d.cache.roles.prune now }
  | prunesLists {d : Desk} {now : Moment} (past : now ≤ d.moment) :
      Quiet lifetimes returns d { d with cache.lists := d.cache.lists.prune now }
  | passes {d : Desk} {moment : Moment} (later : d.moment ≤ moment) :
      Quiet lifetimes returns d { d with moment }

def apply (e : RoleEvent) (d : Desk) : Desk := { d with cache := d.cache.apply e }

end Desk

section

variable {lifetimes : Lifetimes} {returns : Exchange → Prop} {d d' : Desk} {w : Wanted} {c : Call}
  {e : RoleEvent} {now : Moment} {cache : Cache}

theorem Wanted.version_apply : w.version (cache.apply e) =
    w.version cache + if w.isOf e then 1 else 0 := by
  cases w <;> cases e <;> rfl

theorem RoleSnapshot.version_install {s : RoleSnapshot} {lifetime version : Nat}
    {loaded : List Role} : (s.install now lifetime version loaded).2.version = s.version := by
  unfold install
  split
  · rfl
  · split <;> rfl

theorem UserLists.version_install {l : UserLists} {user : UserId} {lifetime version : Nat}
    {loaded : List Assignment} :
    (l.install user now lifetime version loaded).2.version = l.version := by
  unfold install
  split
  · rfl
  · split <;> rfl

theorem Wanted.version_recache : w.version cache ≤ w.version (c.recache lifetimes now cache) := by
  cases c with
  | installRoles version loaded =>
    cases w with
    | roles => exact Nat.le_of_eq RoleSnapshot.version_install.symm
    | rows user => exact Nat.le_refl _
  | installAssignments user version loaded =>
    cases w with
    | roles => exact Nat.le_refl _
    | rows user => exact Nat.le_of_eq UserLists.version_install.symm
  | applyEvent e => exact version_apply ▸ Nat.le_add_right _ _
  | clearCache => cases w <;> exact Nat.le_succ _
  | _ => cases w <;> exact Nat.le_refl _

theorem Desk.Quiet.version_le (step : Quiet lifetimes returns d d') (w : Wanted) :
    w.version d.cache ≤ w.version d'.cache := by
  cases step with
  | proceeds due told => exact Wanted.version_recache
  | clearsRoles =>
    cases w with
    | roles => exact Nat.le_succ _
    | rows user => exact Nat.le_refl _
  | clearsLists =>
    cases w with
    | roles => exact Nat.le_refl _
    | rows user => exact Nat.le_succ _
  | _ => cases w <;> exact Nat.le_refl _

end

section

variable (R : List Role → Prop) (L : UserId → List Assignment → Prop)

structure Cache.Holds (cache : Cache) : Prop where
  snapshot : ∀ c, cache.roles.entry = some c → R c.value
  lists : ∀ user c, (user, c) ∈ cache.lists.entries → L user c.value

inductive Load.Stands (cache : Cache) : Load → Prop
  | begun (wanted : Wanted) : Stands cache ⟨wanted, wanted.service.run⟩
  | reading {wanted : Wanted} {version : Nat} (le : version ≤ wanted.version cache) :
      Stands cache ⟨wanted, (wanted.reading version).run⟩
  | holding {wanted : Wanted} {version : Nat} {loaded : wanted.Value}
      (le : version ≤ wanted.version cache)
      (current : version = wanted.version cache → wanted.Meets R L loaded) :
      Stands cache ⟨wanted, (wanted.holding version loaded).run⟩
  | finished {w : Wanted} (r : Except Fault w.Value) : Stands cache ⟨w, .done r⟩

structure Desk.Upholds (d : Desk) : Prop where
  cache : d.cache.Holds R L
  loads : ∀ l ∈ d.loads, l.Stands R L d.cache

structure Honest (returns : Exchange → Prop) : Prop where
  roles : ∀ roles, returns ⟨.listRoles, .ok roles⟩ → R roles
  rows : ∀ user rows, returns ⟨.assignmentsOfUser user, .ok rows⟩ → L user rows

end

variable {R R' : List Role → Prop} {L L' : UserId → List Assignment → Prop} {cache cache' : Cache}
  {lifetimes : Lifetimes} {returns : Exchange → Prop} {d d' : Desk} {l : Load}

/-- A load keeps its place when its half changes, and when nothing more is asked of what was read
at the same version. -/
theorem Load.Stands.mono (h : l.Stands R L cache)
    (later : l.wanted.version cache < l.wanted.version cache' ∨
      l.wanted.version cache = l.wanted.version cache' ∧
        ∀ v, l.wanted.Meets R L v → l.wanted.Meets R' L' v) : l.Stands R' L' cache' := by
  have grown : l.wanted.version cache ≤ l.wanted.version cache' := by
    rcases later with lt | ⟨same, -⟩
    · exact Nat.le_of_lt lt
    · exact Nat.le_of_eq same
  cases h with
  | begun wanted => exact .begun wanted
  | reading le => exact .reading (Nat.le_trans le grown)
  | @holding wanted version loaded le current =>
    refine .holding (Nat.le_trans le grown) fun e => ?_
    rcases later with lt | ⟨same, meets⟩
    · exact absurd (Nat.lt_of_le_of_lt le lt) (e ▸ Nat.lt_irrefl _)
    · exact meets loaded (current (e.trans same.symm))
  | finished r => exact .finished r

theorem Cache.Holds.installRoles (h : cache.Holds R L) {now : Moment} {lifetime version : Nat}
    {loaded : List Role} (current : version = cache.roles.version → R loaded) :
    ({ cache with roles := (cache.roles.install now lifetime version loaded).2 } : Cache).Holds
      R L := by
  refine ⟨fun c hc => ?_, h.lists⟩
  simp only [RoleSnapshot.install] at hc
  split at hc
  · exact h.snapshot c hc
  · split at hc
    · next same =>
      obtain rfl := Option.some.inj hc
      exact current same.symm
    · exact h.snapshot c hc

theorem Cache.Holds.installAssignments (h : cache.Holds R L) {now : Moment} {user : UserId}
    {lifetime version : Nat} {loaded : List Assignment}
    (current : version = cache.lists.version → L user loaded) :
    ({ cache with lists := (cache.lists.install user now lifetime version loaded).2 } :
      Cache).Holds R L := by
  refine ⟨h.snapshot, fun u c hc => ?_⟩
  simp only [UserLists.install] at hc
  split at hc
  · exact h.lists u c hc
  · split at hc
    · next same =>
      rcases UserLists.mem_of_mem_put hc with ⟨rfl, rfl⟩ | hc
      · exact current same.symm
      · exact h.lists u c hc
    · exact h.lists u c hc

theorem RoleSnapshot.version_of_missing {s : RoleSnapshot} {now : Moment} {version : Nat}
    (h : .missing version = s.lookup now) : version = s.version := by
  unfold lookup at h
  split at h
  · cases h
  · exact Lookup.missing.inj h

theorem UserLists.version_of_missing {lists : UserLists} {user : UserId} {now : Moment}
    {version : Nat} (h : .missing version = lists.lookup user now) : version = lists.version := by
  unfold lookup at h
  split at h
  · cases h
  · exact Lookup.missing.inj h

/-- What the next call of a load makes of the cache and of the load. -/
theorem Load.Stands.proceed {wanted : Wanted} {c : Call} {r : c.Answer}
    {next : c.Answer → Procedure (Except Fault wanted.Value)}
    (stands : Load.Stands R L d.cache ⟨wanted, .call c next⟩) (holds : d.cache.Holds R L)
    (honest : Honest R L returns) (told : d.Tells lifetimes returns ⟨c, r⟩) :
    (c.recache lifetimes d.moment d.cache).Holds R L ∧
      (∀ w : Wanted, w.version d.cache = w.version (c.recache lifetimes d.moment d.cache)) ∧
      Load.Stands R L d.cache ⟨wanted, next r⟩ := by
  generalize hl : (⟨wanted, .call c next⟩ : Load) = l at stands
  cases stands with
  | begun w =>
    cases w with
    | roles =>
      cases hl
      refine ⟨holds, fun _ => rfl, ?_⟩
      cases r with
      | fresh roles => exact .finished (w := .roles) (.ok roles)
      | missing version =>
        show Load.Stands R L d.cache ⟨.roles, (Wanted.roles.reading version).run⟩
        exact .reading (Nat.le_of_eq (RoleSnapshot.version_of_missing told))
    | rows user =>
      cases hl
      refine ⟨holds, fun _ => rfl, ?_⟩
      cases r with
      | fresh rows => exact .finished (w := .rows user) (.ok rows)
      | missing version =>
        show Load.Stands R L d.cache ⟨.rows user, ((Wanted.rows user).reading version).run⟩
        exact .reading (Nat.le_of_eq (UserLists.version_of_missing told))
  | @reading w version le =>
    cases w with
    | roles =>
      cases hl
      refine ⟨holds, fun _ => rfl, ?_⟩
      cases r with
      | error fault => exact .finished (.error fault)
      | ok loaded =>
        show Load.Stands R L d.cache ⟨.roles, (Wanted.roles.holding version loaded).run⟩
        exact .holding le fun _ => honest.roles loaded told
    | rows user =>
      cases hl
      refine ⟨holds, fun _ => rfl, ?_⟩
      cases r with
      | error fault => exact .finished (.error fault)
      | ok loaded =>
        show Load.Stands R L d.cache ⟨.rows user, ((Wanted.rows user).holding version loaded).run⟩
        exact .holding le fun _ => honest.rows user loaded told
  | @holding w version loaded le current =>
    cases w with
    | roles =>
      cases hl
      refine ⟨holds.installRoles current, fun w => ?_, .finished (w := .roles) (.ok r)⟩
      cases w with
      | roles => exact RoleSnapshot.version_install.symm
      | rows user => rfl
    | rows user =>
      cases hl
      refine ⟨holds.installAssignments current, fun w => ?_, .finished (w := .rows user) (.ok r)⟩
      cases w with
      | roles => rfl
      | rows other => exact UserLists.version_install.symm
  | finished r => cases hl

/-- A step without an event keeps what is asked if all that is read has it. -/
theorem Desk.Upholds.quiet (h : d.Upholds R L) (honest : Honest R L returns)
    (step : Quiet lifetimes returns d d') : d'.Upholds R L := by
  cases step with
  | begins wanted =>
    refine ⟨h.cache, fun l hl => ?_⟩
    rcases List.mem_append.mp hl with hl | hl
    · exact h.loads l hl
    · rw [List.mem_singleton.mp hl]
      exact .begun wanted
  | proceeds due told =>
    obtain ⟨holds, same, stands⟩ :=
      (h.loads _ (List.mem_of_getElem? due)).proceed h.cache honest told
    refine ⟨holds, fun l hl => ?_⟩
    rcases List.mem_or_eq_of_mem_set hl with hl | rfl
    · exact (h.loads l hl).mono (.inr ⟨same _, fun _ => id⟩)
    · exact stands.mono (.inr ⟨same _, fun _ => id⟩)
  | clearsRoles =>
    refine ⟨⟨by simp [RoleSnapshot.clear], h.cache.lists⟩, fun l hl => (h.loads l hl).mono ?_⟩
    cases l.wanted with
    | roles => exact .inl (Nat.lt_succ_self _)
    | rows user => exact .inr ⟨rfl, fun _ => id⟩
  | clearsLists =>
    refine ⟨⟨h.cache.snapshot, by simp [UserLists.clear]⟩, fun l hl => (h.loads l hl).mono ?_⟩
    cases l.wanted with
    | roles => exact .inr ⟨rfl, fun _ => id⟩
    | rows user => exact .inl (Nat.lt_succ_self _)
  | prunesRoles past =>
    refine ⟨⟨fun c hc => h.cache.snapshot c (Option.filter_eq_some_iff.mp hc).1, h.cache.lists⟩,
      fun l hl => (h.loads l hl).mono (.inr ⟨?_, fun _ => id⟩)⟩
    cases l.wanted <;> rfl
  | prunesLists past =>
    refine ⟨⟨h.cache.snapshot, fun u c hc => h.cache.lists u c (List.mem_of_mem_filter hc)⟩,
      fun l hl => (h.loads l hl).mono (.inr ⟨?_, fun _ => id⟩)⟩
    cases l.wanted <;> rfl
  | passes later => exact ⟨h.cache, h.loads⟩

/-- An event makes the loads of its half stale, and what it makes of the cached values is what
counts from then on. -/
theorem Desk.Upholds.apply {e : RoleEvent} (h : d.Upholds R L)
    (hR : ∀ roles, R roles → R' (RoleSnapshot.patch e roles))
    (hL : ∀ user rows after, L user rows → UserLists.Patched e user rows after → L' user after) :
    (d.apply e).Upholds R' L' := by
  refine ⟨⟨fun c hc => ?_, fun user c hc => ?_⟩, fun l hl => (h.loads l hl).mono ?_⟩
  · rw [Desk.apply, Cache.apply_entry] at hc
    obtain ⟨c₀, hc₀, rfl⟩ := Option.map_eq_some_iff.mp hc
    exact hR _ (h.cache.snapshot c₀ hc₀)
  · obtain ⟨c₀, hc₀, patched⟩ := Cache.mem_apply_lists hc
    exact hL user _ _ (h.cache.lists user c₀ hc₀) patched
  · have grown : l.wanted.version (d.apply e).cache =
        l.wanted.version d.cache + if l.wanted.isOf e then 1 else 0 := Wanted.version_apply
    rw [grown]
    generalize l.wanted = w
    cases hof : w.isOf e with
    | true => exact .inl (Nat.lt_succ_self _)
    | false =>
      refine .inr ⟨rfl, fun v hv => ?_⟩
      -- An event of the other half leaves the values of this one as they are.
      cases w with
      | roles =>
        have kept : RoleSnapshot.patch e v = v := by
          cases e <;> first | rfl | cases hof
        exact kept ▸ hR v hv
      | rows user =>
        refine hL user v v hv (.inl ⟨?_, fun a ha => ?_⟩)
        · cases e <;> first | rfl | cases hof
        · rw [Wanted.isOf, ha] at hof
          cases hof

theorem Desk.Upholds.mono (h : d.Upholds R L) (hR : ∀ roles, R roles → R' roles)
    (hL : ∀ user rows, L user rows → L' user rows) : d.Upholds R' L' := by
  refine ⟨⟨fun c hc => hR _ (h.cache.snapshot c hc), fun u c hc => hL u _ (h.cache.lists u c hc)⟩,
    fun l hl => (h.loads l hl).mono (.inr ⟨rfl, fun v hv => ?_⟩)⟩
  generalize l.wanted = w at v hv ⊢
  cases w with
  | roles => exact hR v hv
  | rows user => exact hL user v hv

inductive Desk.Overtakes (d : Desk) : Wanted → Desk → Prop
  | applied {w : Wanted} {e : RoleEvent} (of : w.isOf e = true) : Overtakes d w (d.apply e)
  | clearedRoles : Overtakes d .roles { d with cache.roles := d.cache.roles.clear }
  | clearedLists {user : UserId} :
      Overtakes d (.rows user) { d with cache.lists := d.cache.lists.clear }

inductive Load.Overtaken (cache : Cache) : Load → Prop
  | reading {wanted : Wanted} {version : Nat} (past : version < wanted.version cache) :
      Overtaken cache ⟨wanted, (wanted.reading version).run⟩
  | holding {wanted : Wanted} {version : Nat} {loaded : wanted.Value}
      (past : version < wanted.version cache) :
      Overtaken cache ⟨wanted, (wanted.holding version loaded).run⟩
  | finished {w : Wanted} (r : Except Fault w.Value) : Overtaken cache ⟨w, .done r⟩

def Desk.Idles (lifetimes : Lifetimes) (d : Desk) (i : Nat) : Prop :=
  ∀ wanted c next, d.loads[i]? = some ⟨wanted, .call c next⟩ →
    c.recache lifetimes d.moment d.cache = d.cache

theorem Desk.Overtakes.version_lt {w : Wanted} (h : d.Overtakes w d') :
    w.version d.cache < w.version d'.cache := by
  cases h with
  | @applied _ e of =>
    have grown : w.version (d.apply e).cache = w.version d.cache + if w.isOf e then 1 else 0 :=
      Wanted.version_apply
    rw [grown, if_pos of]
    exact Nat.lt_succ_self _
  | clearedRoles => exact Nat.lt_succ_self _
  | clearedLists => exact Nat.lt_succ_self _

theorem Desk.Overtakes.loads {w : Wanted} (h : d.Overtakes w d') : d'.loads = d.loads := by
  cases h <;> rfl

theorem Load.Stands.overtaken (h : l.Stands R L cache) (looked : l.HasLooked)
    (lt : l.wanted.version cache < l.wanted.version cache') : l.Overtaken cache' := by
  cases h with
  | begun wanted => exact absurd rfl looked
  | reading le => exact .reading (Nat.lt_of_le_of_lt le lt)
  | holding le _ => exact .holding (Nat.lt_of_le_of_lt le lt)
  | finished r => exact .finished r

theorem Load.Overtaken.mono (h : l.Overtaken cache)
    (le : l.wanted.version cache ≤ l.wanted.version cache') : l.Overtaken cache' := by
  cases h with
  | reading past => exact .reading (Nat.lt_of_lt_of_le past le)
  | holding past => exact .holding (Nat.lt_of_lt_of_le past le)
  | finished r => exact .finished r

theorem RoleSnapshot.install_past {s : RoleSnapshot} {now : Moment} {lifetime version : Nat}
    {loaded : List Role} (past : version < s.version) :
    (s.install now lifetime version loaded).2 = s := by
  unfold install
  split
  · rfl
  · rw [if_neg (Nat.ne_of_gt past)]

theorem UserLists.install_past {lists : UserLists} {user : UserId} {now : Moment}
    {lifetime version : Nat} {loaded : List Assignment} (past : version < lists.version) :
    (lists.install user now lifetime version loaded).2 = lists := by
  unfold install
  split
  · rfl
  · rw [if_neg (Nat.ne_of_gt past)]

/-- A load that was overtaken does nothing more to the cache. -/
theorem Load.Overtaken.proceed {wanted : Wanted} {c : Call} {now : Moment}
    {next : c.Answer → Procedure (Except Fault wanted.Value)}
    (h : Load.Overtaken cache ⟨wanted, .call c next⟩) :
    c.recache lifetimes now cache = cache ∧
      ∀ r, Load.Overtaken cache ⟨wanted, next r⟩ := by
  generalize hl : (⟨wanted, .call c next⟩ : Load) = l at h
  cases h with
  | @reading w version past =>
    cases w with
    | roles =>
      cases hl
      refine ⟨rfl, fun r => ?_⟩
      cases r with
      | error fault => exact .finished (w := .roles) (.error fault)
      | ok loaded =>
        show Load.Overtaken cache ⟨.roles, (Wanted.roles.holding version loaded).run⟩
        exact .holding past
    | rows user =>
      cases hl
      refine ⟨rfl, fun r => ?_⟩
      cases r with
      | error fault => exact .finished (w := .rows user) (.error fault)
      | ok loaded =>
        show Load.Overtaken cache ⟨.rows user, ((Wanted.rows user).holding version loaded).run⟩
        exact .holding past
  | @holding w version loaded past =>
    cases w with
    | roles =>
      cases hl
      refine ⟨?_, fun r => .finished (w := .roles) (.ok r)⟩
      rw [Call.recache, RoleSnapshot.install_past past]
    | rows user =>
      cases hl
      refine ⟨?_, fun r => .finished (w := .rows user) (.ok r)⟩
      rw [Call.recache, UserLists.install_past past]
  | finished r => cases hl

theorem Desk.idles_of_overtaken {i : Nat} (h : ∃ l, d.loads[i]? = some l ∧ l.Overtaken d.cache) :
    d.Idles lifetimes i := by
  obtain ⟨l, hl, overtaken⟩ := h
  intro wanted c next due
  obtain rfl := Option.some.inj (hl.symm.trans due)
  exact overtaken.proceed.1

theorem Desk.Quiet.overtaken {i : Nat} (step : Quiet lifetimes returns d d')
    (h : ∃ l, d.loads[i]? = some l ∧ l.Overtaken d.cache) :
    ∃ l, d'.loads[i]? = some l ∧ l.Overtaken d'.cache := by
  obtain ⟨l, hl, overtaken⟩ := h
  have later := overtaken.mono (step.version_le l.wanted)
  cases step with
  | begins wanted =>
    exact ⟨l, (List.getElem?_append_left (List.getElem?_eq_some_iff.mp hl).1).trans hl, later⟩
  | @proceeds j wanted c r next due told =>
    by_cases hj : j = i
    · obtain rfl := hj
      obtain rfl := Option.some.inj (hl.symm.trans due)
      obtain ⟨same, rest⟩ := overtaken.proceed
      refine ⟨_, List.getElem?_set_self (List.getElem?_eq_some_iff.mp hl).1, ?_⟩
      rw [same]
      exact rest r
    · exact ⟨l, (List.getElem?_set_ne hj).trans hl, later⟩
  | _ => exact ⟨l, hl, later⟩

end Entitlement
