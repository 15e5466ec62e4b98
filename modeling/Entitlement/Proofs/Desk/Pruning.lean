import Entitlement.Proofs.Desk.Lifetimes
import Entitlement.Proofs.Entries

/-!
# A cache that is pruned

A cache is pruned while loads run on it, between any two of their calls. What is dropped was over
and would have been loaded anew, so all loads go on as they would without it: they ask the store
the same and return the same.
-/

set_option autoImplicit false

namespace Entitlement

inductive Pruning where
  | roles (now : Moment)
  | lists (now : Moment)
  | done (dropped : Nat)
  deriving DecidableEq, Repr

def Pruning.now? : Pruning → Option Moment
  | .roles now | .lists now => some now
  | .done _ => none

/-- What happens at one moment to a cache and those who use it. To clear a cache takes two turns,
one for each half. A load that asks the store is told what that has to say at the moment. -/
inductive Turn where
  | begins (wanted : Wanted)
  | proceeds (load : Nat) (store : (c : Call) → c.Answer)
  | applies (event : RoleEvent)
  | clearsRoles
  | clearsLists
  | passes (time : Nat)
  | beginsPruning
  | prunes (pruning : Nat)

def Turn.isPruning : Turn → Bool
  | .beginsPruning | .prunes _ => true
  | _ => false

structure Tended extends Desk where
  prunings : List Pruning
  asked : List (Nat × Call)

def Desk.answer (lifetimes : Lifetimes) (store : (c : Call) → c.Answer) (d : Desk) :
    (c : Call) → c.Answer
  | .lookupRoles => d.cache.roles.lookup d.moment
  | .installRoles version loaded =>
    (d.cache.roles.install d.moment lifetimes.roles version loaded).1
  | .lookupAssignments user => d.cache.lists.lookup user d.moment
  | .installAssignments user version loaded =>
    (d.cache.lists.install user d.moment lifetimes.assignments version loaded).1
  | c => store c

namespace Tended

def opened (moment : Moment) : Tended := ⟨⟨.empty, moment, []⟩, [], []⟩

def turn (lifetimes : Lifetimes) (t : Tended) : Turn → Tended
  | .begins wanted => { t with loads := t.loads ++ [⟨wanted, wanted.service.run⟩] }
  | .proceeds i store =>
    match t.loads[i]? with
    | some ⟨wanted, .call c next⟩ => { t with
        cache := c.recache lifetimes t.moment t.cache
        loads := t.loads.set i ⟨wanted, next (t.answer lifetimes store c)⟩
        asked := if c.port?.isSome then t.asked ++ [(i, c)] else t.asked }
    | _ => t
  | .applies event => { t with cache := t.cache.apply event }
  | .clearsRoles => { t with cache.roles := t.cache.roles.clear }
  | .clearsLists => { t with cache.lists := t.cache.lists.clear }
  | .passes time => { t with moment := t.moment + time }
  | .beginsPruning => { t with prunings := t.prunings ++ [.roles t.moment] }
  | .prunes i =>
    match t.prunings[i]? with
    | some (.roles now) => { t with
        cache.roles := (t.cache.prune now).2.roles
        prunings := t.prunings.set i (.lists now) }
    | some (.lists now) => { t with
        cache.lists := (t.cache.prune now).2.lists
        prunings := t.prunings.set i (.done (t.cache.prune now).1) }
    | _ => t

def turns (lifetimes : Lifetimes) (t : Tended) (turns : List Turn) : Tended :=
  turns.foldl (turn lifetimes) t

end Tended

theorem Cached.isFresh_of_le {α : Type} {c : Cached α} {past now : Moment} (le : past ≤ now)
    (fresh : c.isFresh now = true) : c.isFresh past = true :=
  decide_eq_true (Nat.lt_of_le_of_lt le (of_decide_eq_true fresh))

/-- What was dropped early would not count later. -/
theorem Cached.filter_isFresh {α : Type} {past now : Moment} (le : past ≤ now)
    (o : Option (Cached α)) :
    (o.filter fun c => c.isFresh past).filter (fun c => c.isFresh now) =
      o.filter fun c => c.isFresh now := by
  rw [Option.filter_filter]
  congr 1
  funext c
  cases fresh : c.isFresh now with
  | true => simp [isFresh_of_le le fresh]
  | false => simp

variable {e : RoleEvent} {past since now : Moment} {lifetime version : Nat}

namespace RoleSnapshot

variable {s t : RoleSnapshot} {loaded : List Role}

structure Alike (since : Moment) (s t : RoleSnapshot) : Prop where
  version : s.version = t.version
  fresh : ∀ now, since ≤ now → s.freshValue? now = t.freshValue? now

theorem freshValue?_eq :
    s.freshValue? now = (s.entry.filter fun c => c.isFresh now).map (·.value) := by
  unfold freshValue?
  cases s.entry with
  | none => rfl
  | some c => cases fresh : c.isFresh now <;> simp [Option.filter_some, fresh]

theorem freshValue?_apply :
    (s.apply e).freshValue? now = (s.freshValue? now).map (patch e) := by
  unfold freshValue? apply
  cases s.entry with
  | none => rfl
  | some c => by_cases fresh : now < c.expiresAt <;> simp [Cached.isFresh, fresh]

theorem freshValue?_prune (le : past ≤ now) :
    (s.prune past).freshValue? now = s.freshValue? now := by
  rw [freshValue?_eq, freshValue?_eq, prune, Cached.filter_isFresh le]

namespace Alike

theorem later {next : Moment} (h : Alike since s t) (le : since ≤ next) : Alike next s t :=
  ⟨h.version, fun now hnow => h.fresh now (Nat.le_trans le hnow)⟩

theorem lookup (h : Alike now s t) : s.lookup now = t.lookup now := by
  rw [RoleSnapshot.lookup, RoleSnapshot.lookup, h.fresh now (Nat.le_refl _), h.version]

theorem install (h : Alike now s t) :
    (s.install now lifetime version loaded).1 = (t.install now lifetime version loaded).1 ∧
      Alike now (s.install now lifetime version loaded).2
        (t.install now lifetime version loaded).2 := by
  unfold RoleSnapshot.install
  rw [h.fresh now (Nat.le_refl _), h.version]
  split
  · exact ⟨rfl, h⟩
  · split
    · exact ⟨rfl, rfl, fun _ _ => rfl⟩
    · exact ⟨rfl, h⟩

theorem apply (h : Alike since s t) : Alike since (s.apply e) (t.apply e) :=
  ⟨congrArg (· + 1) h.version, fun now le => by
    rw [freshValue?_apply, freshValue?_apply, h.fresh now le]⟩

theorem clear (h : Alike since s t) : Alike since s.clear t.clear :=
  ⟨congrArg (· + 1) h.version, fun _ _ => rfl⟩

theorem prune (h : Alike since s t) (le : past ≤ since) : Alike since (s.prune past) t :=
  ⟨h.version, fun now hnow => by
    rw [freshValue?_prune (Nat.le_trans le hnow), h.fresh now hnow]⟩

theorem symm (h : Alike since s t) : Alike since t s :=
  ⟨h.version.symm, fun now le => (h.fresh now le).symm⟩

end Alike

end RoleSnapshot

namespace UserLists

variable {l m : UserLists} {user u : UserId} {loaded : List Assignment}

def Single (l : UserLists) : Prop := (l.entries.map (·.1)).Nodup

structure Alike (since : Moment) (l m : UserLists) : Prop where
  version : l.version = m.version
  fresh : ∀ user now, since ≤ now → l.freshValue? user now = m.freshValue? user now

theorem freshValue?_eq : l.freshValue? user now =
    ((l.entries.lookup user).filter fun c => c.isFresh now).map (·.value) := by
  unfold freshValue?
  cases l.entries.lookup user with
  | none => rfl
  | some c => cases fresh : c.isFresh now <;> simp [Option.filter_some, fresh]

theorem lookup_apply : (l.apply e u).entries.lookup user =
    (l.entries.lookup user).map fun c =>
      if user = u then { c with value := patch e c.value } else c := by
  have told : (l.apply e u).entries = l.entries.map fun entry =>
      (entry.1, if entry.1 = u then { entry.2 with value := patch e entry.2.value } else entry.2) :=
    List.map_congr_left fun ⟨v, c⟩ _ => by by_cases h : v = u <;> simp [h]
  rw [told]
  exact lookup_map_snd (fun user c => if user = u then { c with value := patch e c.value } else c)
    user l.entries

theorem freshValue?_apply : (l.apply e u).freshValue? user now =
    (l.freshValue? user now).map fun rows => if user = u then patch e rows else rows := by
  unfold freshValue?
  rw [lookup_apply]
  cases l.entries.lookup user with
  | none => rfl
  | some c =>
    by_cases h : user = u <;> by_cases fresh : now < c.expiresAt <;>
      simp [Cached.isFresh, h, fresh]

theorem lookup_prune (single : l.Single) : (l.prune past).entries.lookup user =
    (l.entries.lookup user).filter fun c => c.isFresh past :=
  lookup_filter_snd (fun c : Cached (List Assignment) => c.isFresh past) user single

theorem freshValue?_prune (single : l.Single) (le : past ≤ now) :
    (l.prune past).freshValue? user now = l.freshValue? user now := by
  rw [freshValue?_eq, freshValue?_eq, lookup_prune single, Cached.filter_isFresh le]

namespace Alike

theorem later {next : Moment} (h : Alike since l m) (le : since ≤ next) : Alike next l m :=
  ⟨h.version, fun user now hnow => h.fresh user now (Nat.le_trans le hnow)⟩

theorem lookup (h : Alike now l m) : l.lookup user now = m.lookup user now := by
  rw [UserLists.lookup, UserLists.lookup, h.fresh user now (Nat.le_refl _), h.version]

theorem install (h : Alike now l m) :
    (l.install user now lifetime version loaded).1 =
        (m.install user now lifetime version loaded).1 ∧
      Alike now (l.install user now lifetime version loaded).2
        (m.install user now lifetime version loaded).2 := by
  unfold UserLists.install
  rw [h.fresh user now (Nat.le_refl _), h.version]
  split
  · exact ⟨rfl, h⟩
  · split
    · refine ⟨rfl, rfl, fun other next le => ?_⟩
      have same := h.fresh other next le
      rw [freshValue?_eq, freshValue?_eq] at same ⊢
      dsimp only
      rw [lookup_put, lookup_put]
      split
      · rfl
      · exact same
    · exact ⟨rfl, h⟩

theorem apply (h : Alike since l m) : Alike since (l.apply e u) (m.apply e u) :=
  ⟨congrArg (· + 1) h.version, fun user now le => by
    rw [freshValue?_apply, freshValue?_apply, h.fresh user now le]⟩

theorem clear (h : Alike since l m) : Alike since l.clear m.clear :=
  ⟨congrArg (· + 1) h.version, fun _ _ _ => rfl⟩

theorem prune (h : Alike since l m) (single : l.Single) (le : past ≤ since) :
    Alike since (l.prune past) m :=
  ⟨h.version, fun user now hnow => by
    rw [freshValue?_prune single (Nat.le_trans le hnow), h.fresh user now hnow]⟩

theorem symm (h : Alike since l m) : Alike since m l :=
  ⟨h.version.symm, fun user now le => (h.fresh user now le).symm⟩

end Alike

/-- What is dropped is counted by the users whose lists are over. -/
theorem Single.stale (h : l.Single) (now : Moment) : ∃ stale : List UserId, stale.Nodup ∧
    (∀ user, user ∈ stale ↔ ∃ c, l.entries.lookup user = some c ∧ c.expiresAt ≤ now) ∧
    l.entries.length - (l.prune now).entries.length = stale.length := by
  refine ⟨(l.entries.filter fun entry => !entry.2.isFresh now).map (·.1),
    List.Nodup.sublist (List.filter_sublist.map Prod.fst) h, fun user => ?_, ?_⟩
  · simp only [lookup_eq_some_iff_mem h, List.mem_map, List.mem_filter]
    constructor
    · rintro ⟨⟨_, c⟩, ⟨mem, stale⟩, rfl⟩
      exact ⟨c, mem, by simpa [Cached.isFresh] using stale⟩
    · rintro ⟨c, mem, stale⟩
      exact ⟨(user, c), ⟨mem, by simpa [Cached.isFresh] using stale⟩, rfl⟩
  · have all := List.length_eq_length_filter_add (l := l.entries) fun entry => entry.2.isFresh now
    rw [List.length_map, prune]
    dsimp only
    omega

theorem Single.apply (h : l.Single) : (l.apply e u).Single := by
  have keys : (l.apply e u).entries.map (·.1) = l.entries.map (·.1) := by
    rw [UserLists.apply, List.map_map]
    exact List.map_congr_left fun ⟨v, c⟩ _ => by by_cases h : v = u <;> simp [h]
  rwa [Single, keys]

theorem Single.install (h : l.Single) : (l.install user now lifetime version loaded).2.Single := by
  unfold UserLists.install
  split
  · exact h
  · split
    · exact nodup_put h
    · exact h

theorem Single.prune (h : l.Single) : (l.prune past).Single :=
  h.sublist (List.filter_sublist.map _)

end UserLists

structure Cache.Alike (since : Moment) (c d : Cache) : Prop where
  roles : c.roles.Alike since d.roles
  lists : c.lists.Alike since d.lists

namespace Cache

variable {c d : Cache} {lifetimes : Lifetimes} {call : Call}

theorem Alike.later {next : Moment} (h : Alike since c d) (le : since ≤ next) : Alike next c d :=
  ⟨h.roles.later le, h.lists.later le⟩

theorem Alike.apply (h : Alike since c d) (e : RoleEvent) :
    Alike since (c.apply e) (d.apply e) := by
  cases e with
  | userRoleAssigned a => exact ⟨h.roles, h.lists.apply⟩
  | userRoleUnassigned a => exact ⟨h.roles, h.lists.apply⟩
  | _ => exact ⟨h.roles.apply, h.lists⟩

theorem single_apply (h : c.lists.Single) (e : RoleEvent) : (c.apply e).lists.Single := by
  cases e with
  | userRoleAssigned a => exact h.apply
  | userRoleUnassigned a => exact h.apply
  | _ => exact h

theorem single_recache (h : c.lists.Single) : (call.recache lifetimes now c).lists.Single := by
  cases call with
  | installAssignments user version loaded => exact h.install
  | applyEvent e => exact single_apply h e
  | pruneCache => exact h.prune
  | clearCache => exact .nil
  | _ => exact h

/-- Whatever is called, caches that were alike stay so. -/
theorem Alike.recache (h : Alike now c d) (hc : c.lists.Single) (hd : d.lists.Single) :
    Alike now (call.recache lifetimes now c) (call.recache lifetimes now d) := by
  cases call with
  | installRoles version loaded => exact ⟨h.roles.install.2, h.lists⟩
  | installAssignments user version loaded => exact ⟨h.roles, h.lists.install.2⟩
  | applyEvent e => exact h.apply e
  | pruneCache =>
    have le := Nat.le_refl now
    exact ⟨((h.roles.prune le).symm.prune le).symm, ((h.lists.prune hc le).symm.prune hd le).symm⟩
  | clearCache => exact ⟨h.roles.clear, h.lists.clear⟩
  | _ => exact h

theorem Alike.answer {x y : Desk} {store : (c : Call) → c.Answer}
    (h : Alike x.moment x.cache y.cache) (same : x.moment = y.moment) :
    x.answer lifetimes store call = y.answer lifetimes store call := by
  obtain ⟨c, now, loads⟩ := x
  obtain ⟨d, _, others⟩ := y
  cases same
  cases call with
  | lookupRoles => exact h.roles.lookup
  | installRoles version loaded => exact h.roles.install.1
  | lookupAssignments user => exact h.lists.lookup
  | installAssignments user version loaded => exact h.lists.install.1
  | _ => rfl

end Cache

namespace Tended

variable {t u : Tended} {lifetimes : Lifetimes} {a : Turn}

structure Like (t u : Tended) : Prop where
  moment : t.moment = u.moment
  loads : t.loads = u.loads
  asked : t.asked = u.asked
  cache : t.cache.Alike t.moment u.cache
  single : t.cache.lists.Single
  single' : u.cache.lists.Single
  read : ∀ p ∈ t.prunings, ∀ now ∈ p.now?, now ≤ t.moment

/-- A pruning does nothing that shows. -/
theorem Like.prunes (h : t.Like u) (pruning : a.isPruning = true) :
    (t.turn lifetimes a).Like u := by
  cases a with
  | beginsPruning =>
    refine { h with read := fun p hp now hnow => ?_ }
    rcases List.mem_append.mp hp with hp | hp
    · exact h.read p hp now hnow
    · obtain rfl := List.mem_singleton.mp hp
      exact Nat.le_of_eq (Option.some.inj hnow).symm
  | prunes i =>
    unfold turn
    dsimp only
    split
    · next now due =>
      have le := h.read _ (List.mem_of_getElem? due) now rfl
      refine { h with
        cache := ⟨h.cache.roles.prune le, h.cache.lists⟩
        read := fun p hp => ?_ }
      rcases List.mem_or_eq_of_mem_set hp with hp | rfl
      · exact h.read p hp
      · exact fun _ hnow => Option.some.inj hnow ▸ le
    · next now due =>
      have le := h.read _ (List.mem_of_getElem? due) now rfl
      refine { h with
        cache := ⟨h.cache.roles, h.cache.lists.prune h.single le⟩
        single := h.single.prune
        read := fun p hp => ?_ }
      rcases List.mem_or_eq_of_mem_set hp with hp | rfl
      · exact h.read p hp
      · exact nofun
    · exact h
  | _ => cases pruning

theorem Like.turn (h : t.Like u) (other : a.isPruning = false) :
    (t.turn lifetimes a).Like (u.turn lifetimes a) := by
  cases a with
  | begins wanted => exact { h with loads := congrArg (· ++ _) h.loads }
  | proceeds i store =>
    unfold Tended.turn
    dsimp only
    rw [← h.loads]
    split
    · next wanted c next due =>
      have told : t.answer lifetimes store c = u.answer lifetimes store c := h.cache.answer h.moment
      exact {
        moment := h.moment
        loads := by rw [told]
        asked := by rw [h.asked]
        cache := h.moment ▸ h.cache.recache h.single h.single'
        single := Cache.single_recache h.single
        single' := Cache.single_recache h.single'
        read := h.read }
    · exact h
  | applies e => exact { h with
      cache := h.cache.apply e
      single := Cache.single_apply h.single e
      single' := Cache.single_apply h.single' e }
  | clearsRoles => exact { h with cache := ⟨h.cache.roles.clear, h.cache.lists⟩ }
  | clearsLists => exact { h with
      cache := ⟨h.cache.roles, h.cache.lists.clear⟩, single := .nil, single' := .nil }
  | passes time => exact { h with
      moment := congrArg (· + time) h.moment
      cache := h.cache.later (Nat.le_add_right _ _)
      read := fun p hp now hnow => Nat.le_trans (h.read p hp now hnow) (Nat.le_add_right _ _) }
  | beginsPruning => cases other
  | prunes i => cases other

theorem Like.turns (h : t.Like u) (all : List Turn) :
    (t.turns lifetimes all).Like (u.turns lifetimes (all.filter fun a => !a.isPruning)) := by
  induction all generalizing t u with
  | nil => exact h
  | cons a rest ih =>
    cases pruning : a.isPruning with
    | true =>
      rw [List.filter_cons_of_neg (by simp [pruning])]
      exact ih (h.prunes pruning)
    | false =>
      rw [List.filter_cons_of_pos (by simp [pruning])]
      exact ih (h.turn pruning)

theorem like_opened (moment : Moment) : (opened moment).Like (opened moment) :=
  ⟨rfl, rfl, rfl, ⟨⟨rfl, fun _ _ => rfl⟩, ⟨rfl, fun _ _ _ => rfl⟩⟩, .nil, .nil, nofun⟩

structure PrunesRoles (t next : Tended) (now : Moment) : Prop where
  read : now ≤ t.moment
  lists : next.cache.lists = t.cache.lists
  version : next.cache.roles.version = t.cache.roles.version
  entry : next.cache.roles.entry = t.cache.roles.entry.filter fun c => c.isFresh now

structure PrunesLists (t next : Tended) (now : Moment) (i : Nat) : Prop where
  read : now ≤ t.moment
  roles : next.cache.roles = t.cache.roles
  version : next.cache.lists.version = t.cache.lists.version
  entries : ∀ user, next.cache.lists.entries.lookup user =
    (t.cache.lists.entries.lookup user).filter fun c => c.isFresh now
  told : ∃ stale : List UserId, stale.Nodup ∧
    (∀ user, user ∈ stale ↔ ∃ c, t.cache.lists.entries.lookup user = some c ∧ c.expiresAt ≤ now) ∧
    next.prunings[i]? = some (.done stale.length)

theorem Like.prunesRoles (h : t.Like u) {i : Nat} {now : Moment}
    (due : t.prunings[i]? = some (.roles now)) :
    t.PrunesRoles (t.turn lifetimes (.prunes i)) now := by
  have le := h.read _ (List.mem_of_getElem? due) now rfl
  rw [Tended.turn, due]
  exact ⟨le, rfl, rfl, rfl⟩

theorem Like.prunesLists (h : t.Like u) {i : Nat} {now : Moment}
    (due : t.prunings[i]? = some (.lists now)) :
    t.PrunesLists (t.turn lifetimes (.prunes i)) now i := by
  have le := h.read _ (List.mem_of_getElem? due) now rfl
  obtain ⟨stale, nodup, mem, counted⟩ := h.single.stale now
  have told : (t.cache.prune now).1 = stale.length := counted
  rw [Tended.turn, due]
  exact ⟨le, rfl, rfl, fun user => UserLists.lookup_prune h.single, stale, nodup, mem, by
    rw [← told, List.getElem?_set_self (List.getElem?_eq_some_iff.mp due).1]⟩

/-- A pruning that nothing interrupts prunes the cache as it stands. -/
theorem prunes_at_once (t : Tended) (lifetimes : Lifetimes) :
    let i := t.prunings.length
    let pruned := t.turns lifetimes [.beginsPruning, .prunes i, .prunes i]
    pruned.cache = (t.cache.prune t.moment).2 ∧
      pruned.prunings = t.prunings ++ [.done (t.cache.prune t.moment).1] := by
  simp [turns, turn, Cache.prune]

/-- Prunings at any moments leave what the loads ask and return as it is without them. Each turn
of a pruning leaves what is fresh, and the last tells how many lists were over. -/
theorem prunings_unseen (lifetimes : Lifetimes) (moment : Moment) (all : List Turn) :
    let pruned := (opened moment).turns lifetimes all
    let plain := (opened moment).turns lifetimes (all.filter fun a => !a.isPruning)
    pruned.loads = plain.loads ∧ pruned.asked = plain.asked ∧
      (∀ i now, pruned.prunings[i]? = some (.roles now) →
        pruned.PrunesRoles (pruned.turn lifetimes (.prunes i)) now) ∧
      ∀ i now, pruned.prunings[i]? = some (.lists now) →
        pruned.PrunesLists (pruned.turn lifetimes (.prunes i)) now i := by
  intro pruned plain
  have like : pruned.Like plain := (like_opened moment).turns all
  exact ⟨like.loads, like.asked, fun i now => like.prunesRoles, fun i now => like.prunesLists⟩

/-- A list that is over is dropped while a load that looked at it reads the rows anew. -/
theorem prunings_unseen_reloading :
    let user : UserId := ⟨.generated 0⟩
    let store (c : Call) : c.Answer := (World.answer () c (.startingAt default 0)).1
    let installs (i : Nat) : List Turn := List.replicate 3 (.proceeds i store)
    let t := (opened 0).turns ⟨0, 1⟩ (.begins (.rows user) :: installs 0 ++
      [.passes 1, .begins (.rows user), .proceeds 1 store, .beginsPruning, .prunes 0])
    let next := t.turn ⟨0, 1⟩ (.prunes 0)
    let last := next.turns ⟨0, 1⟩ (installs 1)
    t.PrunesLists next 1 0 ∧ next.prunings = [.done 1] ∧ next.cache.lists.entries = [] ∧
      last.cache.lists.entries = [(user, ⟨[], 2⟩)] ∧
      last.asked = [(0, .assignmentsOfUser user), (1, .assignmentsOfUser user)] :=
  ⟨(prunings_unseen ⟨0, 1⟩ 0 _).2.2.2 0 1 rfl, rfl, rfl, by decide +kernel, rfl⟩

end Tended

end Entitlement
