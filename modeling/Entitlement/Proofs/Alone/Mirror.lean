import Mathlib.Data.List.Forall2
import Entitlement.Proofs.Sync.Follows

/-!
# The cache of a service that works alone

When nobody else writes, the snapshot holds the stored roles in their order, each with a
time of last use that trails behind the stored one, and the lists lead to the stored rows
with nothing waiting. Every move of the service keeps that.
-/

set_option autoImplicit false

namespace Entitlement

structure Role.Trails (late : Instant → Instant → Prop) (r stored : Role) : Prop where
  definition : r.definition = stored.definition
  used : late r.lastUsedAt stored.lastUsedAt

variable {late : Instant → Instant → Prop} {role r s : Role} {roles stored : List Role}

namespace Role.Trails

theorem id (h : Trails late r s) : r.id = s.id :=
  show r.definition.id = s.definition.id from congrArg Role.id h.definition

theorem updatedAt (h : Trails late r s) : r.updatedAt = s.updatedAt :=
  show r.definition.updatedAt = s.definition.updatedAt from congrArg Role.updatedAt h.definition

variable (h : List.Forall₂ (Trails late) roles stored)

include h

theorem map_eq {α : Type} (f : Role → α) (hf : ∀ r : Role, f r.definition = f r) :
    roles.map f = stored.map f := by
  induction h with
  | nil => rfl
  | cons head _ ih =>
    rw [List.map_cons, List.map_cons, ih, ← hf, head.definition, hf]

theorem filter {p q : Role → Bool} (hpq : ∀ s ∈ stored, ∀ r, Trails late r s → p r = q s) :
    List.Forall₂ (Trails late) (roles.filter p) (stored.filter q) := by
  induction h with
  | nil => exact .nil
  | @cons r s _ _ head _ ih =>
    have hrest := ih fun t ht => hpq t (List.mem_cons_of_mem _ ht)
    rw [List.filter_cons, List.filter_cons, hpq s List.mem_cons_self r head]
    split
    · exact .cons head hrest
    · exact hrest

theorem hasRole (rows : List Assignment) (id : RoleId) :
    (roles.any fun r => r.id = id) = (⟨stored, rows⟩ : Store).hasRole id := by
  have hids := map_eq h Role.id fun _ => rfl
  have key (rs : List Role) : (rs.any fun r => r.id = id) = (rs.map Role.id).any fun i => i = id := by
    rw [List.any_map]
    rfl
  rw [Store.hasRole, key, key, hids]

/-- A changed record goes in the same place on both sides, as it is not older than the
one that it replaces. -/
theorem replaceOlder (refl : ∀ t, late t t)
    (later : ∀ s ∈ stored, s.id = role.id → s.updatedAt ≤ role.updatedAt) :
    List.Forall₂ (Trails late) (RoleSnapshot.replaceOlder role roles)
      (Store.modifyFirst role.id (fun _ => role) stored) := by
  induction h with
  | nil => exact .nil
  | @cons r s _ _ head tail ih =>
    unfold RoleSnapshot.replaceOlder Store.modifyFirst
    by_cases hid : r.id = role.id
    · have hs : s.id = role.id := head.id ▸ hid
      have hkept : ¬ role.updatedAt < r.updatedAt := by
        rw [head.updatedAt]
        exact Instant.not_lt.mpr (later s List.mem_cons_self hs)
      rw [if_pos hid, if_pos hs, if_neg hkept]
      exact .cons ⟨rfl, refl _⟩ tail
    · rw [if_neg hid, if_neg (head.id ▸ hid)]
      exact .cons head (ih fun t ht => later t (List.mem_cons_of_mem _ ht))

/-- The stored side is touched at a time that no use of it has passed. -/
theorem touch (trans : ∀ {t u v}, late t u → late u v → late t v) {usedAt : Instant}
    (id : RoleId) (used : ∀ s ∈ stored, late s.lastUsedAt usedAt) :
    List.Forall₂ (Trails late) roles
      (Store.modifyFirst id (fun s => { s with lastUsedAt := usedAt }) stored) := by
  induction h with
  | nil => exact .nil
  | @cons r s _ _ head tail ih =>
    unfold Store.modifyFirst
    split
    · exact .cons ⟨head.definition, trans head.used (used s List.mem_cons_self)⟩ tail
    · exact .cons head (ih fun t ht => used t (List.mem_cons_of_mem _ ht))

end Role.Trails

namespace World

variable {κ : Type} {w v : World κ} {e : RoleEvent} {t : Store}

/-- The snapshot takes in the event of a change as the store takes in the change. -/
theorem Change.trails (change : w.Change e t) (hw : w.Sound) (refl : ∀ t, late t t)
    (h : List.Forall₂ (Role.Trails late) roles w.store.roles) :
    List.Forall₂ (Role.Trails late) (RoleSnapshot.patch e roles) t.roles := by
  cases change with
  | @created role s fresh ok =>
    obtain ⟨hnew, rfl⟩ := Store.insertRole_ok.mp ok
    have habsent : (roles.any fun r => r.id = role.id) = false :=
      (Role.Trails.hasRole h w.store.rows role.id).trans hnew
    rw [RoleSnapshot.patch, habsent, if_neg (by simp)]
    exact List.rel_append h (.cons ⟨rfl, refl _⟩ .nil)
  | @updated before role s found later ok =>
    obtain ⟨-, rfl⟩ := Store.updateRole_ok.mp ok
    apply Role.Trails.replaceOlder h refl
    intro s hs hid
    have hsame : s = before := List.inj_on_of_nodup_map hw.store.roles_nodup hs
      (Store.findRole_mem found) (hid.trans (Store.findRole_id found).symm)
    exact hsame ▸ later
  | @deleted role s found ok =>
    obtain ⟨-, rfl⟩ := Store.deleteRole_ok.mp ok
    exact Role.Trails.filter h fun s _ r hrs => by rw [hrs.id]
  | assigned fresh hasRole ok =>
    obtain ⟨-, rfl⟩ := (Store.insertAssignment_ok (hw.new_row fresh)).mp ok
    exact h
  | unassigned stored => exact h

def Elapsed (late : Instant → Instant → Prop) (w : World κ) : Prop :=
  ∀ r ∈ w.store.roles, late r.lastUsedAt w.now

theorem Elapsed.modifyFirst {f : Role → Role} {id : RoleId} (h : w.Elapsed late)
    (hf : ∀ r ∈ w.store.roles, late (f r).lastUsedAt w.now) :
    ∀ r ∈ Store.modifyFirst id f w.store.roles, late r.lastUsedAt w.now := by
  intro r hr
  rcases Store.mem_of_mem_modifyFirst hr with hr | ⟨s, hs, rfl⟩
  · exact h r hr
  · exact hf s hs

theorem Elapsed.change (h : w.Elapsed late) (change : w.Change e t) (dated : w.Dated e)
    (hw : w.Sound) (refl : ∀ t, late t t) : ∀ r ∈ t.roles, late r.lastUsedAt w.now := by
  cases change with
  | @created role s fresh ok =>
    obtain ⟨-, rfl⟩ := Store.insertRole_ok.mp ok
    intro r hr
    rcases List.mem_append.mp hr with hr | hr
    · exact h r hr
    · rw [List.mem_singleton.mp hr, show role.lastUsedAt = w.now from dated]
      exact refl _
  | @updated before role s found later ok =>
    obtain ⟨-, rfl⟩ := Store.updateRole_ok.mp ok
    obtain ⟨b, hb, hused⟩ := dated
    exact h.modifyFirst fun _ _ => hused ▸ h b (Store.findRole_mem hb)
  | deleted found ok =>
    obtain ⟨-, rfl⟩ := Store.deleteRole_ok.mp ok
    exact fun r hr => h r (List.mem_of_mem_filter hr)
  | assigned fresh hasRole ok =>
    obtain ⟨-, rfl⟩ := (Store.insertAssignment_ok (hw.new_row fresh)).mp ok
    exact h
  | unassigned stored => exact h

structure Mirrors (late : Instant → Instant → Prop) (k : κ) (w : World κ) : Prop where
  sound : w.Sound
  elapsed : w.Elapsed late
  snapshot : ∀ c, (w.caches k).roles.entry = some c →
    List.Forall₂ (Role.Trails late) c.value w.store.roles
  follows : w.Follows (w.caches k) []

variable [DecidableEq κ] {k : κ} (refl : ∀ t, late t t)

include refl

theorem Mirrors.recached {next : Cache} (h : Mirrors late k w)
    (hroles : ∀ c, next.roles.entry = some c →
      (w.caches k).roles.entry = some c ∨ c.value = w.store.roles)
    (hlists : ∀ user c, (user, c) ∈ next.lists.entries →
      (user, c) ∈ (w.caches k).lists.entries ∨ c.value = w.store.assignmentsOfUser user) :
    Mirrors late k (w.setCache k next) := by
  have sound : (w.setCache k next).Sound := h.sound.of_same rfl rfl
  refine ⟨sound, h.elapsed, fun c hc => ?_, ?_⟩
  · rw [setCache_caches] at hc
    rcases hroles c hc with hc | hc
    · exact h.snapshot c hc
    · rw [hc]
      exact List.forall₂_same.mpr fun r _ => ⟨rfl, refl _⟩
  · rw [setCache_caches]
    exact (h.follows.recached hroles hlists).same ⟨fun _ => rfl, rfl, rfl⟩ sound

variable (trans : ∀ {t u v}, late t u → late u v → late t v)

include trans

theorem Mirrors.move (h : Mirrors late k w) (move : Move k w v) : Mirrors late k v := by
  have sound := move.sound h.sound
  cases move with
  | @announces e t change dated =>
    have hcache : ((w.setStore t).announce k e).caches k = (w.caches k).apply e :=
      setCache_caches _
    have follows : World.Follows ((w.setStore t).announce k e) (w.caches k) ([] ++ [e]) :=
      h.follows.publish h.sound change rfl rfl (.inl rfl)
    refine ⟨sound, h.elapsed.change change dated h.sound refl, fun c hc => ?_, ?_⟩
    · rw [hcache, Cache.apply_entry] at hc
      obtain ⟨d, hd, rfl⟩ := Option.map_eq_some_iff.mp hc
      exact change.trails h.sound refl (h.snapshot d hd)
    · rw [hcache]
      exact follows.deliver sound
  | @touches id usedAt now =>
    refine ⟨sound, ?_, fun c hc => ?_, h.follows.same ⟨fun other => ?_, rfl, rfl⟩ sound⟩
    · exact h.elapsed.modifyFirst fun _ _ => now ▸ refl _
    · exact Role.Trails.touch (h.snapshot c hc) trans id (now ▸ h.elapsed)
    · exact shown_modifyFirst_keep _ (fun _ => rfl) fun _ => rfl
  | notes noted =>
    obtain ⟨effects, rfl, he⟩ := noted
    exact ⟨sound, h.elapsed, h.snapshot, h.follows.same ⟨fun _ => rfl, rfl, he⟩ sound⟩
  | loadsRoles expiresAt =>
    exact h.recached refl (fun c hc => .inr (Option.some.inj hc ▸ rfl)) fun user c hc => .inl hc
  | loadsRows user expiresAt =>
    refine h.recached refl (fun c hc => .inl hc) fun u c hc => ?_
    rcases UserLists.mem_of_mem_put hc with ⟨rfl, rfl⟩ | hc
    · exact .inr rfl
    · exact .inl hc

theorem Mirrors.moves (h : Mirrors late k w) (moves : Moves k w v) : Mirrors late k v := by
  induction moves with
  | refl => exact h
  | tail _ move ih => exact ih.move refl trans move

end World

end Entitlement
