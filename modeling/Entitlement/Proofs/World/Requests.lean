import Entitlement.Proofs.Instant
import Entitlement.Proofs.World.Endings
import Entitlement.Proofs.World.Moves

/-!
# Every request makes moves

While the store and the feed answer, and the next identifier is unused, whatever a
service is asked for, the world changes by moves of its party alone.
-/

set_option autoImplicit false

namespace Entitlement.World

variable {κ α β : Type} [DecidableEq κ] {k : κ} {w v : World κ} {rows : List Assignment}

theorem moves_bind {x : Service α} {a : α} {f : α → Service β}
    (h : perform k x w = (.ok a, v)) (hv : Moves k w v)
    (hf : Moves k v (perform k (f a) v).2) :
    Moves k w (perform k (x >>= f) w).2 := by
  rw [perform_bind_ok f h]
  exact hv.trans hf

theorem moves_bind_error {x : Service α} {fault : Fault} {f : α → Service β}
    (h : perform k x w = (.error fault, v)) (hv : Moves k w v) :
    Moves k w (perform k (x >>= f) w).2 := by
  rw [perform_bind_error f h]
  exact hv

theorem moves_announced {e : RoleEvent} {s : Store} (change : w.Change e s) (dated : w.Dated e)
    (noted : Noted ((w.setStore s).announce k e) v) : Moves k w v :=
  .tail (.single (.announces change dated)) (.notes noted)

theorem createRole_moves (hw : w.Reliable) (fresh : w.Unused w.nextId) (draft : RoleDraft)
    (actor : Option Actor) :
    Moves k w (perform k (Service.createRole draft actor) w).2 := by
  rcases createRole_cases (k := k) hw draft actor with
    ⟨fault, -, h⟩ | ⟨role, s, v, hd, hs, h, noted⟩
  · rw [h]
  · obtain ⟨-, hid, -, hused⟩ := draft_gives hd
    rw [h]
    exact moves_announced (.created (hid ▸ fresh) hs) hused noted

theorem updateRole_moves (hw : w.Reliable) (id : RoleId) (edit : RoleEdit)
    (actor : Option Actor) :
    Moves k w (perform k (Service.updateRole id edit actor) w).2 := by
  rcases updateRole_cases (k := k) hw id edit actor with
    ⟨fault, h⟩ | ⟨before, edited, after, s, v, hf, he, hafter, hs, h, noted⟩
  · rw [h]
  · obtain ⟨hsame, -, hused⟩ := edit_keeps he
    have hid : after.id = before.id := by rw [hafter, ← hsame]
    have hfound : w.store.findRole after.id = some before := by rw [hid, Store.findRole_id hf, hf]
    have newer : before.updatedAt ≤ after.updatedAt := by
      rw [hafter]
      exact Instant.le_max_right _ _
    rw [h]
    exact moves_announced (.updated hfound newer hs) ⟨before, hfound, by rw [hafter, ← hused]⟩ noted

theorem deleteRole_moves (hw : w.Reliable) (id : RoleId) (actor : Option Actor) :
    Moves k w (perform k (Service.deleteRole id actor) w).2 := by
  rcases deleteRole_cases (k := k) hw id actor with ⟨-, h⟩ | ⟨role, s, v, hf, hs, h, noted⟩
  · rw [h]
  · obtain rfl := Store.findRole_id hf
    rw [h]
    exact moves_announced (.deleted hf hs) trivial noted

theorem moves_dropping {a? : Option Assignment} (stored : ∀ a, a? = some a → a ∈ w.store.rows) :
    Moves k w (w.dropping k a?) := by
  cases a? with
  | none => exact .refl
  | some a => exact .single (.announces (.unassigned (stored a rfl)) trivial)

theorem Unused.dropping {id : Uuid} (unused : w.Unused id) (hs : w.Sound) {a? : Option Assignment}
    (stored : ∀ a, a? = some a → a ∈ w.store.rows) : (w.dropping k a?).Unused id := by
  cases a? with
  | none => exact unused
  | some a =>
    intro e he
    rcases List.mem_append.mp he with he | he
    · exact unused e he
    · obtain rfl := List.mem_singleton.mp he
      exact unused (.userRoleAssigned a) (hs.rows_known a (stored a rfl))

theorem assign_moves (hw : w.Reliable) (hs : w.Sound) (fresh : w.Unused w.nextId) (user : UserId)
    (role : RoleId) (expiresAt : Option Instant) (actor : Option Actor) :
    Moves k w (perform k (Service.assign user role expiresAt actor) w).2 := by
  have found (a : Assignment) (ha : w.store.findAssignment user role = some a) :
      a ∈ w.store.rows := (Store.findAssignment_mem ha).1
  have moves := moves_dropping (k := k) found
  rcases assign_cases (k := k) hw user role expiresAt actor with
    ⟨-, h⟩ | ⟨definition, hf, ⟨a, -, -, h⟩ | ⟨u, row, rfl, rfl, -, cases⟩⟩
  · rw [h]
  · rw [h]
  · rcases cases with ⟨fault, -, h⟩ | ⟨s, x, v, ok, rfl, h, noted⟩ <;> rw [h]
    · exact moves
    · have defined : (w.dropping k (w.store.findAssignment user role)).store.hasRole role = true :=
        (Store.hasRole_of_map_id (congrArg _ (dropping_roles _)) role).trans
          (Store.hasRole_of_findRole hf)
      have change := Change.assigned (fresh.dropping hs found) defined ok
      exact moves.trans (.tail (.tail (.single (.announces change trivial))
        (.touches role moves.now.symm)) (.notes noted))

theorem unassign_moves (hw : w.Reliable) (user : UserId) (role : RoleId) (actor : Option Actor) :
    Moves k w (perform k (Service.unassign user role actor) w).2 := by
  rcases unassign_cases (k := k) hw user role actor with ⟨-, h⟩ | ⟨a, u, hf, rfl, cases⟩
  · rw [h]
  have moves : Moves k w (w.dropping k (some a)) :=
    moves_dropping fun b hb => Option.some.inj hb ▸ (Store.findAssignment_mem hf).1
  rcases cases with ⟨-, h⟩ | ⟨-, v, h, noted⟩ <;> rw [h]
  · exact moves
  · exact moves.trans (.tail (.single (.touches role rfl)) (.notes noted))

theorem moves_shed (ids : (rows.map (·.id)).Nodup) (stored : ∀ a ∈ rows, a ∈ w.store.rows) :
    Moves k w (w.shed k rows) := by
  induction rows generalizing w with
  | nil => exact .refl
  | cons a rest ih =>
    have dropped : Moves k w (w.dropping k (some a)) :=
      moves_dropping fun b hb => Option.some.inj hb ▸ stored a List.mem_cons_self
    exact dropped.trans (ih (List.nodup_cons.mp ids).2 (stored_dropping ids stored))

theorem sweepRound_moves (hw : w.Reliable) (hs : w.Sound) (batchSize removed : Nat)
    (startedAt : Instant) :
    Moves k w (perform k (Service.sweepRound batchSize startedAt removed) w).2 := by
  have ids := hs.store.distinct.rows_nodup
  rw [sweepRound_sheds hw ids]
  exact moves_shed (Store.expired_ids ids) fun a ha => Store.mem_of_mem_expired ha

theorem sweepRounds_moves (hw : w.Reliable) (hs : w.Sound) (batchSize rounds removed : Nat)
    (startedAt : Instant) :
    Moves k w (perform k (Service.sweepRounds batchSize startedAt rounds removed) w).2 := by
  induction rounds generalizing w removed with
  | zero =>
    have hround := sweepRound_moves (k := k) hw hs batchSize removed startedAt
    rw [Service.sweepRounds]
    rcases hr : perform k (Service.sweepRound batchSize startedAt removed) w with
      ⟨_ | _, v⟩ <;> rw [hr] at hround
    · exact moves_bind_error hr hround
    · exact moves_bind hr hround .refl
  | succ rounds ih =>
    have hround := sweepRound_moves (k := k) hw hs batchSize removed startedAt
    rw [Service.sweepRounds]
    rcases hr : perform k (Service.sweepRound batchSize startedAt removed) w with
      ⟨_ | ⟨_ | _⟩, v⟩ <;> rw [hr] at hround
    · exact moves_bind_error hr hround
    · exact moves_bind hr hround (ih (hround.reliable hw) (hround.sound hs) _)
    · exact moves_bind hr hround .refl

theorem sweep_moves (hw : w.Reliable) (hs : w.Sound) (batchSize rounds : Nat) :
    Moves k w (perform k (Service.sweep batchSize rounds) w).2 := by
  unfold Service.sweep
  split
  · exact .refl
  · exact moves_bind perform_now .refl (sweepRounds_moves hw hs _ _ _ _)

end Entitlement.World
