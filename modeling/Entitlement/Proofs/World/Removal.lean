import Entitlement.Proofs.World.Requests

/-!
# Rows that are removed

A request that removes rows announces each of them, so the rows that are gone are those that
the events tell of. A sweep that goes on long enough removes all rows that have expired.
-/

set_option autoImplicit false

namespace Entitlement

namespace Store

variable {s : Store} {time : Instant} {limit : Nat} {a : Assignment}

theorem Distinct.nodup {rows : List Assignment} (h : Distinct rows) : rows.Nodup :=
  h.rows_nodup.of_map

/-- A batch that is not full holds all rows that have expired. -/
theorem mem_expired_of_short (short : (s.expiredAssignments time limit).length < limit)
    (ha : a ∈ s.rows) (expired : a.isExpiredAt time = true) :
    a ∈ s.expiredAssignments time limit := by
  have all : s.expiredAssignments time limit =
      (s.rows.filter fun a => a.isExpiredAt time).mergeSort expiresBefore := by
    refine List.take_of_length_le ?_
    rw [expiredAssignments, List.length_take] at short
    omega
  rw [all, List.mem_mergeSort]
  exact List.mem_filter.mpr ⟨ha, expired⟩

end Store

namespace World

variable {κ : Type} {w u v : World κ} {removed more granted : List Assignment} {a : Assignment}

structure Removes (removed : List Assignment) (w v : World κ) : Prop where
  nodup : removed.Nodup
  stored : ∀ a ∈ removed, a ∈ w.store.rows
  roles : v.store.roles = w.store.roles
  rows : v.store.rows = w.store.rows.filter fun a => a ∉ removed
  events : v.effects.events = w.effects.events ++ removed.map .userRoleUnassigned
  now : v.now = w.now
  nextId : v.nextId = w.nextId
  failing : v.failing = w.failing

namespace Removes

theorem refl (w : World κ) : Removes [] w w :=
  ⟨.nil, by simp, rfl, by simp, by simp, rfl, rfl, rfl⟩

theorem trans (h : Removes removed w u) (k : Removes more u v) : Removes (removed ++ more) w v where
  nodup := by
    refine h.nodup.append k.nodup fun a ha hm => ?_
    have there := k.stored a hm
    rw [h.rows] at there
    simpa [ha] using (List.mem_filter.mp there).2
  stored a ha := by
    rcases List.mem_append.mp ha with ha | ha
    · exact h.stored a ha
    · exact List.mem_of_mem_filter (h.rows ▸ k.stored a ha)
  roles := k.roles.trans h.roles
  rows := by
    rw [k.rows, h.rows, List.filter_filter]
    exact List.filter_congr fun a _ => by simp [Bool.and_comm]
  events := by rw [k.events, h.events, List.map_append, List.append_assoc]
  now := k.now.trans h.now
  nextId := k.nextId.trans h.nextId
  failing := k.failing.trans h.failing

theorem distinct (h : Removes removed w v) (hs : Store.Distinct w.store.rows) :
    Store.Distinct v.store.rows := h.rows ▸ hs.filter _

theorem reliable (h : Removes removed w v) (hw : w.Reliable) : v.Reliable := by
  intro port hport
  rw [h.failing]
  exact hw port hport

theorem mem_rows (h : Removes removed w v) : a ∈ v.store.rows ↔ a ∈ w.store.rows ∧ a ∉ removed := by
  rw [h.rows, List.mem_filter, decide_eq_true_eq]

end Removes

variable [DecidableEq κ] {k : κ}

theorem removes_row (hs : Store.Distinct w.store.rows) (ha : a ∈ w.store.rows) :
    Removes [a] w ((w.setStore (w.store.deleteAssignment a.id).2).announce k
      (.userRoleUnassigned a)) := by
  refine ⟨List.nodup_singleton a, by simpa using ha, rfl, ?_, rfl, rfl, rfl, rfl⟩
  refine List.filter_congr fun b hb => ?_
  have same : b.id = a.id ↔ b = a := ⟨hs.row_of_id hb ha, fun e => e ▸ rfl⟩
  simp [same]

theorem removes_shed {rows : List Assignment} (hs : Store.Distinct w.store.rows)
    (ids : (rows.map (·.id)).Nodup) (stored : ∀ a ∈ rows, a ∈ w.store.rows) :
    Removes rows w (w.shed k rows) := by
  induction rows generalizing w with
  | nil => exact .refl w
  | cons a rest ih =>
    have removes := removes_row (k := k) hs (stored a List.mem_cons_self)
    exact removes.trans (ih (removes.distinct hs) (List.nodup_cons.mp ids).2
      (stored_dropping ids stored))

theorem sweepRound_removes (hs : Store.Distinct w.store.rows) (size : Nat) (time : Instant) :
    Removes (w.store.expiredAssignments time size) w
      (w.shed k (w.store.expiredAssignments time size)) :=
  removes_shed hs (Store.expired_ids hs.rows_nodup) fun _ ha => Store.mem_of_mem_expired ha

omit [DecidableEq κ] in
/-- The rows that have expired are the batch, or the batch and those that are left. -/
theorem mem_batch_or_left {time : Instant} {size : Nat}
    (round : Removes (w.store.expiredAssignments time size) w u)
    (rest : ∀ a, a ∈ more ↔ a ∈ u.store.rows ∧ a.isExpiredAt time = true) (a : Assignment) :
    a ∈ w.store.expiredAssignments time size ++ more ↔
      a ∈ w.store.rows ∧ a.isExpiredAt time = true := by
  rw [List.mem_append, rest, round.mem_rows]
  constructor
  · rintro (ha | ⟨⟨ha, -⟩, expired⟩)
    · exact ⟨Store.mem_of_mem_expired ha, Store.expired_of_mem_expired ha⟩
    · exact ⟨ha, expired⟩
  · rintro ⟨ha, expired⟩
    by_cases hb : a ∈ w.store.expiredAssignments time size
    · exact .inl hb
    · exact .inr ⟨⟨ha, hb⟩, expired⟩

/-- A sweep with a round for every row removes all rows that have expired, and counts them. -/
theorem sweepRounds_removes {size : Nat} (positive : 0 < size) (time : Instant) (hw : w.Reliable)
    (hs : Store.Distinct w.store.rows) (rounds before : Nat)
    (enough : w.store.rows.length ≤ rounds) :
    ∃ removed v, perform k (Service.sweepRounds size time rounds before) w =
        (.ok (before + removed.length), v) ∧ Removes removed w v ∧
      ∀ a, a ∈ removed ↔ a ∈ w.store.rows ∧ a.isExpiredAt time = true := by
  have hround := sweepRound_sheds (k := k) hw hs.rows_nodup size time before
  have round := sweepRound_removes (k := k) hs size time
  generalize w.shed k (w.store.expiredAssignments time size) = u at hround round
  induction rounds generalizing w u before with
  | zero =>
    have none : w.store.rows = [] := List.length_eq_zero_iff.mp (Nat.le_zero.mp enough)
    refine ⟨_, u, ?_, round, fun a => ⟨fun ha => ?_, fun ha => by simp [none] at ha⟩⟩
    · rw [Service.sweepRounds, perform_bind_ok _ hround]
      split <;> rfl
    · exact ⟨Store.mem_of_mem_expired ha, Store.expired_of_mem_expired ha⟩
  | succ rounds ih =>
    by_cases last : (w.store.expiredAssignments time size).length < size ∨
        before + (w.store.expiredAssignments time size).length = before
    · rw [if_pos last] at hround
      have short : (w.store.expiredAssignments time size).length < size := by omega
      refine ⟨_, u, perform_bind_ok _ hround, round, fun a => ⟨fun ha => ?_, fun ha => ?_⟩⟩
      · exact ⟨Store.mem_of_mem_expired ha, Store.expired_of_mem_expired ha⟩
      · exact Store.mem_expired_of_short short ha.1 ha.2
    · rw [if_neg last] at hround
      obtain ⟨a, ha⟩ := List.exists_mem_of_length_pos
        (show 0 < (w.store.expiredAssignments time size).length by omega)
      have fewer : u.store.rows.length < w.store.rows.length := by
        rw [round.rows]
        exact List.length_filter_lt_length_iff_exists.mpr
          ⟨a, round.stored a ha, by simpa using ha⟩
      obtain ⟨more, v, hv, removes, rest⟩ := ih (round.reliable hw) (round.distinct hs)
        (before + (w.store.expiredAssignments time size).length) (by omega) _
        (sweepRound_sheds (round.reliable hw) (round.distinct hs).rows_nodup size time _)
        (sweepRound_removes (round.distinct hs) size time)
      refine ⟨_, v, (perform_bind_ok _ hround).trans (hv.trans ?_), round.trans removes,
        mem_batch_or_left round rest⟩
      rw [List.length_append, Nat.add_assoc]

theorem sweep_removes {size rounds : Nat} (positive : 0 < size) (hw : w.Reliable)
    (hs : Store.Distinct w.store.rows) (enough : w.store.rows.length ≤ rounds) :
    ∃ removed v, perform k (Service.sweep size rounds) w = (.ok removed.length, v) ∧
      Removes removed w v ∧ ∀ a, a ∈ removed ↔ a ∈ w.store.rows ∧ a.isExpiredAt w.now = true := by
  obtain ⟨removed, v, hv, removes, all⟩ :=
    sweepRounds_removes (k := k) positive w.now hw hs rounds 0 enough
  refine ⟨removed, v, ?_, removes, all⟩
  rw [Service.sweep, if_neg (Nat.pos_iff_ne_zero.mp positive), perform_bind_ok _ perform_now, hv, Nat.zero_add]

end World

end Entitlement
