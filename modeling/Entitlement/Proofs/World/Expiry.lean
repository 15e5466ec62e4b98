import Entitlement.Proofs.World.Lifecycle

/-!
# What a sweep leaves

A sweep removes the rows that have expired in one order, by the end of their time and then by
their identifiers. In how large batches it does so shows nowhere: neither in what it counts, nor in
what it leaves, nor in what it announces.
-/

set_option autoImplicit false

namespace Entitlement

open scoped List

namespace Store

variable {s : Store} {time : Instant} {a b c : Assignment}

def EndsBefore (a b : Assignment) : Prop :=
  ∃ s t, a.expiresAt = some s ∧ b.expiresAt = some t ∧ (s < t ∨ s = t ∧ a.id.uuid < b.id.uuid)

theorem expiresBefore_some {s t : Instant} (ha : a.expiresAt = some s) (hb : b.expiresAt = some t) :
    expiresBefore a b = true ↔ s < t ∨ s = t ∧ a.id.uuid ≤ b.id.uuid := by
  simp [expiresBefore, ha, hb]

theorem expiresBefore_trans (hab : expiresBefore a b = true) (hbc : expiresBefore b c = true) :
    expiresBefore a c = true := by
  cases ha : a.expiresAt with
  | none =>
    cases hc : c.expiresAt with
    | some u => simp [expiresBefore, ha, hc]
    | none =>
      cases hb : b.expiresAt with
      | some t => simp [expiresBefore, hb, hc] at hbc
      | none =>
        simp only [expiresBefore, ha, hb, hc, decide_eq_true_eq] at hab hbc ⊢
        exact Nat.le_trans hab hbc
  | some s =>
    cases hb : b.expiresAt with
    | none => simp [expiresBefore, ha, hb] at hab
    | some t =>
      cases hc : c.expiresAt with
      | none => simp [expiresBefore, hb, hc] at hbc
      | some u =>
        rw [expiresBefore_some ha hb] at hab
        rw [expiresBefore_some hb hc] at hbc
        rw [expiresBefore_some ha hc]
        rcases hab with before | ⟨rfl, hab⟩
        · rcases hbc with hbc | ⟨rfl, -⟩
          · exact .inl (Instant.lt_of_le_of_lt (Instant.le_of_lt before) hbc)
          · exact .inl before
        · exact hbc.imp_right fun ⟨same, hbc⟩ => ⟨same, Nat.le_trans hab hbc⟩

theorem expiresBefore_total (a b : Assignment) :
    (expiresBefore a b || expiresBefore b a) = true := by
  rw [Bool.or_eq_true]
  cases ha : a.expiresAt with
  | none =>
    cases hb : b.expiresAt with
    | some t => exact .inl (by simp [expiresBefore, ha, hb])
    | none =>
      simp only [expiresBefore, ha, hb, decide_eq_true_eq]
      exact Nat.le_total _ _
  | some s =>
    cases hb : b.expiresAt with
    | none => exact .inr (by simp [expiresBefore, ha, hb])
    | some t =>
      rw [expiresBefore_some ha hb, expiresBefore_some hb ha]
      by_cases same : s = t
      · subst same
        exact (Nat.le_total _ _).imp (fun le => .inr ⟨rfl, le⟩) fun le => .inr ⟨rfl, le⟩
      · by_cases before : s < t
        · exact .inl (.inl before)
        · exact .inr (.inl (Instant.lt_of_le_of_ne (Instant.not_lt.mp before) (Ne.symm same)))

theorem EndsBefore.asymm (hab : EndsBefore a b) (hba : EndsBefore b a) : False := by
  obtain ⟨s, t, ha, hb, before⟩ := hab
  obtain ⟨_, _, hb', ha', after⟩ := hba
  obtain rfl := Option.some.inj (ha.symm.trans ha')
  obtain rfl := Option.some.inj (hb.symm.trans hb')
  rcases before with before | ⟨rfl, before⟩
  · rcases after with after | ⟨rfl, -⟩
    · exact Instant.lt_irrefl (Instant.lt_of_le_of_lt (Instant.le_of_lt before) after)
    · exact Instant.lt_irrefl before
  · rcases after with after | ⟨-, after⟩
    · exact Instant.lt_irrefl after
    · exact Nat.lt_asymm before after

def due (s : Store) (time : Instant) : List Assignment :=
  (s.rows.filter fun a => a.isExpiredAt time).mergeSort expiresBefore

theorem expiredAssignments_eq (limit : Nat) :
    s.expiredAssignments time limit = (s.due time).take limit := rfl

def without (s : Store) (gone : List Assignment) : Store :=
  { s with rows := s.rows.filter fun a => a.id ∉ gone.map (·.id) }

theorem due_perm (s : Store) (time : Instant) :
    (s.due time).Perm (s.rows.filter fun a => a.isExpiredAt time) :=
  List.mergeSort_perm _ _

theorem mem_due : a ∈ s.due time ↔ a ∈ s.rows ∧ a.isExpiredAt time = true := by
  rw [(due_perm s time).mem_iff, List.mem_filter]

theorem due_ids (ids : (s.rows.map (·.id)).Nodup) (time : Instant) :
    ((s.due time).map (·.id)).Nodup :=
  ((due_perm s time).map _).nodup_iff.mpr (ids.sublist (List.filter_sublist.map _))

theorem due_pairwise (ids : (s.rows.map (·.id)).Nodup) (time : Instant) :
    (s.due time).Pairwise EndsBefore := by
  have sorted : (s.due time).Pairwise fun a b => expiresBefore a b = true :=
    @List.pairwise_mergeSort _ expiresBefore (fun _ _ _ => expiresBefore_trans)
      expiresBefore_total _
  have ends (a : Assignment) (ha : a ∈ s.due time) : ∃ t, a.expiresAt = some t := by
    have expired := (mem_due.mp ha).2
    cases h : a.expiresAt with
    | some t => exact ⟨t, rfl⟩
    | none => simp [Assignment.isExpiredAt, h] at expired
  refine (sorted.and (List.pairwise_map.mp (due_ids ids time))).imp_of_mem ?_
  rintro a b ha hb ⟨before, apart⟩
  obtain ⟨s, ha⟩ := ends a ha
  obtain ⟨t, hb⟩ := ends b hb
  refine ⟨s, t, ha, hb, ((expiresBefore_some ha hb).mp before).imp_right fun ⟨same, le⟩ => ?_⟩
  exact ⟨same, Nat.lt_of_le_of_ne le fun e =>
    apart (congrArg (fun v => AssignmentId.mk (Uuid.mk v)) (Fin.ext e))⟩

/-- Of rows in order, those behind the first are the ones that are left when these are gone. -/
theorem filter_take (n : Nat) {rows : List Assignment} (ids : (rows.map (·.id)).Nodup) :
    (rows.filter fun a => a.id ∉ (rows.take n).map (·.id)) = rows.drop n := by
  have both : rows.take n ++ rows.drop n = rows := List.take_append_drop n rows
  rw [← both, List.map_append] at ids
  have apart := (List.nodup_append.mp ids).2.2
  have gone : (rows.take n).filter (fun a => a.id ∉ (rows.take n).map (·.id)) = [] :=
    List.filter_eq_nil_iff.mpr fun a ha h => of_decide_eq_true h (List.mem_map_of_mem ha)
  have left : (rows.drop n).filter (fun a => a.id ∉ (rows.take n).map (·.id)) = rows.drop n :=
    List.filter_eq_self.mpr fun a ha => decide_eq_true fun h =>
      apart a.id h a.id (List.mem_map_of_mem ha) rfl
  calc rows.filter (fun a => a.id ∉ (rows.take n).map (·.id))
    _ = (rows.take n ++ rows.drop n).filter fun a => a.id ∉ (rows.take n).map (·.id) := by
        rw [both]
    _ = rows.drop n := by rw [List.filter_append, gone, left, List.nil_append]

/-- What is due after the first rows are gone is what came behind them. -/
theorem due_without_take (ids : (s.rows.map (·.id)).Nodup) (time : Instant) (n : Nat) :
    (s.without ((s.due time).take n)).due time = (s.due time).drop n := by
  refine List.Perm.eq_of_pairwise (fun a b _ _ hab hba => (hab.asymm hba).elim)
    (due_pairwise (ids.sublist (List.filter_sublist.map _)) time)
    ((due_pairwise ids time).sublist (List.drop_sublist n _)) ?_
  calc (s.without ((s.due time).take n)).due time
    _ ~ (s.rows.filter fun a => a.id ∉ ((s.due time).take n).map (·.id)).filter
        fun a => a.isExpiredAt time := due_perm _ _
    _ = (s.rows.filter fun a => a.isExpiredAt time).filter
        fun a => a.id ∉ ((s.due time).take n).map (·.id) := List.filter_comm ..
    _ ~ (s.due time).filter fun a => a.id ∉ ((s.due time).take n).map (·.id) :=
        ((due_perm s time).filter _).symm
    _ = (s.due time).drop n := filter_take n (due_ids ids time)

theorem without_due (ids : (s.rows.map (·.id)).Nodup) (time : Instant) :
    s.without (s.due time) = { s with rows := s.rows.filter fun a => !a.isExpiredAt time } := by
  refine congrArg (Store.mk s.roles) (List.filter_congr fun a ha => ?_)
  have due_iff : a.id ∈ (s.due time).map (·.id) ↔ a.isExpiredAt time = true := by
    constructor
    · intro h
      obtain ⟨b, hb, same⟩ := List.mem_map.mp h
      obtain ⟨stored, expired⟩ := mem_due.mp hb
      exact List.inj_on_of_nodup_map ids stored ha same ▸ expired
    · exact fun expired => List.mem_map_of_mem (mem_due.mpr ⟨ha, expired⟩)
  cases expired : a.isExpiredAt time <;> simp [due_iff, expired]

end Store

namespace World

variable {κ : Type} [DecidableEq κ] {k : κ} {w u v : World κ} {rows : List Assignment}
  {size : Nat} {time : Instant}

theorem shed_append (more : List Assignment) :
    w.shed k (rows ++ more) = (w.shed k rows).shed k more := List.foldl_append

theorem shed_store : (w.shed k rows).store = w.store.without rows := by
  induction rows generalizing w with
  | nil => simp [shed, Store.without]
  | cons a rest ih =>
    simp [shed_cons, ih, dropping, Store.without, setStore, announce, setCache,
      Store.deleteAssignment, List.filter_filter, Bool.and_comm]

theorem shed_events :
    (w.shed k rows).effects.events = w.effects.events ++ rows.map .userRoleUnassigned := by
  induction rows generalizing w with
  | nil => simp [shed]
  | cons a rest ih => simp [shed_cons, ih, dropping, announce, setStore]

theorem Reliable.shed (hw : w.Reliable) : (w.shed k rows).Reliable := by
  induction rows generalizing w with
  | nil => exact hw
  | cons a rest ih => exact ih (w := w.dropping k (some a)) hw

/-- A round removes the first rows that are due. It is the last if there were too few. -/
theorem sweepRound_due (time : Instant) (positive : 0 < size) (hw : w.Reliable)
    (ids : (w.store.rows.map (·.id)).Nodup) (before : Nat) :
    perform k (Service.sweepRound size time before) w =
      (.ok (if (w.store.due time).length < size then .ended (before + (w.store.due time).length)
        else .onward (before + size)), w.shed k ((w.store.due time).take size)) := by
  rw [sweepRound_sheds hw ids, Store.expiredAssignments_eq, List.length_take]
  by_cases short : (w.store.due time).length < size
  · rw [if_pos (by omega), if_pos short, Nat.min_eq_right (Nat.le_of_lt short)]
  · rw [if_neg (by omega), if_neg short, Nat.min_eq_left (Nat.not_lt.mp short)]

/-- The loop of a sweep, with the number of rounds it goes through before the last. -/
inductive Loops (k : κ) (size : Nat) (time : Instant) :
    Nat → World κ → Nat → Nat → World κ → Prop
  | last {w v : World κ} {before total : Nat} :
      perform k (Service.sweepRound size time before) w = (.ok (.ended total), v) →
      Loops k size time 0 w before total v
  | onward {w u v : World κ} {rounds before between total : Nat} :
      perform k (Service.sweepRound size time before) w = (.ok (.onward between), u) →
      Loops k size time rounds u between total v →
      Loops k size time (rounds + 1) w before total v

/-- A sweep that may go on for as long does what the loop does. -/
theorem Loops.performs {rounds before total : Nat} (h : Loops k size time rounds w before total v)
    {enough : Nat} (le : rounds ≤ enough) :
    perform k (Service.sweepRounds size time enough before) w = (.ok total, v) := by
  induction h generalizing enough with
  | last ended => cases enough <;> exact perform_bind_ok _ ended
  | onward goes _ ih =>
    cases enough with
    | zero => cases le
    | succ enough => exact (perform_bind_ok _ goes).trans (ih (Nat.le_of_succ_le_succ le))

/-- The loop goes on for as long as batches are full and removes all that is due. -/
theorem loops_sheds (time : Instant) (positive : 0 < size) (hw : w.Reliable)
    (ids : (w.store.rows.map (·.id)).Nodup) (before : Nat) :
    Loops k size time ((w.store.due time).length / size) w before
      (before + (w.store.due time).length) (w.shed k (w.store.due time)) := by
  generalize hrounds : (w.store.due time).length / size = rounds
  induction rounds generalizing w before with
  | zero =>
    have short := (Nat.div_eq_zero_iff_lt positive).mp hrounds
    have round := sweepRound_due (k := k) time positive hw ids before
    rw [if_pos short, List.take_of_length_le (Nat.le_of_lt short)] at round
    exact .last round
  | succ rounds ih =>
    have full : size ≤ (w.store.due time).length :=
      (Nat.div_pos_iff.mp (hrounds ▸ Nat.succ_pos rounds)).2
    have round := sweepRound_due (k := k) time positive hw ids before
    rw [if_neg (Nat.not_lt.mpr full)] at round
    have left : (w.shed k ((w.store.due time).take size)).store.due time =
        (w.store.due time).drop size := by rw [shed_store, Store.due_without_take ids]
    have fewer : ((w.store.due time).drop size).length / size = rounds := by
      have step := Nat.div_eq_sub_div positive full
      rw [List.length_drop]
      omega
    have still : ((w.shed k ((w.store.due time).take size)).store.rows.map (·.id)).Nodup := by
      rw [shed_store]
      exact ids.sublist (List.filter_sublist.map _)
    have rest := ih hw.shed still (before + size) (by rw [left, fewer])
    rw [left, ← shed_append, List.take_append_drop, List.length_drop, Nat.add_assoc,
      Nat.add_sub_cancel' full] at rest
    exact .onward round rest

/-- A sweep ends, whatever the size of its batches. It counts the rows that have expired, leaves
the others, and announces each row that it removes, those that end first before those that end
later and of those that end together the ones with the lower identifiers first. None of this
depends on the size. -/
theorem sweep_removes_due (k : κ) (w : World κ) (working : w.Reliable)
    (ids : (w.store.rows.map (·.id)).Nodup) :
    ∃ removed v, removed ~ w.store.rows.filter (fun a => a.isExpiredAt w.now) ∧
      removed.Pairwise Store.EndsBefore ∧
      v.store = { w.store with rows := w.store.rows.filter fun a => !a.isExpiredAt w.now } ∧
      v.effects.events = w.effects.events ++ removed.map .userRoleUnassigned ∧
      ∀ size, 0 < size → Loops k size w.now (removed.length / size) w 0 removed.length v ∧
        ∀ rounds, removed.length / size ≤ rounds →
          perform k (Service.sweep size rounds) w = (.ok removed.length, v) := by
  refine ⟨w.store.due w.now, w.shed k (w.store.due w.now), Store.due_perm _ _,
    Store.due_pairwise ids _, shed_store.trans (Store.without_due ids _), shed_events,
    fun size positive => ?_⟩
  have loops := loops_sheds (k := k) w.now positive working ids 0
  rw [Nat.zero_add] at loops
  refine ⟨loops, fun rounds le => ?_⟩
  rw [Service.sweep, if_neg (Nat.pos_iff_ne_zero.mp positive), perform_bind_ok _ perform_now]
  exact loops.performs le

/-- Four rows have expired, one of them just now. Batches of two are full to the last, and a third
one that is empty ends the sweep. -/
theorem sweep_removes_due_full_batches :
    let row (n : Nat) (expiresAt : Option Instant) : Assignment :=
      ⟨⟨.generated n⟩, ⟨.generated 0⟩, ⟨.generated n⟩, expiresAt, default⟩
    let w : World Unit := { World.startingAt ⟨10, 0⟩ 0 with store := ⟨[], [row 3 (some ⟨5, 0⟩),
      row 1 (some ⟨5, 0⟩), row 2 none, row 4 (some ⟨4, 0⟩), row 5 (some ⟨10, 0⟩)]⟩ }
    ∃ v, Loops () 2 w.now 2 w 0 4 v ∧ perform () (Service.sweep 2 2) w = (.ok 4, v) ∧
      perform () (Service.sweep 3 1) w = (.ok 4, v) ∧ v.store.rows = [row 2 none] ∧
      v.effects.events.length = 4 := by
  intro row w
  obtain ⟨removed, v, perm, -, store, events, sweeps⟩ :=
    sweep_removes_due () w (reliable_of_failing rfl) (by decide +kernel)
  have four : removed.length = 4 := perm.length_eq.trans (by decide +kernel)
  simp only [four] at sweeps
  refine ⟨v, (sweeps 2 (by decide)).1, (sweeps 2 (by decide)).2 2 (by decide),
    (sweeps 3 (by decide)).2 1 (by decide), ?_, ?_⟩
  · rw [store]
    decide +kernel
  · rw [events, List.length_append, List.length_map, four]
    rfl

end World

end Entitlement
