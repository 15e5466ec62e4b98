import Entitlement.Proofs.Crowd.Steps

/-!
# The pace of a sweep

A sweep lists a batch and tries to remove each row of it once. It lists a further batch only after
it has removed a row of the last one itself, so the rows that it removes bound how often it lists,
and the batches that it lists bound how many calls it makes. At its end it has counted what it
removed and has announced each of these rows. An assignment stores a row once.
-/

set_option autoImplicit false

namespace Entitlement

namespace Exchange

def removal? : Exchange → Option AssignmentId
  | ⟨.deleteAssignment id, .ok true⟩ => some id
  | _ => none

def withdrawn? : Exchange → Option Assignment
  | ⟨.publish (.userRoleUnassigned a), .ok ()⟩ => some a
  | _ => none

def batch? : Exchange → Option (List Assignment)
  | ⟨.expiredAssignments _ _, .ok batch⟩ => some batch
  | _ => none

def falters : Exchange → Bool
  | ⟨.expiredAssignments _ _, .error _⟩ => true
  | ⟨.deleteAssignment _, .error _⟩ => true
  | ⟨.publish _, .error _⟩ => true
  | _ => false

end Exchange

namespace Log

def removals (log : Log) : List AssignmentId := log.filterMap Exchange.removal?

def withdrawn (log : Log) : List Assignment := log.filterMap Exchange.withdrawn?

def batches (log : Log) : List (List Assignment) := log.filterMap Exchange.batch?

def progressed : Log → Bool
  | [] => false
  | x :: log => if x.batch?.isSome then false else x.removal?.isSome || progressed log

/-- How many calls some batches allow for: one to list each, and three for each row, to remove it,
to tell the cache and to announce it. One more reads the clock, and one may list the next batch. -/
def allowance (batches : List (List Assignment)) : Nat :=
  2 + (batches.map fun batch => 1 + 3 * batch.length).sum

def Exhausts (log : Log) (size : Nat) : Prop :=
  (∃ batch earlier, log.batches = batch :: earlier ∧ batch.length < size) ∨ log.progressed = false

structure Tally (log : Log) (removed : Nat) : Prop where
  counted : removed = log.removals.length
  withdrawn : log.withdrawn.map (·.id) = log.removals
  published : log.published = log.withdrawn.map .userRoleUnassigned

end Log

namespace Request

def Pace : Request → Log → Call → Prop
  | .sweep size _, log, c => log.length < Log.allowance log.batches ∧
    ∀ time limit, c = .expiredAssignments time limit →
      limit = size ∧ (log.batches = [] ∨ log.progressed = true)
  | .assign _ _ _ _, log, c => ∀ a, c = .insertAssignment a → log.inserted = []
  | _, _, _ => True

def Closes : (q : Request) → Log → Except Fault q.Value → Prop
  | .sweep size rounds, log, .ok removed => log.Tally removed ∧
    (log.Exhausts size ∨ log.progressed = true ∧ log.batches.length = rounds + 1)
  | .sweep size _, log, .error _ => size = 0 ∨ ∃ x ∈ log, x.falters = true
  | _, _, _ => True

end Request

namespace Abides

variable {α β : Type} {may : Log → Call → Prop} {mid : Log → Except Fault α → Prop}
  {ends : Log → Except Fault β → Prop} {log : Log}

/-- A request goes on after a part that has not failed. -/
theorem bind {x : Service α} {f : α → Service β} (hx : Abides may mid log x.run)
    (hf : ∀ log a, mid log (.ok a) → Abides may ends log (f a).run)
    (hfault : ∀ log fault, mid log (.error fault) → ends log (.error fault)) :
    Abides may ends log (x >>= f).run := by
  refine hx.andThen fun log r h => ?_
  cases r with
  | ok a => exact hf log a h
  | error fault => exact .done (hfault log fault h)

theorem anyhow (p : Procedure α) : Abides (fun _ _ => True) (fun _ _ => True) log p := by
  induction p generalizing log with
  | done a => exact .done trivial
  | call c next ih => exact .call trivial fun r => ih r

end Abides

namespace Service

open Request

variable {size rounds removed : Nat} {log : Log}

structure Tried (log : Log) (removed : Nat) (log' : Log) (total : Nat) : Prop where
  tally : log'.Tally total
  grows : removed ≤ total
  progressed : log'.progressed = true ↔ log.progressed = true ∨ removed < total

theorem removeBatch_paces (batch : List Assignment) (tally : log.Tally removed)
    (room : log.length + 3 * batch.length < Log.allowance log.batches) :
    Abides (Pace (.sweep size rounds)) (fun log' r =>
        log'.length < Log.allowance log'.batches ∧ log'.batches = log.batches ∧ match r with
        | .ok total => Tried log removed log' total
        | .error _ => ∃ x ∈ log', x.falters = true) log (removeBatch batch removed).run := by
  induction batch generalizing log removed with
  | nil => exact .done ⟨by simpa using room, rfl, tally, Nat.le_refl _, by simp⟩
  | cons a rest ih =>
    rw [List.length_cons] at room
    refine .call ⟨by omega, nofun⟩ fun r => ?_
    match r with
    | .error fault =>
      refine .done ⟨?_, rfl, _, List.mem_cons_self, rfl⟩
      show log.length + 1 < Log.allowance log.batches
      omega
    | .ok false =>
      have passed : Log.Tally (⟨.deleteAssignment a.id, .ok false⟩ :: log) removed := { tally with }
      have room' : log.length + 1 + 3 * rest.length < Log.allowance log.batches := by omega
      refine (ih passed room').mono fun log' r h => ⟨h.1, h.2.1, ?_⟩
      cases r with
      | error fault => exact h.2.2
      | ok total => exact { h.2.2 with }
    | .ok true =>
      refine .call ⟨?_, nofun⟩ fun _ => .call ⟨?_, nofun⟩ fun r => ?_
      · show log.length + 1 < Log.allowance log.batches
        omega
      · show log.length + 1 + 1 < Log.allowance log.batches
        omega
      match r with
      | .error fault =>
        refine .done ⟨?_, rfl, _, List.mem_cons_self, rfl⟩
        show log.length + 1 + 1 + 1 < Log.allowance log.batches
        omega
      | .ok () =>
        have counted : Log.Tally (⟨.publish (.userRoleUnassigned a), .ok ()⟩ ::
            ⟨.applyEvent (.userRoleUnassigned a), ()⟩ :: ⟨.deleteAssignment a.id, .ok true⟩ :: log)
            (removed + 1) := {
          counted := congrArg (· + 1) tally.counted
          withdrawn := congrArg (a.id :: ·) tally.withdrawn
          published := congrArg (RoleEvent.userRoleUnassigned a :: ·) tally.published }
        have room' : log.length + 1 + 1 + 1 + 3 * rest.length < Log.allowance log.batches := by
          omega
        refine (ih counted room').mono fun log' r h => ⟨h.1, h.2.1, ?_⟩
        cases r with
        | error fault => exact h.2.2
        | ok total =>
          obtain ⟨tally', grows, progressed⟩ := h.2.2
          exact ⟨tally', by omega, iff_of_true (progressed.mpr (.inl rfl)) (.inr grows)⟩

def RoundEnds (size : Nat) (log log' : Log) : Except Fault Sweep → Prop
  | .ok (.ended total) => log'.Tally total ∧ log'.Exhausts size
  | .ok (.onward total) => log'.Tally total ∧ log'.progressed = true ∧
    log'.length < Log.allowance log'.batches ∧ log'.batches.length = log.batches.length + 1
  | .error _ => ∃ x ∈ log', x.falters = true

theorem sweepRound_paces (time : Instant) (tally : log.Tally removed)
    (room : log.length < Log.allowance log.batches)
    (ready : log.batches = [] ∨ log.progressed = true) :
    Abides (Pace (.sweep size rounds)) (RoundEnds size log) log
      (sweepRound size time removed).run := by
  refine .call ⟨room, fun _ _ e => ?_⟩ fun r => ?_
  · cases e
    exact ⟨rfl, ready⟩
  match r with
  | .error fault => exact .done ⟨_, List.mem_cons_self, rfl⟩
  | .ok batch =>
    have listed : Log.Tally (⟨.expiredAssignments time size, .ok batch⟩ :: log) removed :=
      { tally with }
    have room' : log.length + 1 + 3 * batch.length < Log.allowance (batch :: log.batches) := by
      simp only [Log.allowance, List.map_cons, List.sum_cons] at room ⊢
      omega
    refine (removeBatch_paces batch listed room').bind (fun log' total h => ?_)
      fun log' fault h => h.2.2
    obtain ⟨room, batches, tally, grows, progressed⟩ := h
    have idle : ¬ (Log.progressed (⟨.expiredAssignments time size, .ok batch⟩ :: log) = true) := by
      simp [Log.progressed, Exchange.batch?]
    split
    · next last =>
      refine .done ⟨tally, last.imp (fun short => ⟨batch, _, batches, short⟩) fun same => ?_⟩
      exact Bool.eq_false_iff.mpr fun h => (progressed.mp h).elim idle (by omega)
    · next more =>
      refine .done ⟨tally, progressed.mpr (.inr ?_), room, congrArg List.length batches⟩
      omega

theorem sweepRounds_paces (time : Instant) (more : Nat) (tally : log.Tally removed)
    (room : log.length < Log.allowance log.batches)
    (ready : log.batches = [] ∨ log.progressed = true)
    (left : log.batches.length + more = rounds) :
    Abides (Pace (.sweep size rounds)) (Closes (.sweep size rounds)) log
      (sweepRounds size time more removed).run := by
  induction more generalizing log removed with
  | zero =>
    refine (sweepRound_paces time tally room ready).bind (fun log' sweep h => .done ?_)
      fun _ _ => .inr
    cases sweep with
    | ended total => exact ⟨h.1, .inl h.2⟩
    | onward total =>
      obtain ⟨tally, progressed, -, batches⟩ := h
      exact ⟨tally, .inr ⟨progressed, by omega⟩⟩
  | succ more ih =>
    refine (sweepRound_paces time tally room ready).bind (fun log' sweep h => ?_) fun _ _ => .inr
    cases sweep with
    | ended total => exact .done ⟨h.1, .inl h.2⟩
    | onward total =>
      obtain ⟨tally, progressed, room, batches⟩ := h
      exact ih tally room (.inr progressed) (by omega)

theorem sweep_paces : Abides (Pace (.sweep size rounds)) (Closes (.sweep size rounds)) []
    (sweep size rounds).run := by
  unfold sweep
  split
  · next empty => exact .done (.inl empty)
  · refine .call ⟨Nat.zero_lt_succ 1, nofun⟩ fun time => ?_
    exact sweepRounds_paces time rounds ⟨rfl, rfl, rfl⟩ (Nat.lt_succ_self 1) (.inl rfl)
      (Nat.zero_add _)

section

variable {user : UserId} {role : RoleId} {expiresAt : Option Instant} {actor : Option Actor}

theorem vacate_paces (time : Instant) :
    Abides (Pace (.assign user role expiresAt actor)) (fun log' _ => log'.inserted = log.inserted)
      log (vacate user role time).run := by
  refine .call nofun fun r => ?_
  match r with
  | .error fault => exact .done rfl
  | .ok none => exact .done rfl
  | .ok (some b) =>
    show Abides _ _ _ (if b.isActiveAt time then _ else _ : Service Unit).run
    split
    · exact .done rfl
    · refine .call nofun fun r => ?_
      match r with
      | .error fault => exact .done rfl
      | .ok false => exact .done rfl
      | .ok true => exact .call nofun fun _ => .call nofun fun r => by cases r <;> exact .done rfl

/-- An assignment stores a row once, if all that comes before lets it. -/
theorem assign_paces : Abides (Pace (.assign user role expiresAt actor)) (fun _ _ => True) []
    (assign user role expiresAt actor).run := by
  refine .call nofun fun time => .call nofun fun r => ?_
  match r with
  | .error fault => exact .done trivial
  | .ok none => exact .done trivial
  | .ok (some definition) =>
    refine (vacate_paces time).bind (fun log _ none => ?_) fun _ _ _ => trivial
    refine .call nofun fun id => .call (fun _ _ => none) fun r => ?_
    match r with
    | .error fault => exact .done trivial
    | .ok () =>
      refine .call nofun fun _ => .call nofun fun _ => .call nofun fun r => ?_
      match r with
      | .error fault => exact .done trivial
      | .ok () =>
        have recorded {log : Log} (details : Json) (row : Assignment) :
            Abides (Pace (.assign user role expiresAt actor)) (fun _ _ => True) log
              (do record actor .assignRole details; return row : Service Assignment).run := by
          cases actor with
          | none => exact .done trivial
          | some actor => exact .call nofun fun _ => .call nofun fun _ => .done trivial
        show Abides _ _ _ (if definition.isPublic then _ else _ : Service Assignment).run
        split
        · exact .call nofun fun _ => recorded _ _
        · exact recorded _ _

end

theorem request_paces (q : Request) : Abides q.Pace q.Closes [] q.service.run := by
  cases q with
  | sweep size rounds => exact sweep_paces
  | assign user role expiresAt actor => exact assign_paces
  | _ => exact .anyhow _

end Service

theorem Exchange.eq_of_removal {x : Exchange} {id : AssignmentId} (h : x.removal? = some id) :
    x = ⟨.deleteAssignment id, .ok true⟩ := by
  unfold removal? at h
  split at h
  · rw [Option.some.inj h]
  · simp at h

section

variable {log : Log} {size rounds : Nat}

theorem Log.mem_removals {id : AssignmentId} :
    id ∈ log.removals ↔ ⟨.deleteAssignment id, .ok true⟩ ∈ log := by
  refine ⟨fun h => ?_, fun h => List.mem_filterMap.mpr ⟨_, h, rfl⟩⟩
  obtain ⟨x, hx, removed⟩ := List.mem_filterMap.mp h
  exact Exchange.eq_of_removal removed ▸ hx

theorem Log.allowance_mono (x : Exchange) (log : Log) :
    Log.allowance log.batches ≤ Log.allowance (Log.batches (x :: log)) := by
  unfold Log.batches
  cases h : x.batch? with
  | none => rw [List.filterMap_cons_none h]
  | some batch =>
    rw [List.filterMap_cons_some h]
    simp only [Log.allowance, List.map_cons, List.sum_cons]
    omega

theorem Log.mem_withdrawn {a : Assignment} :
    a ∈ log.withdrawn ↔ ⟨.publish (.userRoleUnassigned a), .ok ()⟩ ∈ log := by
  refine ⟨fun h => ?_, fun h => List.mem_filterMap.mpr ⟨_, h, rfl⟩⟩
  obtain ⟨x, hx, announced⟩ := List.mem_filterMap.mp h
  unfold Exchange.withdrawn? at announced
  split at announced
  · exact Option.some.inj announced ▸ hx
  · simp at announced

theorem Log.Lawful.of_suffix {may : Log → Call → Prop} {before : Log} (h : log.Lawful may)
    (earlier : before <:+ log) : before.Lawful may := by
  induction log with
  | nil => exact List.suffix_nil.mp earlier ▸ trivial
  | cons x log ih =>
    rcases List.suffix_cons_iff.mp earlier with rfl | earlier
    · exact h
    · exact ih h.2 earlier

theorem Log.allowance_le {batches : List (List Assignment)} {most : Nat}
    (h : ∀ batch ∈ batches, batch.length ≤ most) :
    Log.allowance batches ≤ 2 + batches.length * (1 + 3 * most) := by
  induction batches with
  | nil => exact Nat.le_add_right _ _
  | cons batch rest ih =>
    have first := h batch List.mem_cons_self
    have others := ih fun b hb => h b (List.mem_cons_of_mem _ hb)
    rw [List.length_cons, Nat.succ_mul]
    simp only [Log.allowance, List.map_cons, List.sum_cons] at others ⊢
    omega

/-- The batches that a sweep has listed bound its calls. -/
theorem Log.Lawful.length_le (h : log.Lawful (Request.Pace (.sweep size rounds))) :
    log.length ≤ Log.allowance log.batches := by
  cases log with
  | nil => exact Nat.zero_le _
  | cons x log => exact Nat.le_trans h.1.1 (Log.allowance_mono x log)

/-- The rows that a sweep has removed bound its rounds. -/
theorem Log.Lawful.batches_le (h : log.Lawful (Request.Pace (.sweep size rounds))) :
    log.batches.length + log.progressed.toNat ≤ log.removals.length + 1 := by
  induction log with
  | nil => exact Nat.zero_le _
  | cons x log ih =>
    have before := ih h.2
    cases listed : x.batch? with
    | some batch =>
      obtain ⟨time, limit, call⟩ : ∃ time limit, x.call = .expiredAssignments time limit := by
        unfold Exchange.batch? at listed
        split at listed
        · exact ⟨_, _, rfl⟩
        · simp at listed
      have ready := (h.1.2 time limit call).2
      have counts : (Log.batches log).length ≤ (Log.removals log).length := by
        rcases ready with empty | progressed
        · exact empty ▸ Nat.zero_le _
        · rw [progressed, Bool.toNat_true] at before
          omega
      have kept : (Log.removals log).length ≤ (Log.removals (x :: log)).length :=
        ((List.sublist_cons_self x log).filterMap _).length_le
      rw [Log.progressed, listed, Log.batches, List.filterMap_cons_some listed]
      exact Nat.succ_le_succ (Nat.le_trans counts kept)
    | none =>
      rw [Log.progressed, listed, Log.batches, List.filterMap_cons_none listed]
      cases removed : x.removal? with
      | none => rwa [Log.removals, List.filterMap_cons_none removed]
      | some id =>
        rw [Log.removals, List.filterMap_cons_some removed]
        exact Nat.succ_le_succ (Nat.le_trans (Nat.le_add_right _ _) before)

theorem Log.Lawful.inserted_le {user : UserId} {role : RoleId} {expiresAt : Option Instant}
    {actor : Option Actor}
    (h : log.Lawful (Request.Pace (.assign user role expiresAt actor))) :
    log.inserted.length ≤ 1 := by
  induction log with
  | nil => exact Nat.zero_le _
  | cons x log ih =>
    cases stored : x.inserted? with
    | none =>
      rw [Log.inserted, List.filterMap_cons_none stored]
      exact ih h.2
    | some a =>
      obtain rfl : x = ⟨.insertAssignment a, .ok ()⟩ := by
        unfold Exchange.inserted? at stored
        split at stored
        · rw [Option.some.inj stored]
        · simp at stored
      have none : Log.inserted log = [] := h.1 a rfl
      rw [Log.inserted, List.filterMap_cons_some stored, List.length_cons]
      exact Nat.succ_le_succ (Nat.le_of_eq (congrArg List.length none))

end

end Entitlement
