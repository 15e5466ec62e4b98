import Entitlement.Proofs.Crowd.Pairs
import Entitlement.Proofs.Desk.Changes

/-!
# Loads beside changes of the store

One cache is kept over a store. Loads run side by side, and between their calls the store
is changed: each change is first written and later told to the cache, before the next one
is written. When no change is on the way, the cache shows what is stored, however slow a
load was; and a load that was overtaken is never kept.
-/

set_option autoImplicit false

namespace Entitlement

open Store

/-- A desk over a store. While a change is on the way, the store before it and its event are
kept; `seen` are the rows that were ever stored, and `lost` those that were deleted together
with their role. -/
structure Backed where
  desk : Desk
  store : Store
  owing : Option (Store × RoleEvent)
  seen : List Assignment
  lost : List Assignment

namespace Backed

inductive Step (lifetimes : Lifetimes) : Backed → Backed → Prop
  | quiet {s : Backed} {d : Desk}
      (step : Desk.Quiet lifetimes (Exchange.Fits s.store s.store) s.desk d) :
      Step lifetimes s { s with desk := d }
  | writes {s : Backed} {e : RoleEvent} {t : Store} (calm : s.owing = none)
      (change : s.store.Writes s.seen e t) :
      Step lifetimes s { s with
        store := t
        owing := some (s.store, e)
        seen := seenAfter e s.seen
        lost := s.store.lostAfter e s.lost }
  | applies {s : Backed} {old : Store} {e : RoleEvent} (due : s.owing = some (old, e)) :
      Step lifetimes s { s with desk := s.desk.apply e, owing := none }

abbrev Runs (lifetimes : Lifetimes) : Backed → Backed → Prop :=
  Relation.ReflTransGen (Step lifetimes)

structure Starts (s : Backed) : Prop where
  cache : s.desk.cache = .empty
  loads : s.desk.loads = []
  owing : s.owing = none
  seen : s.seen = s.store.rows
  roles_nodup : (s.store.roles.map (·.id)).Nodup
  distinct : Distinct s.store.rows

def tells (s : Backed) (a : Assignment) : Bool := pair a ∉ s.lost.map pair

def ShowsRoles (s : Backed) (roles : List Role) : Prop :=
  roles.Perm s.store.roles ∨ ∃ old e, s.owing = some (old, e) ∧ roles.Perm old.roles

structure ShowsRows (s : Backed) (user : UserId) (rows : List Assignment) : Prop where
  proper : UserLists.Proper (· ∈ s.seen) user rows
  read : Lists s.lost s.store user rows ∨
    ∃ old e, s.owing = some (old, e) ∧ Lists s.lost old user rows

structure Keeps (s : Backed) : Prop where
  recorded : s.store.Recorded s.seen
  settles : ∀ old e, s.owing = some (old, e) → Settles s.seen s.lost old e s.store
  upholds : s.desk.Upholds s.ShowsRoles s.ShowsRows

variable {lifetimes : Lifetimes} {s₀ s t : Backed} {user : UserId}

theorem Starts.keeps (h : s.Starts) : s.Keeps where
  recorded :=
    { roles_nodup := h.roles_nodup
      distinct := h.distinct
      stored_seen := fun a ha => h.seen ▸ ha
      seen_ids := fun a b ha hb hid =>
        h.distinct.row_of_id (h.seen ▸ ha : a ∈ s.store.rows) (h.seen ▸ hb) hid }
  settles old e due := by simp [h.owing] at due
  upholds :=
    { cache :=
        { snapshot := by simp [h.cache, Cache.empty, RoleSnapshot.empty]
          lists := by simp [h.cache, Cache.empty, UserLists.empty] }
      loads := by simp [h.loads] }

theorem Keeps.honest (h : s.Keeps) :
    Honest s.ShowsRoles s.ShowsRows (Exchange.Fits s.store s.store) where
  roles roles fits := .inl (.of_eq fits.1)
  rows user rows fits := by
    obtain rfl := fits.1
    have sound := UserLists.sound_of_store h.recorded.distinct user
    refine ⟨⟨sound, ?_, fun a ha => ?_⟩, .inl ⟨fun a _ => mem_assignmentsOfUser,
      fun a ha => .inl (mem_assignmentsOfUser.mp ha).1⟩⟩
    · exact ((List.mergeSort_perm _ _).map _).nodup_iff.mpr
        (Keyed.nodup_filter _ h.recorded.distinct.rows_nodup _)
    · exact h.recorded.stored_seen a (mem_assignmentsOfUser.mp ha).1

theorem Keeps.step (h : s.Keeps) (step : Step lifetimes s t) : t.Keeps := by
  cases step with
  | quiet step =>
    exact ⟨h.recorded, h.settles, (h.upholds.quiet h.honest step).mono (fun _ shows => shows)
      fun _ _ shows => ⟨shows.proper, shows.read⟩⟩
  | @writes e t calm change =>
    refine ⟨h.recorded.writes change, fun old f due => ?_, h.upholds.mono ?_ ?_⟩
    · obtain ⟨rfl, rfl⟩ := Prod.mk.inj (Option.some.inj due)
      exact change.settles h.recorded s.lost
    · rintro roles (now | ⟨old, f, due, -⟩)
      · exact .inr ⟨_, _, rfl, now⟩
      · simp [calm] at due
    · rintro user rows ⟨proper, now | ⟨old, f, due, -⟩⟩
      · refine ⟨⟨proper.toSound, proper.ids_nodup, fun a ha => seen_subset e _ (proper.known a ha)⟩,
          .inr ⟨_, _, rfl, now.mono (lost_subset s.store e _)⟩⟩
      · simp [calm] at due
  | @applies old e due =>
    have settles := h.settles old e due
    refine ⟨h.recorded, fun _ _ due => by simp at due, h.upholds.apply (fun roles read => ?_)
      fun user rows after shows patched => ?_⟩
    · refine .inl (settles.snapshot roles ?_)
      rcases read with now | ⟨_, _, due', was⟩
      · exact .inr now
      · obtain ⟨rfl, rfl⟩ := Prod.mk.inj (Option.some.inj (due.symm.trans due'))
        exact .inl was
    · refine ⟨shows.proper.patched h.recorded.seen_ids settles.row patched,
        .inl (settles.lists user rows after shows.proper ?_ patched)⟩
      rcases shows.read with now | ⟨_, _, due', was⟩
      · exact .inr now
      · obtain ⟨rfl, rfl⟩ := Prod.mk.inj (Option.some.inj (due.symm.trans due'))
        exact .inl was

theorem Keeps.run (h : s₀.Keeps) (run : Runs lifetimes s₀ s) : s.Keeps := by
  induction run with
  | refl => exact h
  | tail _ step ih => exact ih.step step

/-- A load that was overtaken stays so. -/
theorem Step.overtaken {i : Nat} (step : Step lifetimes s t)
    (h : ∃ l, s.desk.loads[i]? = some l ∧ l.Overtaken s.desk.cache) :
    ∃ l, t.desk.loads[i]? = some l ∧ l.Overtaken t.desk.cache := by
  cases step with
  | quiet step => exact step.overtaken h
  | writes calm change => exact h
  | applies due =>
    obtain ⟨l, hl, overtaken⟩ := h
    exact ⟨l, hl, overtaken.mono (Wanted.version_apply ▸ Nat.le_add_right _ _)⟩

theorem Runs.overtaken {i : Nat} (run : Runs lifetimes s t)
    (h : ∃ l, s.desk.loads[i]? = some l ∧ l.Overtaken s.desk.cache) :
    ∃ l, t.desk.loads[i]? = some l ∧ l.Overtaken t.desk.cache := by
  induction run with
  | refl => exact h
  | tail _ step ih => exact step.overtaken ih

/-- Whenever no change is on the way, a snapshot holds the stored roles; the list of a user has
only rows of that user that are stored or went along with their role, and exactly those stored
on all pairs that have lost no row so. A load that has looked before an event of its half is
applied or its half is cleared does nothing more to the cache. -/
theorem slow_loads_hide_nothing (start : s₀.Starts) (run : Runs lifetimes s₀ s) :
    (s.owing = none →
      (∀ c, s.desk.cache.roles.entry = some c → c.value.Perm s.store.roles) ∧
      ∀ user c, (user, c) ∈ s.desk.cache.lists.entries →
        (∀ a ∈ c.value, a.userId = user ∧ (a ∈ s.store.rows ∨ a ∈ s.lost)) ∧
        (c.value.filter s.tells).Perm ((s.store.assignmentsOfUser user).filter s.tells)) ∧
    ∀ i l, s.desk.loads[i]? = some l → l.HasLooked →
      ∀ t, Step lifetimes s t → s.desk.Overtakes l.wanted t.desk →
        ∀ u, Runs lifetimes t u → u.desk.Idles lifetimes i := by
  have keeps := start.keeps.run run
  refine ⟨fun calm => ⟨fun c hc => ?_, fun user c hc => ?_⟩,
    fun i l hl looked t _ passed u later => ?_⟩
  · rcases keeps.upholds.cache.snapshot c hc with now | ⟨_, _, due, -⟩
    · exact now
    · simp [calm] at due
  · obtain ⟨proper, now | ⟨_, _, due, -⟩⟩ := keeps.upholds.cache.lists user c hc
    · refine ⟨fun a ha => ⟨proper.of_user a ha, now.within a ha⟩, ?_⟩
      obtain ⟨stored, -⟩ := keeps.honest.rows user _ ⟨rfl, rfl⟩
      apply (List.perm_ext_iff_of_nodup (proper.ids_nodup.of_map.filter _)
        (stored.ids_nodup.of_map.filter _)).mpr
      intro a
      rw [List.mem_filter, List.mem_filter, and_congr_left_iff]
      intro kept
      exact (now.listed a (by simpa [tells] using kept)).trans mem_assignmentsOfUser.symm
    · simp [calm] at due
  · have lost : l.Overtaken t.desk.cache :=
      (keeps.upholds.loads l (List.mem_of_getElem? hl)).overtaken looked passed.version_lt
    exact Desk.idles_of_overtaken (later.overtaken ⟨l, passed.loads ▸ hl, lost⟩)

def cold (store : Store) : Backed :=
  { desk := ⟨.empty, 0, []⟩, store, owing := none, seen := store.rows, lost := [] }

theorem cold_starts {store : Store} (roles_nodup : (store.roles.map (·.id)).Nodup)
    (distinct : Distinct store.rows) : (cold store).Starts :=
  ⟨rfl, rfl, rfl, rfl, roles_nodup, distinct⟩

/-- A list is read before a grant is written and offered after it was applied, which keeps it out.
The next load reads the grant too. -/
theorem slow_loads_hide_nothing_granted :
    let user : UserId := ⟨.generated 9⟩
    let role : RoleId := ⟨.generated 0⟩
    let row : Assignment := ⟨⟨.generated 1⟩, role, user, none, ⟨1, 0⟩⟩
    let s₀ := cold (Crowd.holding ⟨⟨.generated 8⟩, role, ⟨.generated 7⟩, none, ⟨0, 0⟩⟩).store
    s₀.Starts ∧ ∃ s, Runs .default s₀ s ∧ s.owing = none ∧ s.desk.Idles .default 0 ∧
      s.desk.cache.lists.entries.map (fun entry => (entry.1, entry.2.value)) = [(user, [row])] ∧
      ∀ user c, (user, c) ∈ s.desk.cache.lists.entries →
        (∀ a ∈ c.value, a.userId = user ∧ (a ∈ s.store.rows ∨ a ∈ s.lost)) ∧
        (c.value.filter s.tells).Perm ((s.store.assignmentsOfUser user).filter s.tells) := by
  intro user role row s₀
  have starts : s₀.Starts :=
    cold_starts (by decide +kernel) ⟨List.nodup_singleton _, List.nodup_singleton _⟩
  have opened : Runs .default s₀ _ := .single (.quiet (.begins (.rows user)))
  have looked := opened.tail
    (.quiet (.proceeds (i := 0) (c := .lookupAssignments user) (r := .missing 0) rfl rfl))
  have read := looked.tail (.quiet (.proceeds (i := 0) (c := .assignmentsOfUser user) (r := .ok [])
    rfl ⟨by decide +kernel, rfl⟩))
  have written := read.tail (.writes (e := .userRoleAssigned row)
    (t := ⟨s₀.store.roles, s₀.store.rows ++ [row]⟩) rfl
    (.assigned (by decide +kernel) rfl))
  have told := written.tail (.applies rfl)
  have here {t : Backed} (_ : Runs .default s₀ t) : Runs .default t t := .refl
  have begun := (here told).tail (.quiet (.begins (.rows user)))
  have lookedAgain := begun.tail
    (.quiet (.proceeds (i := 1) (c := .lookupAssignments user) (r := .missing 1) rfl rfl))
  have readAgain := lookedAgain.tail (.quiet
    (.proceeds (i := 1) (c := .assignmentsOfUser user) (r := .ok [row]) rfl
      ⟨by decide +kernel, rfl⟩))
  have offered := readAgain.tail (.quiet
    (.proceeds (i := 0) (c := .installAssignments user 0 []) (r := []) rfl rfl))
  have installed := offered.tail (.quiet
    (.proceeds (i := 1) (c := .installAssignments user 1 [row]) (r := [row]) rfl rfl))
  have whole := told.trans installed
  refine ⟨starts, _, whole, rfl, ?_, by decide +kernel,
    ((slow_loads_hide_nothing starts whole).1 rfl).2⟩
  exact (slow_loads_hide_nothing starts written).2 0 _ rfl nofun _ (.applies rfl) (.applied rfl) _
    installed

/-- The row of a role that was deleted stays in a list that was read before. -/
theorem lost_row_listed :
    let user : UserId := ⟨.generated 9⟩
    let row : Assignment := ⟨⟨.generated 8⟩, ⟨.generated 0⟩, user, none, ⟨0, 0⟩⟩
    let s₀ := cold (Crowd.holding row).store
    s₀.Starts ∧ ∃ s, Runs .default s₀ s ∧ s.owing = none ∧
      (∀ l ∈ s.desk.loads, ∃ r, l.rest = .done r) ∧
      s.desk.cache.lists.entries.map (fun entry => (entry.1, entry.2.value)) = [(user, [row])] ∧
      s.store.assignmentsOfUser user = [] := by
  intro user row s₀
  let role : Role := s₀.store.roles.head (by decide +kernel)
  have starts : s₀.Starts :=
    cold_starts (by decide +kernel) ⟨List.nodup_singleton _, List.nodup_singleton _⟩
  have deletion : Store.Writes s₀.seen s₀.store (.roleDeleted role) .empty := .deleted rfl
  have opened : Runs .default s₀ _ := .single (.quiet (.begins (.rows user)))
  have looked := opened.tail
    (.quiet (.proceeds (i := 0) (c := .lookupAssignments user) (r := .missing 0) rfl rfl))
  have read := looked.tail (.quiet (.proceeds (i := 0) (c := .assignmentsOfUser user)
    (r := .ok [row]) rfl ⟨by decide +kernel, rfl⟩))
  have installed := read.tail (.quiet
    (.proceeds (i := 0) (c := .installAssignments user 0 [row]) (r := [row]) rfl rfl))
  have deleted := installed.tail (.writes rfl deletion)
  have told := deleted.tail (.applies rfl)
  exact ⟨starts, _, told, rfl, List.forall_mem_singleton.mpr ⟨.ok [row], rfl⟩, by decide +kernel,
    by decide +kernel⟩

end Backed

end Entitlement
