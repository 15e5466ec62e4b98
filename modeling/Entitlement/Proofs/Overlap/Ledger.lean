import Mathlib.Logic.Function.Basic
import Entitlement.Proofs.Cache
import Entitlement.Proofs.Overlap.Duties
import Entitlement.Proofs.Store

/-!
# Lists that settle

While requests run, a list of a user may show a row that is gone, or miss one that is
stored; then a request owes the cache the event that makes up for it. A list that is
being loaded is held to the same as long as no event has come in between. Where nothing
is owed any more, a list shows exactly what is stored.
-/

set_option autoImplicit false

namespace Entitlement

structure Ledger where
  rows : List Assignment
  lists : UserLists
  issued : List Uuid
  history : List Assignment
  stage : Nat → Standing

namespace Ledger

def Owed (b : Ledger) (e : RoleEvent) : Prop := ∃ i, b.stage i = .owing e

structure Shows (b : Ledger) (user : UserId) (list : List Assignment) : Prop where
  sound : UserLists.Sound user list
  known : list ⊆ b.history
  live : ∀ a ∈ list, a ∈ b.rows ∨ b.Owed (.userRoleUnassigned a)
  full : ∀ a ∈ b.rows, a.userId = user → a ∈ list ∨ b.Owed (.userRoleAssigned a)

def Fits (b : Ledger) : Standing → Prop
  | .free => True
  | .named id => id.uuid ∈ b.issued ∧ ∀ a ∈ b.history, a.id ≠ id
  | .owing (.userRoleAssigned a) => a ∈ b.history
  | .owing (.userRoleUnassigned a) => a ∈ b.history ∧ a ∉ b.rows
  | .owing _ => False
  | .looked _ version => version ≤ b.lists.version
  | .loaded user version list =>
    version ≤ b.lists.version ∧ (version = b.lists.version → b.Shows user list)

structure Settling (b : Ledger) : Prop where
  distinct : (b.history.map (·.id)).Nodup
  issued : ∀ a ∈ b.history, a.id.uuid ∈ b.issued
  rows : Store.Distinct b.rows
  stored : b.rows ⊆ b.history
  stages : ∀ i, b.Fits (b.stage i)
  named_once : ∀ i j id, b.stage i = .named id → b.stage j = .named id → i = j
  lists : ∀ user c, (user, c) ∈ b.lists.entries → b.Shows user c.value

def add (b : Ledger) (a : Assignment) : Ledger :=
  { b with rows := b.rows ++ [a], history := a :: b.history }

def drop (b : Ledger) (a : Assignment) : Ledger :=
  { b with rows := b.rows.filter fun y => y.id ≠ a.id }

def enter (b : Ledger) (i : Nat) (stage : Standing) : Ledger :=
  { b with stage := Function.update b.stage i stage }

variable {b : Ledger} {i j : Nat} {x y : Standing} {e : RoleEvent} {a : Assignment} {user : UserId}
  {list : List Assignment} {id : Uuid}

@[simp] theorem enter_stage_self : (b.enter i x).stage i = x := Function.update_self ..

theorem enter_stage_other (h : j ≠ i) : (b.enter i x).stage j = b.stage j :=
  Function.update_of_ne h ..

theorem owed_enter : (b.enter i (.owing e)).Owed e := ⟨i, enter_stage_self⟩

theorem Owed.enter (h : b.Owed e) (hi : b.stage i ≠ .owing e) : (b.enter i x).Owed e := by
  obtain ⟨j, hj⟩ := h
  refine ⟨j, (enter_stage_other ?_).trans hj⟩
  rintro rfl
  exact hi hj

/-- While one request owes something and the others are free, nothing else is owed. -/
theorem owed_alone {owed : RoleEvent} (owing : b.stage i = .owing e)
    (others : ∀ j, j ≠ i → b.stage j = .free) (h : b.Owed owed) : owed = e := by
  obtain ⟨j, hj⟩ := h
  by_cases hji : j = i
  · rw [hji, owing] at hj
    exact (Standing.owing.inj hj).symm
  · simp [others j hji] at hj

/-- A list keeps to it as long as nothing owed for it is forgotten. -/
theorem Shows.enter (h : b.Shows user list)
    (hrevoked : ∀ a ∈ list, b.stage i ≠ .owing (.userRoleUnassigned a))
    (hgranted : ∀ a ∈ b.rows, a.userId = user → a ∉ list →
      b.stage i ≠ .owing (.userRoleAssigned a)) : (b.enter i x).Shows user list where
  sound := h.sound
  known := h.known
  live a ha := (h.live a ha).imp_right fun howed => howed.enter (hrevoked a ha)
  full a ha hu := by
    by_cases hl : a ∈ list
    · exact .inl hl
    · exact .inr (((h.full a ha hu).resolve_left hl).enter (hgranted a ha hu hl))

theorem Shows.congr {c : Ledger} (h : b.Shows user list) (rows : c.rows = b.rows)
    (history : c.history = b.history) (stage : c.stage = b.stage) : c.Shows user list where
  sound := h.sound
  known := history ▸ h.known
  live := by
    unfold Owed
    rw [rows, stage]
    exact h.live
  full := by
    unfold Owed
    rw [rows, stage]
    exact h.full

/-- A stage still fits after a change in which rows come back nowhere and no new row takes
a name that was drawn. A list that is being loaded counts only while its version lasts. -/
theorem Fits.mono {c : Ledger} (h : b.Fits y) (history : b.history ⊆ c.history)
    (gone : ∀ a ∈ b.history, a ∈ c.rows → a ∈ b.rows) (issued : b.issued ⊆ c.issued)
    (fresh : ∀ id, y = .named id → ∀ a ∈ c.history, a ∉ b.history → a.id ≠ id)
    (version : b.lists.version ≤ c.lists.version)
    (shows : c.lists.version = b.lists.version → ∀ user list, b.Shows user list →
      c.Shows user list) : c.Fits y := by
  cases y with
  | free => trivial
  | named id =>
    constructor
    · exact issued h.1
    · intro a ha
      by_cases known : a ∈ b.history
      · exact h.2 a known
      · exact fresh id rfl a ha known
  | owing e =>
    cases e with
    | userRoleAssigned a => exact history h
    | userRoleUnassigned a => exact ⟨history h.1, fun ha => h.2 (gone a h.1 ha)⟩
    | _ => exact h
  | looked user v => exact Nat.le_trans h version
  | loaded user v list =>
    constructor
    · exact Nat.le_trans h.1 version
    · intro hv
      have hle : c.lists.version ≤ b.lists.version := hv ▸ h.1
      have same := Nat.le_antisymm hle version
      exact shows same user list (h.2 (hv.trans same))

theorem Shows.enter_quiet (h : b.Shows user list) (quiet : ∀ e, b.stage i ≠ .owing e) :
    (b.enter i x).Shows user list :=
  h.enter (fun _ _ => quiet _) fun _ _ _ _ => quiet _

theorem Fits.of_same {c : Ledger} (h : b.Fits y) (history : c.history = b.history)
    (rows : c.rows ⊆ b.rows) (issued : b.issued ⊆ c.issued)
    (version : b.lists.version ≤ c.lists.version)
    (shows : c.lists.version = b.lists.version → ∀ user list, b.Shows user list →
      c.Shows user list) : c.Fits y :=
  h.mono (history ▸ List.Subset.refl _) (fun _ _ ha => rows ha) issued
    (fun _ _ _ ha unknown => absurd (history ▸ ha) unknown) version shows

theorem Fits.enter_quiet (h : b.Fits y) (quiet : ∀ e, b.stage i ≠ .owing e) :
    (b.enter i x).Fits y :=
  h.of_same rfl (List.Subset.refl _) (List.Subset.refl _) (Nat.le_refl _)
    fun _ _ _ hl => hl.enter_quiet quiet

/-- A list may miss a new row as long as its grant is owed. -/
theorem Shows.add (h : b.Shows user list) (quiet : ∀ e, b.stage i ≠ .owing e) :
    ((b.add a).enter i (.owing (.userRoleAssigned a))).Shows user list where
  sound := h.sound
  known := List.subset_cons_of_subset a h.known
  live x hx := (h.live x hx).imp (List.mem_append_left _) fun howed => Owed.enter howed (quiet _)
  full x hx hu := by
    rcases List.mem_append.mp hx with hx | hx
    · exact (h.full x hx hu).imp_right fun howed => Owed.enter howed (quiet _)
    · rw [List.mem_singleton.mp hx]
      exact .inr owed_enter

theorem Fits.add (h : b.Fits y) (quiet : ∀ e, b.stage i ≠ .owing e) (new : a ∉ b.history)
    (fresh : ∀ id, y = .named id → a.id ≠ id) :
    ((b.add a).enter i (.owing (.userRoleAssigned a))).Fits y := by
  refine h.mono (List.subset_cons_self _ _) ?_ (List.Subset.refl _) ?_ (Nat.le_refl _)
    fun _ _ _ hl => hl.add quiet
  · intro z hz hin
    rcases List.mem_append.mp hin with hin | hin
    · exact hin
    · exact absurd (List.mem_singleton.mp hin ▸ hz) new
  · intro id hid z hz unknown
    rcases List.mem_cons.mp hz with rfl | hz
    · exact fresh id hid
    · exact absurd hz unknown

/-- A list may show a dropped row as long as its revocation is owed. -/
theorem Shows.drop (h : b.Shows user list) (quiet : ∀ e, b.stage i ≠ .owing e)
    (kept : ∀ y, y ∈ (b.drop a).rows ↔ y ∈ b.rows ∧ y ≠ a)
    (hx : x = .owing (.userRoleUnassigned a) ∨ x = .free ∧ a ∉ b.rows) :
    ((b.drop a).enter i x).Shows user list where
  sound := h.sound
  known := h.known
  live y hy := by
    rcases h.live y hy with hrow | howed
    · by_cases hya : y = a
      · rcases hx with rfl | ⟨-, hgone⟩
        · exact .inr (hya ▸ owed_enter)
        · exact absurd (hya ▸ hrow) hgone
      · exact .inl ((kept y).mpr ⟨hrow, hya⟩)
    · exact .inr (Owed.enter howed (quiet _))
  full y hy hu :=
    (h.full y ((kept y).mp hy).1 hu).imp_right fun howed => Owed.enter howed (quiet _)

theorem stages_enter (hx : (b.enter i x).Fits x)
    (hothers : ∀ j, j ≠ i → (b.enter i x).Fits (b.stage j)) (j : Nat) :
    (b.enter i x).Fits ((b.enter i x).stage j) := by
  by_cases hj : j = i
  · rw [hj, enter_stage_self]
    exact hx
  · rw [enter_stage_other hj]
    exact hothers j hj

theorem named_once_enter (h : ∀ i j id, b.stage i = .named id → b.stage j = .named id → i = j)
    (hx : ∀ id, x = .named id → ∀ j, j ≠ i → b.stage j ≠ .named id) (j l : Nat)
    (id : AssignmentId) (hj : (b.enter i x).stage j = .named id)
    (hl : (b.enter i x).stage l = .named id) : j = l := by
  by_cases hji : j = i <;> by_cases hli : l = i
  · rw [hji, hli]
  · rw [hji, enter_stage_self] at hj
    rw [enter_stage_other hli] at hl
    exact absurd hl (hx id hj l hli)
  · rw [hli, enter_stage_self] at hl
    rw [enter_stage_other hji] at hj
    exact absurd hj (hx id hl j hji)
  · rw [enter_stage_other hji] at hj
    rw [enter_stage_other hli] at hl
    exact h j l id hj hl

theorem Shows.hid (h : b.Shows user list) (hb : b.Settling) (ha : a ∈ b.history) :
    ∀ x ∈ list, x.id = a.id → x = a := fun _ hx hid =>
  List.inj_on_of_nodup_map hb.distinct (h.known hx) ha hid

namespace Settling

theorem fits_of (h : b.Settling) (hi : b.stage i = x) : b.Fits x := hi ▸ h.stages i

theorem enter (h : b.Settling) (quiet : ∀ e, b.stage i ≠ .owing e) (fits : b.Fits x)
    (once : ∀ id, x = .named id → ∀ j, j ≠ i → b.stage j ≠ .named id) :
    (b.enter i x).Settling where
  distinct := h.distinct
  issued := h.issued
  rows := h.rows
  stored := h.stored
  stages := stages_enter (fits.enter_quiet quiet) fun j _ => (h.stages j).enter_quiet quiet
  named_once := named_once_enter h.named_once once
  lists user c hc := (h.lists user c hc).enter_quiet quiet

theorem free (h : b.Settling) (quiet : ∀ e, b.stage i ≠ .owing e) : (b.enter i .free).Settling :=
  h.enter quiet trivial (by simp)

theorem draw (h : b.Settling) (quiet : ∀ e, b.stage i ≠ .owing e) (fresh : id ∉ b.issued) :
    ({ b with issued := id :: b.issued }.enter i (.named ⟨id⟩) : Ledger).Settling := by
  have drawn : ({ b with issued := id :: b.issued } : Ledger).Settling := {
    distinct := h.distinct
    issued := fun a ha => List.mem_cons_of_mem _ (h.issued a ha)
    rows := h.rows
    stored := h.stored
    stages := fun j => (h.stages j).of_same rfl (List.Subset.refl _) (List.subset_cons_self _ _)
      (Nat.le_refl _) fun _ _ _ hl => hl.congr rfl rfl rfl
    named_once := h.named_once
    lists := fun user c hc => (h.lists user c hc).congr rfl rfl rfl }
  refine drawn.enter quiet ⟨List.mem_cons_self, fun a ha hid => fresh ?_⟩ fun id' hid j _ hj => ?_
  · have := h.issued a ha
    rwa [hid] at this
  · obtain rfl := Standing.named.inj hid
    exact fresh (h.fits_of hj).1

/-- A new row is stored, and its grant is owed. -/
theorem insert (h : b.Settling) (named : b.stage i = .named a.id)
    (free : ∀ x ∈ b.rows, x.userId = a.userId → x.roleId ≠ a.roleId) :
    ((b.add a).enter i (.owing (.userRoleAssigned a))).Settling := by
  obtain ⟨hissued, hnew⟩ := h.fits_of named
  have quiet (e : RoleEvent) : b.stage i ≠ .owing e := by simp [named]
  have fresh (j : Nat) (hj : j ≠ i) (id : AssignmentId) (hs : b.stage j = .named id) :
      a.id ≠ id := by
    rintro rfl
    exact hj (h.named_once j i a.id hs named)
  exact {
    distinct := List.nodup_cons.mpr ⟨by simpa using hnew, h.distinct⟩
    issued := List.forall_mem_cons.mpr ⟨hissued, h.issued⟩
    rows := h.rows.append (fun x hx => hnew x (h.stored hx)) free
    stored := fun y hy => (List.mem_append.mp hy).elim
      (fun hy => List.mem_cons_of_mem _ (h.stored hy))
      fun hy => List.mem_singleton.mp hy ▸ List.mem_cons_self
    stages := stages_enter (b := b.add a) List.mem_cons_self fun j hj =>
      (h.stages j).add quiet (fun ha => hnew a ha rfl) (fresh j hj)
    named_once := named_once_enter h.named_once (by simp)
    lists := fun user c hc => (h.lists user c hc).add quiet }

/-- Only the row itself is dropped: no other one has its identifier. -/
theorem mem_drop (h : b.Settling) (seen : a ∈ b.history) {y : Assignment} :
    y ∈ (b.drop a).rows ↔ y ∈ b.rows ∧ y ≠ a := by
  simp only [drop, List.mem_filter, decide_eq_true_eq]
  apply and_congr_right
  intro hy
  apply not_congr
  constructor
  · exact List.inj_on_of_nodup_map h.distinct (h.stored hy) seen
  · rintro rfl
    rfl

/-- A row is removed, and its revocation is owed; or it was not there any more. -/
theorem remove (h : b.Settling) (seen : a ∈ b.history) (free : b.stage i = .free)
    (hx : x = .owing (.userRoleUnassigned a) ∨ x = .free ∧ a ∉ b.rows) :
    ((b.drop a).enter i x).Settling := by
  have quiet (e : RoleEvent) : b.stage i ≠ .owing e := by simp [free]
  have shows {user : UserId} {list : List Assignment} (hl : b.Shows user list) :
      ((b.drop a).enter i x).Shows user list :=
    hl.drop quiet (fun _ => h.mem_drop seen) hx
  have fits : ((b.drop a).enter i x).Fits x := by
    rcases hx with rfl | ⟨rfl, -⟩
    · exact ⟨seen, fun hin => ((h.mem_drop seen).mp hin).2 rfl⟩
    · trivial
  have unnamed (id : AssignmentId) : x ≠ .named id := by
    rcases hx with rfl | ⟨rfl, -⟩ <;> simp
  exact {
    distinct := h.distinct
    issued := h.issued
    rows := h.rows.filter _
    stored := fun y hy => h.stored (List.mem_filter.mp hy).1
    stages := stages_enter fits fun j _ => (h.stages j).of_same rfl
      (fun _ hy => (List.mem_filter.mp hy).1) (List.Subset.refl _) (Nat.le_refl _)
      fun _ _ _ hl => shows hl
    named_once := named_once_enter h.named_once fun id hid => absurd hid (unnamed id)
    lists := fun user c hc => shows (h.lists user c hc) }

/-- A grant is applied to a list while its row is stored and no row of the role that was
created later stands in the list. -/
theorem shows_granted (h : b.Settling) (hl : b.Shows a.userId list)
    (owing : b.stage i = .owing (.userRoleAssigned a)) (stored : a ∈ b.rows)
    (latest : ∀ y ∈ list, y.roleId = a.roleId → ¬ a.createdAt < y.createdAt) :
    (b.enter i .free).Shows a.userId (UserLists.patch (.userRoleAssigned a) list) := by
  have hid := hl.hid h (h.stored stored)
  have hkept (y : Assignment) (hy : y ∈ list) (hr : y.roleId ≠ a.roleId ∨ y = a) :
      y ∈ UserLists.patch (.userRoleAssigned a) list := by
    rw [UserLists.patch_assigned hid]
    split
    · exact hy
    · rcases hr with hr | rfl
      · exact List.mem_append_left _ (List.mem_filter.mpr ⟨hy, by simpa using hr⟩)
      · simp
  have hlisted := UserLists.mem_patch_assigned hid latest
  have hmem (y : Assignment) (hy : y ∈ UserLists.patch (.userRoleAssigned a) list) :
      y ∈ list ∨ y = a :=
    (UserLists.mem_of_mem_patch hy).imp_right fun he =>
      (RoleEvent.userRoleAssigned.inj he).symm
  refine ⟨UserLists.patch_sound hl.sound fun z hz => ?_, fun y hy => ?_, fun y hy => ?_,
    fun y hy hu => ?_⟩
  · obtain rfl := Option.some.inj hz
    exact ⟨rfl, hid⟩
  · rcases hmem y hy with hy | rfl
    · exact hl.known hy
    · exact h.stored stored
  · rcases hmem y hy with hy | rfl
    · exact (hl.live y hy).imp_right fun howed => howed.enter (by simp [owing])
    · exact .inl stored
  · by_cases hya : y = a
    · exact .inl (hya ▸ hlisted)
    · rcases hl.full y hy hu with hin | howed
      · refine .inl (hkept y hin (.inl fun hr => hya ?_))
        exact h.rows.row_of_pair hy stored hu hr
      · exact .inr (howed.enter (by simpa [owing] using Ne.symm hya))

/-- A grant of a row that is gone is passed over for a row that was created later. -/
theorem shows_passed_over (h : b.Settling) (hl : b.Shows a.userId list)
    (owing : b.stage i = .owing (.userRoleAssigned a)) (gone : a ∉ b.rows) {y : Assignment}
    (hy : y ∈ list) (hr : y.roleId = a.roleId) (later : a.createdAt < y.createdAt) :
    (b.enter i .free).Shows a.userId (UserLists.patch (.userRoleAssigned a) list) := by
  rw [UserLists.patch_assigned (hl.hid h (h.fits_of owing)), if_pos (.inr ⟨y, hy, hr, later⟩)]
  apply hl.enter (by simp [owing])
  intro z hz _ _
  rw [owing]
  rintro ⟨⟩
  exact gone hz

/-- A revocation is applied to a list. Its row is not stored any more. -/
theorem shows_revoked (h : b.Settling) (hl : b.Shows a.userId list)
    (owing : b.stage i = .owing (.userRoleUnassigned a)) :
    (b.enter i .free).Shows a.userId (UserLists.patch (.userRoleUnassigned a) list) := by
  obtain ⟨hknown, hgone⟩ := h.fits_of owing
  have hmem {y : Assignment} :
      y ∈ UserLists.patch (.userRoleUnassigned a) list ↔ y ∈ list ∧ y.id ≠ a.id := by
    simp [UserLists.patch]
  have hid := hl.hid h hknown
  refine ⟨UserLists.patch_sound hl.sound fun z hz => ?_, fun y hy => hl.known (hmem.mp hy).1,
    fun y hy => ?_, fun y hy hu => ?_⟩
  · obtain rfl := Option.some.inj hz
    exact ⟨rfl, hid⟩
  · refine (hl.live y (hmem.mp hy).1).imp_right fun howed => howed.enter ?_
    rw [owing]
    rintro ⟨⟩
    exact (hmem.mp hy).2 rfl
  · rcases hl.full y hy hu with hin | howed
    · refine .inl (hmem.mpr ⟨hin, fun he => hgone ?_⟩)
      exact hid y hin he ▸ hy
    · exact .inr (howed.enter (by simp [owing]))

/-- An event is applied to the list of its user. What was being loaded is no longer taken
in, for the lists have another version. -/
theorem apply (h : b.Settling) (user : UserId)
    (patched : ∀ c, (user, c) ∈ b.lists.entries →
      (b.enter i .free).Shows user (UserLists.patch e c.value))
    (others : ∀ other c, other ≠ user → (other, c) ∈ b.lists.entries →
      (b.enter i .free).Shows other c.value) :
    ({ b with lists := b.lists.apply e user }.enter i .free : Ledger).Settling where
  distinct := h.distinct
  issued := h.issued
  rows := h.rows
  stored := h.stored
  stages := stages_enter trivial fun j _ => (h.stages j).of_same rfl (List.Subset.refl _)
    (List.Subset.refl _) (Nat.le_succ _) fun same => absurd same (Nat.succ_ne_self _)
  named_once := named_once_enter h.named_once (by simp)
  lists other c hc := by
    obtain ⟨⟨u, d⟩, hd, he⟩ := List.mem_map.mp hc
    dsimp only at he
    by_cases hu : u = user
    · rw [if_pos hu] at he
      obtain ⟨rfl, rfl⟩ := Prod.mk.inj he
      obtain rfl := hu
      exact (patched d hd).congr rfl rfl rfl
    · rw [if_neg hu] at he
      obtain ⟨rfl, rfl⟩ := Prod.mk.inj he
      exact (others u d hu hd).congr rfl rfl rfl

/-- A grant is applied. Into a list of its user it goes exactly if its row is stored. -/
theorem grant (h : b.Settling) (owing : b.stage i = .owing (.userRoleAssigned a))
    (inOrder : ∀ c, (a.userId, c) ∈ b.lists.entries → (a ∈ b.rows ↔
      ∀ y ∈ c.value, y.roleId = a.roleId → ¬ a.createdAt < y.createdAt)) :
    ({ b with lists := b.lists.apply (.userRoleAssigned a) a.userId }.enter i .free :
      Ledger).Settling := by
  apply h.apply a.userId
  · intro c hc
    by_cases hstored : a ∈ b.rows
    · exact h.shows_granted (h.lists _ c hc) owing hstored ((inOrder c hc).mp hstored)
    · have hlater := mt (inOrder c hc).mpr hstored
      push Not at hlater
      obtain ⟨y, hy, hr, hlt⟩ := hlater
      exact h.shows_passed_over (h.lists _ c hc) owing hstored hy hr hlt
  · intro other c hne hc
    apply (h.lists other c hc).enter (by simp [owing])
    intro y hy hu _
    rw [owing]
    rintro ⟨⟩
    exact hne hu.symm

theorem revoke (h : b.Settling) (owing : b.stage i = .owing (.userRoleUnassigned a)) :
    ({ b with lists := b.lists.apply (.userRoleUnassigned a) a.userId }.enter i .free :
      Ledger).Settling := by
  apply h.apply a.userId (fun c hc => h.shows_revoked (h.lists _ c hc) owing)
  intro other c hne hc
  refine (h.lists other c hc).enter (fun y hy => ?_) (by simp [owing])
  rw [owing]
  rintro ⟨⟩
  exact hne ((h.lists other c hc).sound.of_user a hy).symm

theorem look (h : b.Settling) (user : UserId) (quiet : ∀ e, b.stage i ≠ .owing e) :
    (b.enter i (.looked user b.lists.version)).Settling :=
  h.enter quiet (Nat.le_refl _) (by simp)

theorem load (h : b.Settling) {version : Nat} (looked : b.stage i = .looked user version)
    (sound : UserLists.Sound user list) (hlist : ∀ y, y ∈ list ↔ y ∈ b.rows ∧ y.userId = user) :
    (b.enter i (.loaded user version list)).Settling := by
  refine h.enter (by simp [looked]) ⟨h.fits_of looked, fun _ => ⟨sound, ?_, ?_, ?_⟩⟩ (by simp)
  · intro y hy
    exact h.stored ((hlist y).mp hy).1
  · intro y hy
    exact .inl ((hlist y).mp hy).1
  · intro y hy hu
    exact .inl ((hlist y).mpr ⟨hy, hu⟩)

theorem relist (h : b.Settling) {lists : UserLists} (version : lists.version = b.lists.version)
    (hlists : ∀ user c, (user, c) ∈ lists.entries → b.Shows user c.value) :
    ({ b with lists } : Ledger).Settling where
  distinct := h.distinct
  issued := h.issued
  rows := h.rows
  stored := h.stored
  stages j := (h.stages j).of_same rfl (List.Subset.refl _) (List.Subset.refl _)
    (Nat.le_of_eq version.symm) fun _ _ _ hl => hl.congr rfl rfl rfl
  named_once := h.named_once
  lists user c hc := (hlists user c hc).congr rfl rfl rfl

theorem install (h : b.Settling) {version : Nat} (loaded : b.stage i = .loaded user version list)
    (now : Moment) (lifetime : Nat) :
    ({ b with lists := (b.lists.install user now lifetime version list).2 }.enter i .free :
      Ledger).Settling := by
  have hfree : (b.enter i .free).Settling := h.free (by simp [loaded])
  obtain ⟨-, hshows⟩ := h.fits_of loaded
  unfold UserLists.install
  cases b.lists.freshValue? user now with
  | some rows => exact hfree
  | none =>
    dsimp only
    split
    · next hv =>
      have hl := (hshows hv.symm).enter_quiet (i := i) (x := .free) (by simp [loaded])
      refine hfree.relist rfl fun u c hc => ?_
      rcases UserLists.mem_of_mem_put hc with ⟨rfl, rfl⟩ | hc
      · exact hl
      · exact hfree.lists u c hc
    · exact hfree

end Settling

end Ledger

end Entitlement
