import Entitlement.Proofs.Sync.Runs

/-!
# Caches of peers converge

A subscriber whose queue is empty shows what is stored: its snapshot holds the stored
roles, and each list, as far as it is about stored roles, the stored rows of its user.
-/

set_option autoImplicit false

namespace Entitlement.World

variable {κ : Type}

structure Agrees (w : World κ) (cache : Cache) : Prop where
  snapshot : ∀ c, cache.roles.entry = some c →
    (c.value.map Role.definition).Perm (w.store.roles.map Role.definition)
  lists : ∀ user c, (user, c) ∈ cache.lists.entries →
    (c.value.filter fun a => w.store.hasRole a.roleId).Perm
      (w.store.rows.filter fun a => a.userId = user)

variable {w v : World κ} {cache : Cache} {queue : List RoleEvent}

theorem find_map_definition (id : RoleId) (roles : List Role) :
    (roles.map Role.definition).find? (fun r => r.id = id) = RoleSnapshot.shown id roles := by
  rw [List.find?_map]
  rfl

/-- A snapshot agrees with the store if it shows of every role what is stored, and only then. -/
theorem definitions_perm_iff (hw : w.Sound) {roles : List Role} (h : (roles.map (·.id)).Nodup) :
    (roles.map Role.definition).Perm (w.store.roles.map Role.definition) ↔
      ∀ id, RoleSnapshot.shown id roles = w.storedRole id := by
  have hids (roles : List Role) (h : (roles.map (·.id)).Nodup) :
      ((roles.map Role.definition).map Role.id).Nodup := by
    rwa [List.map_map]
  rw [Keyed.perm_iff_find Role.id (hids _ h) (hids _ hw.store.roles_nodup)]
  refine forall_congr' fun id => ?_
  rw [find_map_definition, find_map_definition]
  rfl

/-- A list agrees with the store if it shows of every stored role what is stored, and only then. -/
theorem rows_perm_iff (hw : w.Sound) {user : UserId} {rows : List Assignment}
    (h : UserLists.Sound user rows) :
    (rows.filter fun a => w.store.hasRole a.roleId).Perm
        (w.store.rows.filter fun a => a.userId = user) ↔
      ∀ id, w.store.hasRole id = true →
        UserLists.shown id rows = w.store.findAssignment user id := by
  have hnodup : (rows.filter fun a => w.store.hasRole a.roleId).Nodup :=
    h.roles_nodup.of_map.filter _
  rw [List.perm_ext_iff_of_nodup hnodup (hw.store.distinct.rows_nodup.of_map.filter _)]
  simp only [List.mem_filter, decide_eq_true_eq]
  constructor
  · intro same id hrole
    ext a
    rw [h.shown_iff, hw.store.findAssignment_iff, ← and_assoc, ← same a]
    refine and_congr_left fun hid => ?_
    rw [hid, and_iff_left hrole]
  · intro same a
    constructor
    · rintro ⟨ha, hrole⟩
      have hfound := (same _ hrole).symm.trans (h.shown_of_mem ha)
      obtain ⟨hmem, hu, -⟩ := Store.findAssignment_mem hfound
      exact ⟨hmem, hu⟩
    · rintro ⟨ha, hu⟩
      have hrole := hw.store.rows_role a ha
      have hfound := (same _ hrole).trans (hw.store.findAssignment_iff.mpr ⟨ha, hu, rfl⟩)
      exact ⟨(UserLists.shown_mem hfound).1, hrole⟩

theorem Follows.agrees (h : w.Follows cache []) (hw : w.Sound) : w.Agrees cache where
  snapshot c hc := by
    have hs := h.snapshot c hc
    exact (definitions_perm_iff hw hs.nodup).mpr fun id => RoleNews.leads_settled (hs.leads id)
  lists user c hc := by
    have hl := h.lists user c hc
    exact (rows_perm_iff hw hl.sound).mpr fun id hrole =>
      RowNews.leads_settled (hl.leads id hrole)

variable [DecidableEq κ] {party : κ}

/-- In every reachable world, a subscriber for whom nothing waits shows what is stored. -/
theorem cache_converges {w₀ w : World κ} (start : w₀.Begins party) (run : Runs w₀ w)
    (delivered : w.feed.waiting party = []) : w.Agrees (w.caches party) := by
  obtain ⟨queue, h⟩ := run.synced start
  obtain rfl : queue = [] := (Feed.waiting_of_holds h.holds).symm.trans delivered
  exact h.follows.agrees h.sound

/-- A service that has its list of a user before the role exists is told of the role and
of the row by another service, in two deliveries. -/
theorem cache_converges_told :
    let user : UserId := ⟨.generated 0⟩
    let role : RoleId := ⟨.generated 1⟩
    let w₀ : World Party := { startingAt default 0 with feed := Feed.empty.subscribe .peer }
    let w₁ := w₀.ask .peer (.generated 0) (Service.cachedAssignments user)
    let w₂ := w₁.ask .main (.generated 1) (Service.createRole (.manual "r") none)
    let w₃ := w₂.ask .main (.generated 2) (Service.assign user role none none)
    let w₄ := w₃.deliverNext .peer
    let w := w₄.deliverNext .peer
    (w₀.Begins .peer ∧ Runs w₀ w ∧ w.feed.waiting .peer = []) ∧
      w.store.rows.length = 1 ∧ (w.caches .peer).lists.entries.length = 1 ∧
      w.Agrees (w.caches .peer) := by
  intro user role w₀ w₁ w₂ w₃ w₄ w
  have start : w₀.Begins .peer := .of_empty rfl rfl (Feed.holds_subscribe _ _) rfl
  have run₀ : Runs w₀ w₀ := .refl
  have run₁ : Runs w₀ w₁ :=
    run₀.ask .peer (.reads (.cachedAssignments user)) (reliable_of_failing rfl)
    (by decide)
  have run₂ : Runs w₀ w₂ := run₁.ask .main (.createRole _ none)
    (reliable_of_failing (by decide +kernel)) (by decide +kernel)
  have run₃ : Runs w₀ w₃ := run₂.ask .main (.assign user role none none)
    (reliable_of_failing (by decide +kernel)) (by decide +kernel)
  have run₄ : Runs w₀ w₄ := run₃.tail (Step.delivers Party.peer)
  have run : Runs w₀ w := run₄.tail (Step.delivers Party.peer)
  have delivered : w.feed.waiting .peer = [] := by decide +kernel
  exact ⟨⟨start, run, delivered⟩, by decide +kernel, by decide +kernel,
    cache_converges start run delivered⟩

end Entitlement.World
