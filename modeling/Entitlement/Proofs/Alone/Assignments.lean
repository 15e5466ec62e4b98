import Entitlement.Proofs.Alone.Transparency
import Entitlement.Proofs.Crowd.Steps
import Entitlement.Proofs.World.Lifecycle

/-!
# The active rows of a user

A service that works alone returns the active rows that are stored for a user, and no others but
those that were deleted together with their role while a list of the cache had them. A deletion
tells of the role only, so such rows stay in the list. Every other row that leaves the store
leaves the lists at once.
-/

set_option autoImplicit false

namespace Entitlement

def RoleEvent.isDeletion : RoleEvent → Bool
  | .roleDeleted _ => true
  | _ => false

def Call.SparesRoles : Call → Prop
  | .publish event => event.isDeletion = false
  | _ => True

theorem Abides.spares {α : Type} {q : Request} {ends : Log → α → Prop} {log : Log} {p : Procedure α}
    (h : Abides q.May ends log p) (other : ∀ id actor, q ≠ .deleteRole id actor)
    (kept : ∀ id r, ⟨.deleteRole id, r⟩ ∉ log) : p.Asks Call.SparesRoles := by
  -- Without a deletion in the log there is none to tell of.
  induction h with
  | done fits => exact .done _
  | @call log c next due _ ih =>
    refine .call ?_ fun r => ih r fun id s told => ?_
    · cases c with
      | publish event =>
        cases event with
        | roleDeleted role =>
          obtain ⟨id, -, deleted⟩ := due
          exact absurd deleted (kept id _)
        | _ => rfl
      | _ => trivial
    · rcases List.mem_cons.mp told with same | told
      · cases same
        obtain ⟨actor, hq⟩ := due
        exact other id actor hq
      · exact kept id s told

theorem Request.spares {q : Request} (other : ∀ id actor, q ≠ .deleteRole id actor) :
    q.service.run.Asks Call.SparesRoles :=
  (Service.request_abides q).spares other (by simp)

namespace World

variable {κ α : Type} {w v w₀ : World κ} {e : RoleEvent} {s : Store} {a : Assignment}

/-- How many deletions of roles have been announced. -/
def deletions (w : World κ) : Nat := w.effects.events.countP RoleEvent.isDeletion

theorem deletions_append {es : List RoleEvent} (h : v.effects.events = w.effects.events ++ es) :
    v.deletions = w.deletions + es.countP RoleEvent.isDeletion := by
  rw [deletions, h, List.countP_append, deletions]

theorem Change.role_stays {id : RoleId} (change : w.Change e s) (hw : w.Sound)
    (spares : e.isDeletion = false) (h : w.store.hasRole id = true) : s.hasRole id = true := by
  by_contra gone
  have hnone : RoleSnapshot.shown id s.roles = none :=
    (shown_none_iff s id).mpr (Bool.eq_false_iff.mpr gone)
  have hsome : w.storedRole id ≠ none := by
    rw [storedRole, ne_eq, shown_none_iff, h]
    decide
  cases hn : e.newsOf id with
  | none => exact hsome (change.role_kept hw hn ▸ hnone)
  | some n =>
    obtain ⟨-, hshown, -⟩ := change.role_news hn
    rcases RoleNews.apply_eq_none (hshown ▸ hnone) with ⟨none, -⟩ | rfl
    · exact hsome none
    · cases e <;> simp [RoleEvent.newsOf, RoleEvent.isDeletion] at hn spares

def Listed (k : κ) (w : World κ) (a : Assignment) : Prop :=
  ∃ c, (a.userId, c) ∈ (w.caches k).lists.entries ∧ a ∈ c.value

theorem Mirrors.stored_of_listed {late : Instant → Instant → Prop} {k : κ} (h : Mirrors late k w)
    (listed : Listed k w a) (defined : w.store.hasRole a.roleId = true) : a ∈ w.store.rows := by
  obtain ⟨c, hc, ha⟩ := listed
  have shows := h.follows.lists a.userId c hc
  have same := RowNews.leads_settled (shows.leads a.roleId defined)
  rw [shows.sound.shown_of_mem ha] at same
  exact (Store.findAssignment_mem same.symm).1

variable {user : UserId} {rows : List Assignment}

theorem ShowsRows.mem_of_stored (shows : w.ShowsRows [] user rows) (hw : w.Sound)
    (stored : a ∈ w.store.rows) (owner : a.userId = user) : a ∈ rows := by
  have same := RowNews.leads_settled (shows.leads a.roleId (hw.store.rows_role a stored))
  have found : w.store.findAssignment user a.roleId = some a :=
    hw.store.findAssignment_iff.mpr ⟨stored, owner, rfl⟩
  exact (UserLists.shown_mem (same.trans found)).1

theorem ShowsRows.ids_nodup {queue : List RoleEvent} (shows : w.ShowsRows queue user rows)
    (hw : w.Sound) : (rows.map (·.id)).Nodup :=
  shows.sound.roles_nodup.of_map.map_on fun a ha b hb same =>
    hw.granted_once a b (shows.known a ha) (shows.known b hb) same

variable [DecidableEq κ] {k : κ}

theorem answer_deletions {c : Call} (hc : c.SparesRoles) :
    (answer k c w).2.deletions = w.deletions := by
  rw [deletions_append (answer_events k c w)]
  cases c with
  | publish event =>
    rcases (answer k (.publish event) w).1 with fault | _
    · rfl
    · have spares : event.isDeletion = false := hc
      simp [Exchange.published?, spares]
  | _ => rfl

theorem runOn_deletions {p : Procedure α} (hp : p.Asks Call.SparesRoles) :
    (p.runOn (answer k) w).2.deletions = w.deletions := by
  induction hp generalizing w with
  | done a => rfl
  | call asked _ ih => exact (ih _).trans (answer_deletions asked)

theorem deletions_announce (e : RoleEvent) (s : Store) :
    ((w.setStore s).announce k e).deletions = w.deletions + if e.isDeletion then 1 else 0 :=
  (deletions_append (w := w) rfl).trans (by rw [List.countP_singleton])

theorem Move.deletions_le (move : Move k w v) : w.deletions ≤ v.deletions := by
  cases move with
  | announces change dated =>
    rw [deletions_announce]
    exact Nat.le_add_right _ _
  | notes noted =>
    obtain ⟨effects, rfl, he⟩ := noted
    exact Nat.le_of_eq (congrArg (List.countP _) he).symm
  | _ => exact Nat.le_refl _

theorem Moves.deletions_le (moves : Moves k w v) : w.deletions ≤ v.deletions := by
  induction moves with
  | refl => exact Nat.le_refl _
  | tail _ move ih => exact Nat.le_trans ih move.deletions_le

theorem Move.role_stays {id : RoleId} (move : Move k w v) (hw : w.Sound)
    (spared : v.deletions ≤ w.deletions) (h : w.store.hasRole id = true) :
    v.store.hasRole id = true := by
  cases move with
  | @announces e s change dated =>
    refine change.role_stays hw (Bool.eq_false_iff.mpr fun deletion => ?_) h
    rw [deletions_announce, deletion, if_pos rfl] at spared
    omega
  | @touches touched usedAt now => exact (Store.hasRole_touchRole _ touched usedAt id).trans h
  | notes noted =>
    obtain ⟨effects, rfl, -⟩ := noted
    exact h
  | _ => exact h

/-- A row of a role that is gone comes into no list. -/
theorem Move.listed_before (move : Move k w v) (hw : w.Sound)
    (gone : v.store.hasRole a.roleId = false) (listed : Listed k v a) : Listed k w a := by
  obtain ⟨c, hc, ha⟩ := listed
  cases move with
  | @announces e s change dated =>
    rw [show ((w.setStore s).announce k e).caches k = (w.caches k).apply e from setCache_caches _]
      at hc
    obtain ⟨d, hd, patched⟩ := Cache.mem_apply_lists hc
    rcases patched.mem ha with hd' | rfl
    · exact ⟨d, hd, hd'⟩
    · cases change with
      | assigned fresh hasRole ok =>
        obtain ⟨-, rfl⟩ := (Store.insertAssignment_ok (hw.new_row fresh)).mp ok
        exact absurd hasRole (Bool.eq_false_iff.mp gone)
  | touches id now => exact ⟨c, hc, ha⟩
  | notes noted =>
    obtain ⟨effects, rfl, -⟩ := noted
    exact ⟨c, hc, ha⟩
  | loadsRoles expiresAt =>
    rw [setCache_caches] at hc
    exact ⟨c, hc, ha⟩
  | loadsRows user expiresAt =>
    rw [setCache_caches] at hc
    rcases UserLists.mem_of_mem_put hc with ⟨-, rfl⟩ | hc
    · have stored := (Store.mem_assignmentsOfUser.mp ha).1
      exact absurd (hw.store.rows_role a stored) (Bool.eq_false_iff.mp gone)
    · exact ⟨c, hc, ha⟩

/-- While no deletion is announced, a role that is gone at the end was gone all along. -/
theorem Moves.listed_before (moves : Moves k w v) (hw : w.Sound)
    (spared : v.deletions ≤ w.deletions) (gone : v.store.hasRole a.roleId = false)
    (listed : Listed k v a) : w.store.hasRole a.roleId = false ∧ Listed k w a := by
  induction moves with
  | refl => exact ⟨gone, listed⟩
  | @tail x y moves move ih =>
    have sound := Moves.sound moves hw
    have none := Nat.le_trans spared (Moves.deletions_le moves)
    have before : x.store.hasRole a.roleId = false := Bool.eq_false_iff.mpr fun h =>
      Bool.eq_false_iff.mp gone (move.role_stays sound none h)
    exact ih (Nat.le_trans move.deletions_le spared) before (move.listed_before sound gone listed)

theorem deleteRole_lists (hw : w.Reliable) (id : RoleId) (actor : Option Actor) :
    ((perform k (Service.deleteRole id actor) w).2.caches k).lists = (w.caches k).lists := by
  rcases deleteRole_cases (k := k) hw id actor with ⟨-, h⟩ | ⟨r, s, v, -, -, h, effects, rfl, -⟩
  · rw [h]
  · rw [h]
    have cache : ((w.setStore s).announce k (.roleDeleted r)).caches k =
        (w.caches k).apply (.roleDeleted r) := setCache_caches _
    exact (congrArg Cache.lists cache).trans rfl

theorem deleteRole_only (hw : w.Reliable) {id role : RoleId} {actor : Option Actor}
    (defined : w.store.hasRole role = true)
    (gone : (perform k (Service.deleteRole id actor) w).2.store.hasRole role = false) :
    id = role := by
  rcases deleteRole_cases (k := k) hw id actor with ⟨-, h⟩ | ⟨r, s, v, -, ok, h, effects, rfl, -⟩
  · rw [h, defined] at gone
    exact nomatch gone
  · rw [h] at gone
    have kept := (Store.hasRole_deleteRole_other ok role).symm.trans gone
    rw [defined] at kept
    simpa using kept

theorem Offered.deletes_or_spares {request : Service α} (offered : Offered request) :
    (∃ id actor, (perform k request w).2 = (perform k (Service.deleteRole id actor) w).2) ∨
      (perform k request w).2.deletions = w.deletions := by
  have spares (q : Request) (other : ∀ id actor, q ≠ .deleteRole id actor) :
      (perform k q.service w).2.deletions = w.deletions := runOn_deletions (Request.spares other)
  cases offered with
  | deleteRole id actor => exact .inl ⟨id, actor, rfl⟩
  | createRole draft actor => exact .inr (spares (.createRole draft actor) nofun)
  | updateRole id edit actor => exact .inr (spares (.updateRole id edit actor) nofun)
  | assign user role expiresAt actor =>
    exact .inr (spares (.assign user role expiresAt actor) nofun)
  | unassign user role actor => exact .inr (spares (.unassign user role actor) nofun)
  | sweep batchSize rounds => exact .inr (spares (.sweep batchSize rounds) nofun)
  | reads reading =>
    cases reading with
    | cachedRoles => exact .inr (spares .cachedRoles nofun)
    | cachedAssignments user => exact .inr (spares (.cachedAssignments user) nofun)
    | userRoles user => exact .inr (spares (.userRoles user) nofun)
    | badgeRoles user => exact .inr (spares (.badgeRoles user) nofun)
    | userAssignments user => exact .inr (spares (.userAssignments user) nofun)
    | userPolicies user => exact .inr (spares (.userPolicies user) nofun)
    | basePolicies => exact .inr (spares .basePolicies nofun)
    | isModerator actor => exact .inr (spares (.isModerator actor) nofun)
    | isAdministrator actor => exact .inr (spares (.isAdministrator actor) nofun)
    | isExplorable role => exact .inr (spares (.isExplorable role) nofun)
    | moderatorIds both => exact .inr (spares (.moderatorIds both) nofun)
    | administratorIds => exact .inr (spares .administratorIds nofun)

/-- A row of a role that is gone after a request was in its list before. If the role was there
before, then the request was to delete it. -/
theorem Offered.listed_before {request : Service α} (offered : Offered request) (hw : w.Reliable)
    (hs : w.Sound) (fresh : w.Unused w.nextId)
    (gone : (perform k request w).2.store.hasRole a.roleId = false)
    (listed : Listed k (perform k request w).2 a) :
    Listed k w a ∧ (w.store.hasRole a.roleId = true → ∃ actor,
      (perform k request w).2 = (perform k (Service.deleteRole a.roleId actor) w).2) := by
  rcases offered.deletes_or_spares (k := k) (w := w) with ⟨id, actor, same⟩ | spared
  · rw [same] at gone listed
    obtain ⟨c, hc, ha⟩ := listed
    rw [deleteRole_lists hw] at hc
    refine ⟨⟨c, hc, ha⟩, fun defined => ⟨actor, ?_⟩⟩
    rw [same, deleteRole_only hw defined gone]
  · obtain ⟨before, there⟩ :=
      Moves.listed_before (offered.moves hw hs fresh) hs spared.le gone listed
    exact ⟨there, fun defined => absurd defined (Bool.eq_false_iff.mp before)⟩

namespace Alone

variable {late : Instant → Instant → Prop}

omit [DecidableEq κ] in
theorem Opens.of_empty (store : w.store = .empty) (events : w.effects.events = [])
    (cache : w.caches k = .empty) : Opens late k w where
  sound := sound_of_empty store events
  cache := cache
  elapsed := by simp [Elapsed, store, Store.empty]

def WentWithRole (late : Instant → Instant → Prop) (k : κ) (w₀ w : World κ) (a : Assignment) :
    Prop :=
  ∃ u actor, Runs late k w₀ u ∧ u.Reliable ∧ a ∈ u.store.rows ∧ Listed k u a ∧
    Runs late k (perform k (Service.deleteRole a.roleId actor) u).2 w

theorem WentWithRole.tail (h : WentWithRole late k w₀ w a) (step : Step late k w v) :
    WentWithRole late k w₀ v a := by
  obtain ⟨u, actor, before, reliable, stored, listed, after⟩ := h
  exact ⟨u, actor, before, reliable, stored, listed, after.tail step⟩

/-- The rows in a list are stored or went with their role. -/
theorem Runs.listed (refl : ∀ t, late t t) (trans : ∀ {t u v}, late t u → late u v → late t v)
    (opens : Opens late k w₀) (run : Runs late k w₀ w) (listed : Listed k w a) :
    a ∈ w.store.rows ∨ WentWithRole late k w₀ w a := by
  induction run with
  | refl =>
    obtain ⟨c, hc, -⟩ := listed
    simp [opens.cache, Cache.empty, UserLists.empty] at hc
  | @tail w v run step ih =>
    have before := Runs.mirrors refl trans run opens
    have after := Runs.mirrors refl trans (run.tail step) opens
    -- Rows of a stored role are those of the store, so only the others are followed back.
    cases step with
    | requests offered reliable fresh =>
      cases defined : Store.hasRole _ a.roleId with
      | true => exact .inl (after.stored_of_listed listed defined)
      | false =>
        obtain ⟨there, deletes⟩ :=
          offered.listed_before reliable before.sound fresh defined listed
        rcases ih there with stored | went
        · obtain ⟨actor, same⟩ := deletes (before.sound.store.rows_role a stored)
          exact .inr ⟨w, actor, run, reliable, stored, there, same ▸ .refl⟩
        · exact .inr (went.tail (.requests offered reliable fresh))
    | prunes =>
      obtain ⟨c, hc, ha⟩ := listed
      have pruned : (Service.pruneCache.runOn (answer k) w).2.caches k =
          ((w.caches k).prune w.moment).2 := setCache_caches _
      rw [pruned] at hc
      have there : Listed k w a := ⟨c, List.mem_of_mem_filter hc, ha⟩
      exact (ih there).imp_right fun went => went.tail (.prunes w)
    | clears =>
      obtain ⟨c, hc, -⟩ := listed
      have cleared : (Service.clearCache.runOn (answer k) w).2.caches k = (w.caches k).clear :=
        setCache_caches _
      simp [cleared, Cache.clear, UserLists.clear] at hc
    | passes now moment nextId people instancePolicies failing goesOn later =>
      exact (ih listed).imp_right fun went =>
        went.tail (.passes now moment nextId people instancePolicies failing goesOn later)

end Alone

/-- The list of its user that the cache hands out has the row, which is no longer stored: it was
deleted together with its role while a list had it. -/
structure LeftOver (late : Instant → Instant → Prop) (k : κ) (w₀ w : World κ) (a : Assignment) :
    Prop where
  shown : ∃ rows, (w.caches k).lists.freshValue? a.userId w.moment = some rows ∧ a ∈ rows
  gone : a ∉ w.store.rows
  went : Alone.WentWithRole late k w₀ w a

section

variable {late : Instant → Instant → Prop} (refl : ∀ t, late t t)
  (trans : ∀ {t u v}, late t u → late u v → late t v) (opens : Alone.Opens late k w₀)
  (run : Alone.Runs late k w₀ w) (reliable : w.Reliable) (user : UserId)

include refl trans opens run reliable

/-- The list that a user is read from has the stored rows and those that are left over. -/
theorem cachedAssignments_stored_or_left : ∃ rows v,
    perform k (Service.cachedAssignments user) w = (.ok rows, v) ∧ (rows.map (·.id)).Nodup ∧
      ∀ a, a ∈ rows ↔ a.userId = user ∧ (a ∈ w.store.rows ∨ LeftOver late k w₀ w a) := by
  have mirrors := Alone.Runs.mirrors refl trans run opens
  cases fresh : (w.caches k).lists.freshValue? user w.moment with
  | none =>
    have shows := mirrors.follows.rows user
    refine ⟨_, _, perform_cachedAssignments_missing reliable user fresh,
      shows.ids_nodup mirrors.sound, fun a => ?_⟩
    rw [Store.mem_assignmentsOfUser, and_comm]
    refine and_congr_right fun owner => (or_iff_left fun left => ?_).symm
    obtain ⟨rows, shown, -⟩ := left.shown
    rw [owner, fresh] at shown
    exact nomatch shown
  | some rows =>
    obtain ⟨c, hc, rfl⟩ := UserLists.mem_of_freshValue fresh
    have shows := mirrors.follows.lists user c hc
    refine ⟨c.value, w, perform_cachedAssignments_fresh fresh, shows.ids_nodup mirrors.sound,
      fun a => ⟨fun ha => ?_, ?_⟩⟩
    · obtain rfl := shows.sound.of_user a ha
      refine ⟨rfl, or_iff_not_imp_left.mpr fun gone => ⟨⟨_, fresh, ha⟩, gone, ?_⟩⟩
      exact (Alone.Runs.listed refl trans opens run ⟨c, hc, ha⟩).resolve_left gone
    · rintro ⟨owner, stored | left⟩
      · exact shows.mem_of_stored mirrors.sound stored owner
      · obtain ⟨rows, shown, ha⟩ := left.shown
        rw [owner, fresh] at shown
        exact Option.some.inj shown ▸ ha

/-- A user is told of the active rows that are stored, each once, and of those that are left over.
So the answer is right exactly when no active row of the user is left over. -/
theorem userAssignments_stored_or_left : ∃ rows,
    returned k (Service.userAssignments user) w = .ok rows ∧ (rows.map (·.id)).Nodup ∧
      (∀ a, a ∈ rows ↔ a.userId = user ∧ a.isActiveAt w.now = true ∧
        (a ∈ w.store.rows ∨ LeftOver late k w₀ w a)) ∧
      ((∀ a, a ∈ rows ↔ a ∈ w.store.rows ∧ a.userId = user ∧ a.isActiveAt w.now = true) ↔
        ∀ a, LeftOver late k w₀ w a → a.userId = user → a.isActiveAt w.now = false) := by
  obtain ⟨rows, v, hrows, nodup, members⟩ :=
    cachedAssignments_stored_or_left refl trans opens run reliable user
  have active (a : Assignment) : a ∈ rows.filter (fun a => a.isActiveAt w.now) ↔
      a.userId = user ∧ a.isActiveAt w.now = true ∧
        (a ∈ w.store.rows ∨ LeftOver late k w₀ w a) := by
    rw [List.mem_filter, members, and_assoc, and_comm (b := a.isActiveAt w.now = true)]
  refine ⟨rows.filter fun a => a.isActiveAt w.now, ?_, nodup.sublist (List.filter_sublist.map _),
    active, ⟨fun right a left owner => ?_, fun none a => ?_⟩⟩
  · rw [returned, Service.userAssignments, perform_bind_ok _ perform_now, perform_bind_ok _ hrows]
    rfl
  · refine Bool.eq_false_iff.mpr fun lasts => left.gone ?_
    exact ((right a).mp ((active a).mpr ⟨owner, lasts, .inr left⟩)).1
  · rw [active]
    constructor
    · rintro ⟨owner, lasts, stored | left⟩
      · exact ⟨stored, owner, lasts⟩
      · exact absurd lasts (Bool.eq_false_iff.mp (none a left owner))
    · rintro ⟨stored, owner, lasts⟩
      exact ⟨owner, lasts, .inl stored⟩

end

/-- A user reads the list, a role that the user holds is deleted, and the user is still told of the
row that went with it. -/
theorem deleted_row_told :
    let user : UserId := ⟨.generated 0⟩
    let role : RoleId := ⟨.generated 1⟩
    let w₀ : World Unit := startingAt default 0
    let w₁ := w₀.ask () (.generated 1) (Service.createRole (.manual "r") none)
    let w₂ := w₁.ask () (.generated 2) (Service.assign user role none none)
    let w₃ := w₂.ask () (.generated 3) (Service.userAssignments user)
    let w := w₃.ask () (.generated 3) (Service.deleteRole role none)
    (Alone.Opens (· ≤ ·) () w₀ ∧ Alone.Runs (· ≤ ·) () w₀ w ∧ w.Reliable) ∧
      w.store.rows = [] ∧
      returned () (Service.userAssignments user) w =
        .ok [⟨⟨.generated 2⟩, role, user, none, w.now⟩] := by
  intro user role w₀ w₁ w₂ w₃ w
  have opens : Alone.Opens (· ≤ ·) () w₀ := .of_empty rfl rfl rfl
  have run₁ : Alone.Runs (· ≤ ·) () w₀ w₁ := Alone.Runs.ask Instant.le_refl .refl
    (.createRole _ none) (reliable_of_failing rfl) (by decide)
  have run₂ : Alone.Runs (· ≤ ·) () w₀ w₂ := Alone.Runs.ask Instant.le_refl run₁
    (.assign user role none none) (reliable_of_failing (by decide +kernel)) (by decide +kernel)
  have run₃ : Alone.Runs (· ≤ ·) () w₀ w₃ := Alone.Runs.ask Instant.le_refl run₂
    (.reads (.userAssignments user)) (reliable_of_failing (by decide +kernel)) (by decide +kernel)
  have run : Alone.Runs (· ≤ ·) () w₀ w := Alone.Runs.ask Instant.le_refl run₃
    (.deleteRole role none) (reliable_of_failing (by decide +kernel)) (by decide +kernel)
  exact ⟨⟨opens, run, reliable_of_failing (by decide +kernel)⟩, by decide +kernel,
    by decide +kernel⟩

/-- A row that comes into a list after it was read is left over as well, until the list ends. -/
theorem userAssignments_stored_or_left_expiring :
    let user : UserId := ⟨.generated 0⟩
    let role : RoleId := ⟨.generated 1⟩
    let w₀ : World Unit := { startingAt default 0 with lifetimes := fun _ => ⟨10, 10⟩ }
    let w₁ := w₀.ask () (.generated 1) (Service.createRole (.manual "r") none)
    let w₂ := w₁.ask () (.generated 2) (Service.userAssignments user)
    let w₃ := w₂.ask () (.generated 2) (Service.assign user role none none)
    let w := w₃.ask () (.generated 3) (Service.deleteRole role none)
    let v := { w with moment := w.moment + 10 }
    (Alone.Opens (· ≤ ·) () w₀ ∧ Alone.Runs (· ≤ ·) () w₀ w ∧ w.Reliable) ∧
      (Alone.Runs (· ≤ ·) () w₀ v ∧ v.Reliable) ∧
      (∃ a, returned () (Service.userAssignments user) w = .ok [a] ∧
        LeftOver (· ≤ ·) () w₀ w a) ∧
      ∀ a, LeftOver (· ≤ ·) () w₀ v a → a.userId = user → a.isActiveAt v.now = false := by
  intro user role w₀ w₁ w₂ w₃ w v
  have opens : Alone.Opens (· ≤ ·) () w₀ := .of_empty rfl rfl rfl
  have run₁ : Alone.Runs (· ≤ ·) () w₀ w₁ := Alone.Runs.ask Instant.le_refl .refl
    (.createRole _ none) (reliable_of_failing rfl) (by decide)
  have run₂ : Alone.Runs (· ≤ ·) () w₀ w₂ := Alone.Runs.ask Instant.le_refl run₁
    (.reads (.userAssignments user)) (reliable_of_failing (by decide +kernel)) (by decide +kernel)
  have run₃ : Alone.Runs (· ≤ ·) () w₀ w₃ := Alone.Runs.ask Instant.le_refl run₂
    (.assign user role none none) (reliable_of_failing (by decide +kernel)) (by decide +kernel)
  have run : Alone.Runs (· ≤ ·) () w₀ w := Alone.Runs.ask Instant.le_refl run₃
    (.deleteRole role none) (reliable_of_failing (by decide +kernel)) (by decide +kernel)
  have later : Alone.Runs (· ≤ ·) () w₀ v := run.tail
    (.passes w.now v.moment w.nextId w.people w.instancePolicies w.failing (Instant.le_refl _)
      (Nat.le_add_right w.moment 10))
  have reliable : w.Reliable := reliable_of_failing (by decide +kernel)
  have emptied : w.store.rows = [] := by decide +kernel
  have emptied' : v.store.rows = [] := by decide +kernel
  have told : returned () (Service.userAssignments user) w =
      .ok [⟨⟨.generated 2⟩, role, user, none, w.now⟩] := by decide +kernel
  have none : returned () (Service.userAssignments user) v = .ok [] := by decide +kernel
  have reliable' : v.Reliable := reliable_of_failing (by decide +kernel)
  refine ⟨⟨opens, run, reliable⟩, ⟨later, reliable'⟩, ⟨_, told, ?_⟩, ?_⟩
  · obtain ⟨rows, hrows, -, members, -⟩ := userAssignments_stored_or_left Instant.le_refl
      Instant.le_trans opens run reliable user
    obtain rfl := Except.ok.inj (told.symm.trans hrows)
    refine ((members _).mp List.mem_cons_self).2.2.resolve_left fun stored => ?_
    rw [emptied] at stored
    exact List.not_mem_nil stored
  · obtain ⟨rows, hrows, -, -, right⟩ := userAssignments_stored_or_left Instant.le_refl
      Instant.le_trans opens later reliable' user
    obtain rfl := Except.ok.inj (none.symm.trans hrows)
    refine right.mp fun a => iff_of_false List.not_mem_nil fun stored => ?_
    rw [emptied'] at stored
    exact List.not_mem_nil stored.1

end World

end Entitlement
