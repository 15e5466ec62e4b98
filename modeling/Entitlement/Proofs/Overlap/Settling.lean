import Entitlement.Proofs.Overlap.Ledger
import Entitlement.Proofs.Overlap.Pool

/-!
# A pool settles

Every step of a pool keeps its ledger settling, provided that grants are applied in
order: a list takes in a grant exactly if its row is stored at that time.
-/

set_option autoImplicit false

namespace Entitlement.Pool

variable {κ : Type}

structure Told (k : κ) (s : Pool κ) (b : Ledger) : Prop where
  settling : b.Settling
  rows : b.rows = s.world.store.rows
  lists : b.lists = (s.world.caches k).lists
  issued : b.issued = s.issued
  duties : ∀ i p, s.calls[i]? = some p → ∃ known, known ⊆ b.history ∧
    Dutiful Service.Free known (b.stage i) p
  absent : ∀ i, s.calls[i]? = none → b.stage i = .free

def InOrder (k : κ) (s : Pool κ) (i : Nat) : Prop :=
  ∀ a ∈ s.granting i, ∀ e ∈ (s.world.caches k).lists.entries, e.1 = a.userId →
    (a ∈ s.world.store.rows ↔
      ∀ x ∈ e.2.value, x.roleId = a.roleId → ¬ a.createdAt < x.createdAt)

instance (k : κ) (s : Pool κ) (i : Nat) : Decidable (s.InOrder k i) :=
  inferInstanceAs (Decidable (∀ a ∈ s.granting i, _))

variable {k : κ} {s : Pool κ} {b : Ledger} {i : Nat}

theorem Told.accept (h : s.Told k b) {α : Type} {request : Service α}
    (about : Service.AboutRows request) : (s.accept request).Told k b where
  settling := h.settling
  rows := h.rows
  lists := h.lists
  issued := h.issued
  duties j p hp := by
    rcases Nat.lt_trichotomy j s.calls.length with hj | hj | hj
    · rw [Pool.accept, List.getElem?_append_left hj] at hp
      exact h.duties j p hp
    · subst hj
      obtain rfl : _ = p := by simpa [Pool.accept] using hp
      rw [h.absent _ (by simp)]
      refine ⟨[], by simp, Dutiful.andThen about.keeps fun r known stage hr => .done ?_⟩
      cases r with
      | ok a => exact hr
      | error fault => exact hr
    · rw [Pool.accept, List.getElem?_eq_none (by simp; omega)] at hp
      simp at hp
  absent j hj := by
    apply h.absent j
    rw [List.getElem?_eq_none_iff] at hj ⊢
    simp only [Pool.accept, List.length_append, List.length_singleton] at hj
    omega

theorem draw_calm {c : Call} (h : c.IsCalm) (w : World κ) (issued : List Uuid) :
    draw w c issued = issued := by
  cases c <;> first | rfl | exact h.elim

structure Begins (k : κ) (s : Pool κ) : Prop where
  rows : Store.Distinct s.world.store.rows
  issued : ∀ a ∈ s.world.store.rows, a.id.uuid ∈ s.issued
  lists : (s.world.caches k).lists.entries = []
  calls : s.calls = []

theorem Begins.of_empty (rows : s.world.store.rows = [])
    (lists : (s.world.caches k).lists.entries = []) (calls : s.calls = []) : s.Begins k where
  rows := ⟨by simp [rows], by simp [rows]⟩
  issued := by simp [rows]
  lists := lists
  calls := calls

theorem Begins.told (h : s.Begins k) : s.Told k
    ⟨s.world.store.rows, (s.world.caches k).lists, s.issued, s.world.store.rows, fun _ => .free⟩ where
  settling := {
    distinct := h.rows.rows_nodup
    issued := h.issued
    rows := h.rows
    stored := fun _ ha => ha
    stages := fun _ => trivial
    named_once := by simp
    lists := by simp [h.lists] }
  rows := rfl
  lists := rfl
  issued := rfl
  duties i p hp := by simp [h.calls] at hp
  absent _ _ := rfl

variable [DecidableEq κ]

/-- After a call the pool is told by a ledger in which only the caller has moved on. -/
theorem Told.proceed (h : s.Told k b) {c : Call} {next : c.Answer → Procedure Unit}
    (due : s.calls[i]? = some (.call c next)) {after : Ledger} (settling : after.Settling)
    (rows : after.rows = (s.world.answer k c).2.store.rows)
    (lists : after.lists = ((s.world.answer k c).2.caches k).lists)
    (issued : after.issued = draw s.world c s.issued) (history : b.history ⊆ after.history)
    (others : ∀ j, j ≠ i → after.stage j = b.stage j)
    (duty : ∃ known, known ⊆ after.history ∧
      Dutiful Service.Free known (after.stage i) (next (s.world.answer k c).1)) :
    (s.proceed k i).Told k after := by
  rw [proceed_of_call due]
  constructor
  · exact settling
  · exact rows
  · exact lists
  · exact issued
  · intro j p hp
    by_cases hji : j = i
    · subst hji
      have hlt := (List.getElem?_eq_some_iff.mp due).1
      rw [List.getElem?_set_self hlt] at hp
      exact Option.some.inj hp ▸ duty
    · rw [List.getElem?_set_ne (Ne.symm hji)] at hp
      obtain ⟨known, hknown, hp⟩ := h.duties j p hp
      exact ⟨known, fun a ha => history (hknown ha), others j hji ▸ hp⟩
  · intro j hj
    have hlen : s.calls[j]? = none := by
      rw [List.getElem?_eq_none_iff] at hj ⊢
      simpa using hj
    rw [others j ?_, h.absent j hlen]
    rintro rfl
    rw [due] at hlen
    simp at hlen

section

variable {known : List Assignment} {a : Assignment} (h : s.Told k b) (hknown : known ⊆ b.history)

include h hknown

/-- A call brings the caller to another stage, and what it has come across remains known. -/
theorem Told.enters {c : Call} {next : c.Answer → Procedure Unit} {r : c.Answer} {w : World κ}
    {after : Ledger} {stage : Standing} (due : s.calls[i]? = some (.call c next))
    (answer : s.world.answer k c = (r, w)) (settling : (after.enter i stage).Settling)
    (rows : after.rows = w.store.rows) (lists : after.lists = (w.caches k).lists)
    (issued : after.issued = draw s.world c s.issued) (history : b.history ⊆ after.history)
    (stages : after.stage = b.stage) (rest : Dutiful Service.Free known stage (next r)) :
    (s.proceed k i).Told k (after.enter i stage) := by
  refine h.proceed due settling (by rw [answer]; exact rows) (by rw [answer]; exact lists) issued
    history (fun j hj => (Ledger.enter_stage_other hj).trans (congrFun stages j))
    ⟨known, fun _ ha => history (hknown ha), ?_⟩
  rw [answer, Ledger.enter_stage_self]
  exact rest

theorem Told.calm {c : Call} {next : c.Answer → Procedure Unit}
    (due : s.calls[i]? = some (.call c next)) (calm : c.IsCalm)
    (rest : ∀ r, Dutiful Service.Free known (b.stage i) (next r)) : (s.proceed k i).Told k b := by
  obtain ⟨hrows, hlists⟩ := World.answer_calm (w := s.world) (k := k) calm
  exact h.proceed due h.settling (h.rows.trans hrows.symm) (h.lists.trans hlists.symm)
    (h.issued.trans (draw_calm calm _ _).symm) (fun _ ha => ha) (fun _ _ => rfl)
    ⟨known, hknown, rest _⟩

/-- A call that only reads shows rows that are stored. -/
theorem Told.reads {c : Call} {next : c.Answer → Procedure Unit} {r : c.Answer}
    {shown : List Assignment} (due : s.calls[i]? = some (.call c next))
    (answer : s.world.answer k c = (r, s.world)) (draws : draw s.world c s.issued = s.issued)
    (stored : shown ⊆ s.world.store.rows)
    (rest : Dutiful Service.Free (shown ++ known) (b.stage i) (next r)) :
    (s.proceed k i).Told k b := by
  refine h.proceed due h.settling (by rw [answer]; exact h.rows) (by rw [answer]; exact h.lists)
    (h.issued.trans draws.symm) (fun _ ha => ha) (fun _ _ => rfl)
    ⟨_, List.append_subset.mpr ⟨fun a ha => ?_, hknown⟩, by rw [answer]; exact rest⟩
  exact h.settling.stored (h.rows ▸ stored ha)

theorem Told.finds (reliable : s.world.Reliable) {user : UserId} {role : RoleId}
    {next : Except Fault (Option Assignment) → Procedure Unit}
    (due : s.calls[i]? = some (.call (.findAssignment user role) next))
    (rest : ∀ r, Dutiful Service.Free (foundRow r ++ known) (b.stage i) (next r)) :
    (s.proceed k i).Told k b := by
  refine h.reads hknown due (World.perform_findAssignment reliable user role) rfl ?_ (rest _)
  cases hf : s.world.store.findAssignment user role with
  | none => simp [foundRow]
  | some a => simpa [foundRow] using (Store.findAssignment_mem hf).1

theorem Told.finds_expired (reliable : s.world.Reliable) {time : Instant} {limit : Nat}
    {next : Except Fault (List Assignment) → Procedure Unit}
    (due : s.calls[i]? = some (.call (.expiredAssignments time limit) next))
    (rest : ∀ r, Dutiful Service.Free (foundRows r ++ known) (b.stage i) (next r)) :
    (s.proceed k i).Told k b :=
  h.reads hknown due (World.perform_expiredAssignments reliable time limit) rfl
    (fun _ ha => Store.mem_of_mem_expired ha) (rest (.ok _))

theorem Told.draws {next : Uuid → Procedure Unit} (due : s.calls[i]? = some (.call .newId next))
    (stands : b.stage i = .free) (fresh : s.world.nextId ∉ s.issued)
    (rest : ∀ id, Dutiful Service.Free known (.named ⟨id⟩) (next id)) :
    ∃ after, (s.proceed k i).Told k after := by
  have hid : s.world.nextId ∉ b.issued := h.issued ▸ fresh
  exact ⟨_, h.enters hknown due rfl (h.settling.draw (i := i) (by simp [stands]) hid) h.rows
    h.lists (congrArg _ h.issued) (fun _ ha => ha) rfl (rest _)⟩

theorem Told.inserts (reliable : s.world.Reliable) {next : Except Fault Unit → Procedure Unit}
    (due : s.calls[i]? = some (.call (.insertAssignment a) next))
    (stands : b.stage i = .named a.id)
    (inserted : Dutiful Service.Free known (.owing (.userRoleAssigned a)) (next (.ok ())))
    (refused : ∀ fault, Dutiful Service.Free known .free (next (.error fault))) :
    ∃ after, (s.proceed k i).Told k after := by
  have hanswer : s.world.answer k (.insertAssignment a) = _ :=
    World.perform_insertAssignment (k := k) reliable a
  have hnew : ∀ x ∈ s.world.store.rows, x.id ≠ a.id := fun x hx =>
    (h.settling.fits_of stands).2 x (h.settling.stored (h.rows ▸ hx))
  cases hi : s.world.store.insertAssignment a with
  | error fault =>
    rw [World.change_error hi] at hanswer
    exact ⟨_, h.enters hknown due hanswer (h.settling.free (i := i) (by simp [stands])) h.rows
      h.lists h.issued (fun _ ha => ha) rfl (refused fault)⟩
  | ok t =>
    rw [World.change_ok hi] at hanswer
    obtain ⟨hfree, rfl⟩ := (Store.insertAssignment_ok hnew).mp hi
    have hfree : ∀ x ∈ b.rows, x.userId = a.userId → x.roleId ≠ a.roleId := by
      rw [h.rows]
      exact Store.findAssignment_none.mp hfree
    exact ⟨_, h.enters hknown due hanswer (h.settling.insert stands hfree)
      (by rw [← h.rows]; rfl) h.lists h.issued (fun x hx => List.mem_cons_of_mem _ hx) rfl inserted⟩

theorem Told.removes (reliable : s.world.Reliable) {next : Except Fault Bool → Procedure Unit}
    (due : s.calls[i]? = some (.call (.deleteAssignment a.id) next)) (stands : b.stage i = .free)
    (after : Except Fault Bool → Standing) (seen : a ∈ known)
    (removed : after (.ok true) = .owing (.userRoleUnassigned a))
    (missed : ∀ r, after r = .free ∨ after r = .owing (.userRoleUnassigned a))
    (rest : ∀ r, Dutiful Service.Free known (after r) (next r)) :
    ∃ after, (s.proceed k i).Told k after := by
  have hx : after (.ok (s.world.store.deleteAssignment a.id).1) =
      .owing (.userRoleUnassigned a) ∨
      after (.ok (s.world.store.deleteAssignment a.id).1) = .free ∧ a ∉ b.rows := by
    refine (missed _).symm.imp_right fun hfree => ⟨hfree, fun ha => ?_⟩
    rw [Store.deleteAssignment_of_mem (h.rows ▸ ha), removed] at hfree
    simp at hfree
  exact ⟨_, h.enters hknown due (World.perform_deleteAssignment reliable a.id)
    (h.settling.remove (hknown seen) stands hx) (congrArg (List.filter _) h.rows) h.lists h.issued
    (fun _ ha => ha) rfl (rest _)⟩

/-- A list takes in an event that the caller owes. -/
theorem Told.applies {e : RoleEvent} {next : Unit → Procedure Unit}
    (due : s.calls[i]? = some (.call (.applyEvent e) next)) (row : e.row? = some a)
    (settling : ({ b with lists := b.lists.apply e a.userId }.enter i .free).Settling)
    (rest : Dutiful Service.Free known .free (next ())) :
    (s.proceed k i).Told k ({ b with lists := b.lists.apply e a.userId }.enter i .free) := by
  refine h.enters hknown due (World.answer_applyEvent k e s.world) settling h.rows ?_ h.issued
    (fun _ ha => ha) rfl rest
  show b.lists.apply e a.userId = _
  rw [World.setCache_caches, h.lists]
  cases e <;> cases row <;> rfl

theorem Told.grants {next : Unit → Procedure Unit}
    (due : s.calls[i]? = some (.call (.applyEvent (.userRoleAssigned a)) next))
    (stands : b.stage i = .owing (.userRoleAssigned a)) (inOrder : s.InOrder k i)
    (rest : Dutiful Service.Free known .free (next ())) :
    (s.proceed k i).Told k
      ({ b with lists := b.lists.apply (.userRoleAssigned a) a.userId }.enter i .free) := by
  have inOrder := inOrder a (by rw [granting, due_of_call due]; rfl)
  rw [← h.rows, ← h.lists] at inOrder
  exact h.applies hknown due rfl (h.settling.grant stands fun c hc => inOrder (_, c) hc rfl) rest

theorem Told.revokes {next : Unit → Procedure Unit}
    (due : s.calls[i]? = some (.call (.applyEvent (.userRoleUnassigned a)) next))
    (stands : b.stage i = .owing (.userRoleUnassigned a))
    (rest : Dutiful Service.Free known .free (next ())) :
    (s.proceed k i).Told k
      ({ b with lists := b.lists.apply (.userRoleUnassigned a) a.userId }.enter i .free) :=
  h.applies hknown due rfl (h.settling.revoke stands) rest

theorem Told.looks {user : UserId} {next : Lookup (List Assignment) → Procedure Unit}
    (due : s.calls[i]? = some (.call (.lookupAssignments user) next)) (stands : b.stage i = .free)
    (found : ∀ rows, Dutiful Service.Free known .free (next (.fresh rows)))
    (missing : ∀ version, Dutiful Service.Free known (.looked user version)
      (next (.missing version))) : ∃ after, (s.proceed k i).Told k after := by
  have hanswer : s.world.answer k (.lookupAssignments user) =
      ((s.world.caches k).lists.lookup user s.world.moment, s.world) := rfl
  rw [UserLists.lookup] at hanswer
  cases hl : (s.world.caches k).lists.freshValue? user s.world.moment with
  | some rows =>
    rw [hl] at hanswer
    have rest : Dutiful Service.Free ([] ++ known) (b.stage i) (next (.fresh rows)) :=
      stands ▸ found rows
    exact ⟨b, h.reads hknown due hanswer rfl (List.nil_subset _) rest⟩
  | none =>
    rw [hl, ← h.lists] at hanswer
    exact ⟨_, h.enters hknown due hanswer (h.settling.look (i := i) user (by simp [stands]))
      h.rows h.lists h.issued (fun _ ha => ha) rfl (missing _)⟩

theorem Told.loads (reliable : s.world.Reliable) {user : UserId} {version : Nat}
    {next : Except Fault (List Assignment) → Procedure Unit}
    (due : s.calls[i]? = some (.call (.assignmentsOfUser user) next))
    (stands : b.stage i = .looked user version)
    (loaded : ∀ rows, Dutiful Service.Free known (.loaded user version rows) (next (.ok rows))) :
    ∃ after, (s.proceed k i).Told k after := by
  have hlist (y : Assignment) : y ∈ s.world.store.assignmentsOfUser user ↔
      y ∈ b.rows ∧ y.userId = user := h.rows ▸ Store.mem_assignmentsOfUser
  have hsound : UserLists.Sound user (s.world.store.assignmentsOfUser user) :=
    UserLists.sound_of_store (h.rows ▸ h.settling.rows) user
  exact ⟨_, h.enters hknown due (World.perform_assignmentsOfUser reliable user)
    (h.settling.load stands hsound hlist) h.rows h.lists h.issued (fun _ ha => ha) rfl (loaded _)⟩

theorem Told.installs {user : UserId} {version : Nat} {list : List Assignment}
    {next : List Assignment → Procedure Unit}
    (due : s.calls[i]? = some (.call (.installAssignments user version list) next))
    (stands : b.stage i = .loaded user version list)
    (rest : ∀ r, Dutiful Service.Free known .free (next r)) :
    ∃ after, (s.proceed k i).Told k after := by
  have answer := World.answer_installAssignments k user version list s.world
  refine ⟨_, h.enters hknown due answer (h.settling.install stands s.world.moment
    (s.world.lifetimes k).assignments) h.rows ?_ h.issued (fun _ ha => ha) rfl (rest _)⟩
  rw [World.setCache_caches, ← h.lists]

end

/-- Whatever call a running request makes next, the pool is told afterwards. -/
theorem Told.step (h : s.Told k b) (reliable : s.world.Reliable)
    (fresh : (s.due i).any Call.draws = true → s.world.nextId ∉ s.issued)
    (inOrder : s.InOrder k i) : ∃ after, (s.proceed k i).Told k after := by
  rcases hdue : s.calls[i]? with _ | ⟨_ | ⟨c, next⟩⟩
  · exact ⟨b, by rwa [proceed_of_done (.inr hdue)]⟩
  · exact ⟨b, by rwa [proceed_of_done (.inl hdue)]⟩
  obtain ⟨known, hknown, duty⟩ := h.duties i _ hdue
  generalize hstage : b.stage i = stage at duty
  cases duty with
  | calm calm rest => exact ⟨b, h.calm hknown hdue calm (hstage ▸ rest)⟩
  | finds rest => exact ⟨b, h.finds hknown reliable hdue (hstage ▸ rest)⟩
  | lists rest => exact ⟨b, h.finds_expired hknown reliable hdue (hstage ▸ rest)⟩
  | draws rest =>
    exact h.draws hknown hdue hstage (fresh (by rw [due_of_call hdue]; rfl)) rest
  | inserts inserted refused => exact h.inserts hknown reliable hdue hstage inserted refused
  | removes after seen removed missed rest =>
    exact h.removes hknown reliable hdue hstage after seen removed missed rest
  | looks found missing => exact h.looks hknown hdue hstage found missing
  | loads loaded failed => exact h.loads hknown reliable hdue hstage loaded
  | installs rest => exact h.installs hknown hdue hstage rest
  | @applies e _ _ rest =>
    have hfits := h.settling.fits_of hstage
    cases e with
    | userRoleAssigned a => exact ⟨_, h.grants hknown hdue hstage inOrder rest⟩
    | userRoleUnassigned a => exact ⟨_, h.revokes hknown hdue hstage rest⟩
    | _ => exact hfits.elim

theorem Runs.told {s₀ : Pool κ} (run : Runs k (InOrder k) s₀ s) (start : s₀.Begins k) :
    ∃ b, s.Told k b := by
  induction run with
  | refl => exact ⟨_, start.told⟩
  | tail _ step ih =>
    obtain ⟨b, h⟩ := ih
    cases step with
    | accepts about => exact ⟨b, h.accept about⟩
    | proceeds i reliable fresh inOrder => exact h.step reliable fresh inOrder
    | passes => exact ⟨b, h.settling, h.rows, h.lists, h.issued, h.duties, h.absent⟩

end Entitlement.Pool
