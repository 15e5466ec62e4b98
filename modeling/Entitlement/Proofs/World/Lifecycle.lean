import Entitlement.Proofs.World.Book

/-!
# The life of assignments

Requests that are carried out one after the other, by any of the services, answer as the book
says, change it by its rules, and announce exactly the rows that they remove or grant.
-/

set_option autoImplicit false

namespace Entitlement

namespace World

variable {κ : Type} {w u v : World κ} {removed : List Assignment}

theorem Sound.new_role {id : Uuid} (hs : w.Sound) (fresh : w.Unused id) :
    w.store.hasRole ⟨id⟩ = false := by
  refine Bool.eq_false_iff.mpr fun stored => ?_
  obtain ⟨role, hrole, hid⟩ := Store.hasRole_iff.mp stored
  obtain ⟨e, he, known⟩ := hs.roles_known role hrole
  rw [hid] at known
  exact fresh e he known

variable [DecidableEq κ] {k : κ}

theorem removes_dropping (distinct : Store.Distinct w.store.rows) {a? : Option Assignment}
    (stored : ∀ a, a? = some a → a ∈ w.store.rows) : Removes a?.toList w (w.dropping k a?) := by
  cases a? with
  | none => exact .refl w
  | some a => exact removes_row distinct (stored a rfl)

section

variable (hw : w.Reliable) (hs : w.Sound)

include hw

theorem unassign_outcome (distinct : Store.Distinct w.store.rows) (user : UserId) (role : RoleId)
    (actor : Option Actor) :
    (w.store.findAssignment user role = none ∧
      perform k (Service.unassign user role actor) w = (.error (.notAssigned role user), w)) ∨
    ∃ a v, w.store.findAssignment user role = some a ∧
      perform k (Service.unassign user role actor) w = (if a.isExpiredAt w.now then
        .error (.notAssigned role user) else .ok (), v) ∧
      Reworks [a] [] w v ∧
      (a.isExpiredAt w.now = true → v = w.dropping k (some a)) := by
  rcases unassign_cases (k := k) hw user role actor with absent | ⟨a, u, hf, rfl, cases⟩
  · exact .inl absent
  have removes : Reworks [a] [] w (w.dropping k (some a)) :=
    (removes_row distinct (Store.findAssignment_mem hf).1).reworks
  rcases cases with ⟨expired, h⟩ | ⟨lasts, v, h, noted⟩
  · exact .inr ⟨a, _, hf, by rw [if_pos expired, h], removes, fun _ => rfl⟩
  · exact .inr ⟨a, v, hf, by rw [if_neg (by simp [lasts]), h],
      (removes.touched role w.now).noted noted, by simp [lasts]⟩

include hs

theorem createRole_outcome (fresh : w.Unused w.nextId) (draft : RoleDraft) (actor : Option Actor) :
    (∃ fault, Name.ofText draft.name = .error fault ∧
      perform k (Service.createRole draft actor) w = (.error fault, w)) ∨
    ∃ role v, Name.ofText draft.name = .ok role.name ∧ role.id = ⟨w.nextId⟩ ∧
      perform k (Service.createRole draft actor) w = (.ok role, v) ∧
      v.store = { w.store with roles := w.store.roles ++ [role] } ∧
      v.effects.events = w.effects.events ++ [.roleCreated role] := by
  rcases createRole_cases (k := k) hw draft actor with
    ⟨fault, refused, h⟩ | ⟨role, s, v, hd, ok, h, noted⟩
  · cases hd : draft.role ⟨w.nextId⟩ w.now with
    | error reason =>
      rw [hd] at refused
      obtain rfl := Except.error.inj refused
      exact .inl ⟨reason, draft_refused hd, h⟩
    | ok role =>
      rw [hd] at refused
      obtain ⟨taken, -⟩ := Store.insertRole_error.mp refused
      rw [(draft_gives hd).2.1, hs.new_role fresh] at taken
      cases taken
  · obtain ⟨hname, hid, -⟩ := draft_gives hd
    obtain ⟨-, rfl⟩ := Store.insertRole_ok.mp ok
    obtain ⟨effects, rfl, he⟩ := noted
    exact .inr ⟨role, _, hname, hid, h, rfl, he⟩

theorem assign_outcome (fresh : w.Unused w.nextId) (user : UserId) (role : RoleId)
    (expiresAt : Option Instant) (actor : Option Actor) :
    (w.store.hasRole role = false ∧ perform k (Service.assign user role expiresAt actor) w =
      (.error (.roleNotFound role), w)) ∨
    (w.store.hasRole role = true ∧ (∃ a, w.store.findAssignment user role = some a ∧
        a.isActiveAt w.now = true) ∧
      perform k (Service.assign user role expiresAt actor) w =
        (.error (.alreadyAssigned role user), w)) ∨
    (w.store.hasRole role = true ∧ (∀ a, w.store.findAssignment user role = some a →
        a.isExpiredAt w.now = true) ∧
      ∃ v, perform k (Service.assign user role expiresAt actor) w =
          (.ok ⟨⟨w.nextId⟩, role, user, expiresAt, w.now⟩, v) ∧
        Reworks (w.store.findAssignment user role).toList
          [⟨⟨w.nextId⟩, role, user, expiresAt, w.now⟩] w v) := by
  rcases assign_cases (k := k) hw user role expiresAt actor with
    ⟨absent, h⟩ | ⟨definition, hf, ⟨a, ha, active, h⟩ | ⟨u, row, hu, rfl, expired, cases⟩⟩
  · exact .inl ⟨Store.findRole_none.mp absent, h⟩
  · exact .inr (.inl ⟨Store.hasRole_of_findRole hf, ⟨a, ha, active⟩, h⟩)
  have removes := removes_dropping (k := k) hs.store.distinct
    fun a (ha : w.store.findAssignment user role = some a) => (Store.findAssignment_mem ha).1
  rw [← hu] at removes
  have free : u.store.findAssignment user role = none := by
    rw [removes.reworks.find hs.store.distinct, filter_not_mem_toList]
    rfl
  have ok := (Store.insertAssignment_ok (s := u.store)
    (a := ⟨⟨w.nextId⟩, role, user, expiresAt, w.now⟩) fun b hb =>
      hs.new_row fresh b (removes.mem_rows.mp hb).1).mpr ⟨free, rfl⟩
  rcases cases with ⟨fault, refused, -⟩ | ⟨s, x, v, hi, rfl, h, noted⟩
  · cases ok.symm.trans refused
  · obtain rfl := Except.ok.inj (ok.symm.trans hi)
    exact .inr (.inr ⟨Store.hasRole_of_findRole hf, expired, v, h,
      ((removes.grants _).touched role w.now).noted noted⟩)

end

end World

def refused? {α : Type} : Except Fault α → Option Fault
  | .error fault => some fault
  | .ok _ => none

namespace Request

variable {κ : Type}

def Tends (s : Store) : Request → Prop
  | .createRole _ _ | .deleteRole _ _ | .assign _ _ _ _ | .unassign _ _ _ => True
  | .sweep _ rounds => s.rows.length ≤ rounds
  | _ => False

def leftover? (w : World κ) : Request → Option Assignment
  | .unassign user role _ =>
    (w.store.findAssignment user role).filter fun a => a.isExpiredAt w.now
  | _ => none

def granted : (q : Request) → Except Fault q.Value → List Assignment
  | .assign _ _ _ _, .ok row => [row]
  | _, _ => []

def news (w : World κ) (removed : List Assignment) :
    (q : Request) → Except Fault q.Value → List RoleEvent
  | .createRole _ _, .ok role => [.roleCreated role]
  | .deleteRole id _, .ok () => (w.store.findRole id).toList.map .roleDeleted
  | .assign _ _ _ _, .ok row => removed.map .userRoleUnassigned ++ [.userRoleAssigned row]
  | _, _ => removed.map .userRoleUnassigned

def Returns (w : World κ) (removed : List Assignment) :
    (q : Request) → Except Fault q.Value → Prop
  | .createRole _ _, .ok role => role.id = ⟨w.nextId⟩
  | .assign user role expiresAt _, .ok row => row = ⟨⟨w.nextId⟩, role, user, expiresAt, w.now⟩
  | .sweep _ _, .ok n => n = removed.length ∧
    ∀ a, a ∈ removed ↔ a ∈ w.store.rows ∧ isOver w.now a.expiresAt = true
  | _, _ => True

variable {w : World κ} {removed : List Assignment} {fault : Fault}

theorem granted_error (q : Request) : q.granted (.error fault) = [] := by
  cases q <;> rfl

theorem news_error (q : Request) :
    q.news w removed (.error fault) = removed.map .userRoleUnassigned := by
  cases q <;> rfl

theorem returns_error (q : Request) : q.Returns w removed (.error fault) := by
  cases q <;> trivial

end Request

namespace World

variable {κ : Type} [DecidableEq κ] {k : κ} {w v : World κ} {removed : List Assignment}
  {q : Request} {fault : Fault}

structure Carried (k : κ) (q : Request) (removed : List Assignment) (w : World κ)
    (outcome : Except Fault q.Value × World κ) : Prop where
  answer : refused? outcome.1 = w.store.book.refusal w.now q
  book : outcome.2.store.book = w.store.book.next w.now w.nextId q
  returns : q.Returns w removed outcome.1
  nodup : removed.Nodup
  gone : ∀ a, a ∈ removed ↔ a ∈ w.store.rows ∧ a ∉ outcome.2.store.rows
  rows : outcome.2.store.rows = (w.store.rows.filter fun a => a ∉ removed) ++ q.granted outcome.1
  events : outcome.2.effects.events = w.effects.events ++ q.news w removed outcome.1
  failed : ∀ fault, outcome.1 = .error fault → outcome.2 = w.dropping k (q.leftover? w)

theorem carried_refused (refusal : w.store.book.refusal w.now q = some fault)
    (next : w.store.book.next w.now w.nextId q = w.store.book) (none : q.leftover? w = none) :
    Carried k q [] w (.error fault, w) where
  answer := refusal.symm
  book := next.symm
  returns := q.returns_error
  nodup := .nil
  gone a := by simp
  rows := by simp [Request.granted_error]
  events := by simp [Request.news_error]
  failed _ _ := by rw [none]; rfl

theorem createRole_carried (hw : w.Reliable) (hs : w.Sound) (fresh : w.Unused w.nextId)
    (draft : RoleDraft) (actor : Option Actor) :
    Carried k (.createRole draft actor) [] w (perform k (Service.createRole draft actor) w) := by
  rcases createRole_outcome (k := k) hw hs fresh draft actor with
    ⟨fault, hn, hp⟩ | ⟨role, v, hn, hid, hp, hstore, hevents⟩
  · rw [hp]
    have refusal : w.store.book.refusal w.now (.createRole draft actor) = some fault := by
      simp only [Book.refusal, hn]
    exact carried_refused refusal (by simp only [Book.next, refusal]) rfl
  · rw [hp]
    have refusal : w.store.book.refusal w.now (.createRole draft actor) = none := by
      simp only [Book.refusal, hn]
    refine ⟨refusal.symm, ?_, hid, .nil, ?_, ?_, hevents, by simp⟩
    · show v.store.book = _
      simp only [Book.next, refusal]
      rw [hstore, ← hid]
      exact Store.book_define w.store role
    · show ∀ a, a ∈ [] ↔ a ∈ w.store.rows ∧ a ∉ v.store.rows
      simp [hstore]
    · show v.store.rows = _
      rw [hstore]
      simp [Request.granted]

theorem deleteRole_carried (hw : w.Reliable) (hs : w.Sound) (id : RoleId) (actor : Option Actor) :
    ∃ removed, Carried k (.deleteRole id actor) removed w
      (perform k (Service.deleteRole id actor) w) := by
  rcases deleteRole_cases (k := k) hw id actor with
    ⟨absent, hp⟩ | ⟨role, s, v, hf, ok, hp, effects, rfl, hevents⟩
  · rw [hp]
    have refusal : w.store.book.refusal w.now (.deleteRole id actor) = some (.roleNotFound id) :=
      if_neg (by simp [Store.book, Store.findRole_none.mp absent])
    exact ⟨[], carried_refused refusal (by simp only [Book.next, refusal]) rfl⟩
  · rw [hp]
    have refusal : w.store.book.refusal w.now (.deleteRole id actor) = none :=
      if_pos (Store.hasRole_of_findRole hf)
    have rows : s.rows = w.store.rows.filter fun a => a.roleId ≠ id := by
      rw [(Store.deleteRole_ok.mp ok).2]
    refine ⟨w.store.rows.filter fun a => a.roleId = id, refusal.symm, ?_, trivial,
      hs.store.distinct.nodup.filter _, ?_, ?_, ?_, by simp⟩
    · show s.book = _
      simp only [Book.next, refusal]
      exact Store.book_forget hs.store.distinct ok
    · show ∀ a, a ∈ _ ↔ a ∈ w.store.rows ∧ a ∉ s.rows
      simp only [rows, List.mem_filter, decide_eq_true_eq]
      tauto
    · show s.rows = _ ++ []
      rw [rows, List.append_nil]
      exact List.filter_congr fun a ha => by simp [ha]
    · rw [Request.news, hf]
      exact hevents

theorem Reworks.carried {result : Except Fault q.Value}
    (h : Reworks removed (q.granted result) w v) (new : ∀ a ∈ q.granted result, a ∉ w.store.rows)
    (news : q.news w removed result =
      removed.map .userRoleUnassigned ++ (q.granted result).map .userRoleAssigned)
    (answer : refused? result = w.store.book.refusal w.now q)
    (book : v.store.book = w.store.book.next w.now w.nextId q)
    (returns : q.Returns w removed result)
    (failed : ∀ fault, result = .error fault → v = w.dropping k (q.leftover? w)) :
    Carried k q removed w (result, v) :=
  ⟨answer, book, returns, h.nodup, fun _ => h.mem_removed new, h.rows, news ▸ h.events, failed⟩

theorem assign_carried (hw : w.Reliable) (hs : w.Sound) (fresh : w.Unused w.nextId) (user : UserId)
    (role : RoleId) (expiresAt : Option Instant) (actor : Option Actor) :
    ∃ removed, Carried k (.assign user role expiresAt actor) removed w
      (perform k (Service.assign user role expiresAt actor) w) := by
  rcases assign_outcome (k := k) hw hs fresh user role expiresAt actor with
    ⟨absent, hp⟩ | ⟨stored, ⟨a, ha, active⟩, hp⟩ | ⟨stored, expired, v, hp, reworks⟩
  · have refusal : w.store.book.refusal w.now (.assign user role expiresAt actor) =
        some (.roleNotFound role) := if_neg (by simp [Store.book, absent])
    exact ⟨[], hp ▸ carried_refused refusal (by simp only [Book.next, refusal]) rfl⟩
  · have refusal : w.store.book.refusal w.now (.assign user role expiresAt actor) =
        some (.alreadyAssigned role user) := by
      have lasts : a.isExpiredAt w.now = false := by simpa [Assignment.isActiveAt] using active
      simp [Book.refusal, Store.book, stored, ha, lasts]
    exact ⟨[], hp ▸ carried_refused refusal (by simp only [Book.next, refusal]) rfl⟩
  · have refusal : w.store.book.refusal w.now (.assign user role expiresAt actor) = none := by
      cases hf : w.store.findAssignment user role with
      | none => simp [Book.refusal, Store.book, stored, hf]
      | some a => simp [Book.refusal, Store.book, stored, hf, expired a hf]
    rw [hp]
    refine ⟨_, Reworks.carried (q := .assign user role expiresAt actor) reworks ?_ rfl
      refusal.symm ?_ rfl (by simp)⟩
    · intro a ha stored
      obtain rfl := List.mem_singleton.mp ha
      exact hs.new_row fresh _ stored rfl
    · simp only [Book.next, refusal]
      exact reworks.book_set hs.store.distinct (by simp)

theorem unassign_carried (hw : w.Reliable) (hs : w.Sound) (user : UserId) (role : RoleId)
    (actor : Option Actor) :
    ∃ removed, Carried k (.unassign user role actor) removed w
      (perform k (Service.unassign user role actor) w) := by
  rcases unassign_outcome (k := k) hw hs.store.distinct user role actor with
    ⟨absent, hp⟩ | ⟨a, v, ha, hp, reworks, dropped⟩
  · have refusal : w.store.book.refusal w.now (.unassign user role actor) =
        some (.notAssigned role user) := by
      simp [Book.refusal, Store.book, absent]
    have same : w.store.book.set user role none = w.store.book :=
      Book.ext rfl (funext fun u => funext fun r => by
        show (if u = user ∧ r = role then none else _) = _
        split
        · next h => simp [Store.book, h, absent]
        · rfl)
    exact ⟨[], hp ▸ carried_refused refusal same (by simp [Request.leftover?, absent])⟩
  · rw [hp]
    have book : v.store.book = w.store.book.set user role none := by
      rw [← Option.toList_some, ← ha] at reworks
      exact reworks.book_set hs.store.distinct (by simp)
    cases hover : a.isExpiredAt w.now with
    | true =>
      have refusal : w.store.book.refusal w.now (.unassign user role actor) =
          some (.notAssigned role user) := by
        simp [Book.refusal, Store.book, ha, hover]
      refine ⟨[a], Reworks.carried (q := .unassign user role actor) reworks ?_ rfl
        refusal.symm book trivial fun _ _ => (dropped hover).trans ?_⟩
      · simp [Request.granted]
      · simp [Request.leftover?, ha, hover, Option.filter_some]
    | false =>
      have refusal : w.store.book.refusal w.now (.unassign user role actor) = none := by
        simp [Book.refusal, Store.book, ha, hover]
      refine ⟨[a], Reworks.carried (q := .unassign user role actor) reworks ?_ rfl
        refusal.symm book trivial (by simp)⟩
      simp [Request.granted]

theorem sweep_carried (hw : w.Reliable) (hs : w.Sound) {rounds : Nat} (size : Nat)
    (enough : w.store.rows.length ≤ rounds) :
    ∃ removed, Carried k (.sweep size rounds) removed w
      (perform k (Service.sweep size rounds) w) := by
  rcases Nat.eq_zero_or_pos size with rfl | positive
  · have hp : perform k (Service.sweep 0 rounds) w = (.error .emptyBatch, w) := rfl
    rw [hp]
    have refusal : w.store.book.refusal w.now (.sweep 0 rounds) = some .emptyBatch := rfl
    exact ⟨[], carried_refused refusal (by simp only [Book.next, refusal]) rfl⟩
  · obtain ⟨removed, v, hp, removes, all⟩ := sweep_removes (k := k) positive hw hs.store.distinct enough
    have refusal : w.store.book.refusal w.now (.sweep size rounds) = none :=
      if_neg (Nat.pos_iff_ne_zero.mp positive)
    rw [hp]
    refine ⟨removed, Reworks.carried (q := .sweep size rounds) removes.reworks ?_ ?_
      refusal.symm ?_ ⟨rfl, all⟩ (by simp)⟩
    · simp [Request.granted]
    · exact (List.append_nil _).symm
    · simp only [Book.next, refusal]
      refine Store.book_purge hs.store.distinct removes.roles (removes.rows.trans ?_)
      refine List.filter_congr fun a ha => ?_
      cases expired : a.isExpiredAt w.now <;> simp [all, ha, expired]

theorem tends_carried (hw : w.Reliable) (hs : w.Sound) (fresh : w.Unused w.nextId)
    (tends : q.Tends w.store) : ∃ removed, Carried k q removed w (perform k q.service w) := by
  cases q with
  | createRole draft actor => exact ⟨[], createRole_carried hw hs fresh draft actor⟩
  | deleteRole id actor => exact deleteRole_carried hw hs id actor
  | assign user role expiresAt actor => exact assign_carried hw hs fresh user role expiresAt actor
  | unassign user role actor => exact unassign_carried hw hs user role actor
  | sweep size rounds => exact sweep_carried hw hs size tends
  | _ => exact tends.elim

theorem tends_sound (hw : w.Reliable) (hs : w.Sound) (fresh : w.Unused w.nextId)
    (tends : q.Tends w.store) : (perform k q.service w).2.Sound := by
  cases q with
  | createRole draft actor => exact (createRole_moves hw fresh draft actor).sound hs
  | deleteRole id actor => exact (deleteRole_moves hw id actor).sound hs
  | assign user role expiresAt actor =>
    exact (assign_moves hw hs fresh user role expiresAt actor).sound hs
  | unassign user role actor => exact (unassign_moves hw user role actor).sound hs
  | sweep size rounds => exact (sweep_moves hw hs size rounds).sound hs
  | _ => exact tends.elim

/-- Requests to any of the services, each after the one before. In between anything may happen
that leaves the store alone and announces nothing, such as that time passes. -/
inductive Lives (w₀ : World κ) : List Act → World κ → Prop
  | start : Lives w₀ [] w₀
  | asks {acts : List Act} {w : World κ} (lives : Lives w₀ acts w) (k : κ) (q : Request)
      (tends : q.Tends w.store) (reliable : w.Reliable) (fresh : w.Unused w.nextId) :
      Lives w₀ (acts ++ [⟨w.now, w.nextId, q⟩]) (perform k q.service w).2
  | rests {acts : List Act} {w v : World κ} (lives : Lives w₀ acts w) (store : v.store = w.store)
      (events : v.effects.events = w.effects.events) : Lives w₀ acts v

variable {w₀ : World κ} {acts : List Act}

theorem Lives.sound (lives : Lives w₀ acts w) (sound : w₀.Sound) : w.Sound := by
  induction lives with
  | start => exact sound
  | asks _ k q tends reliable fresh ih => exact tends_sound reliable ih fresh tends
  | rests _ store events ih => exact ih.of_same store events

theorem Lives.book (lives : Lives w₀ acts w) (sound : w₀.Sound) :
    w.store.book = w₀.store.book.after acts := by
  induction lives with
  | start => rfl
  | asks lives k q tends reliable fresh ih =>
    obtain ⟨removed, carried⟩ := tends_carried (k := k) reliable (lives.sound sound) fresh tends
    rw [carried.book, ih, Book.after, Book.after, List.foldl_append]
    rfl
  | rests _ store _ ih => rw [store, ih]

/-- After any requests that were carried out one after the other, no two rows are of one pair, the
store holds what the rules of the book say, and each further request comes out as they say. -/
theorem requests_follow_book (sound : w₀.Sound) (lives : Lives w₀ acts w) :
    Store.Distinct w.store.rows ∧ w.store.book = w₀.store.book.after acts ∧
      ∀ (k : κ) (q : Request), q.Tends w.store → w.Reliable → w.Unused w.nextId →
        ∃ removed, Carried k q removed w (perform k q.service w) :=
  ⟨(lives.sound sound).store.distinct, lives.book sound, fun _ _ tends reliable fresh =>
    tends_carried reliable (lives.sound sound) fresh tends⟩

/-- An assignment ends, and at that instant another service assigns the role again: the row that
is over gives way to one without an end. -/
theorem requests_follow_book_renewed :
    let role : RoleId := ⟨.generated 0⟩
    let user : UserId := ⟨.generated 9⟩
    let w₀ : World Party := .startingAt default 0
    let create := Request.createRole (.manual "r") none
    let w₁ := { (perform .main create.service w₀).2 with nextId := .generated 1 }
    let lend := Request.assign user role (some ⟨1, 0⟩) none
    let w := { (perform .main lend.service w₁).2 with now := ⟨1, 0⟩, nextId := .generated 2 }
    let renew := Request.assign user role none none
    let acts : List Act := [⟨w₀.now, .generated 0, create⟩, ⟨w₁.now, .generated 1, lend⟩]
    (w₀.Sound ∧ Lives w₀ acts w ∧ renew.Tends w.store ∧ w.Reliable ∧ w.Unused w.nextId) ∧
      Store.Distinct w.store.rows ∧ w.store.book = w₀.store.book.after acts ∧
      (∃ removed, Carried .peer renew removed w (perform .peer renew.service w)) ∧
      (perform .peer renew.service w).2.store.rows.map (fun a => (a.id.uuid, a.expiresAt)) =
        [(.generated 2, none)] := by
  intro role user w₀ create w₁ lend w renew acts
  have sound : w₀.Sound := sound_of_empty rfl rfl
  have works : w₀.Reliable ∧ w₁.Reliable ∧ w.Reliable :=
    ⟨reliable_of_failing (by decide +kernel), reliable_of_failing (by decide +kernel),
      reliable_of_failing (by decide +kernel)⟩
  have fresh : w.Unused w.nextId := by decide +kernel
  have created : Lives w₀ [⟨w₀.now, .generated 0, create⟩] w₁ :=
    (Lives.start.asks Party.main create trivial works.1 (by decide +kernel)).rests rfl rfl
  have lives : Lives w₀ acts w :=
    (created.asks Party.main lend trivial works.2.1 (by decide +kernel)).rests rfl rfl
  obtain ⟨distinct, book, carried⟩ := requests_follow_book sound lives
  exact ⟨⟨sound, lives, trivial, works.2.2, fresh⟩, distinct, book,
    carried .peer renew trivial works.2.2 fresh, by decide +kernel⟩

end World

end Entitlement
