import Entitlement.Proofs.Overlap.Duties

/-!
# Requests that overlap

A pool holds a world and the requests that run on it, each as far as it has come. A step
answers the next call of one of them, takes in a further request, or changes the
surroundings; so every interleaving of the calls is a run of steps.
-/

set_option autoImplicit false

namespace Entitlement

def Call.grant? : Call → Option Assignment
  | .applyEvent (.userRoleAssigned a) => some a
  | _ => none

def Call.draws : Call → Bool
  | .newId => true
  | _ => false

def Procedure.isDone {α : Type} : Procedure α → Bool
  | .done _ => true
  | .call _ _ => false

structure Pool (κ : Type) where
  world : World κ
  calls : List (Procedure Unit)
  issued : List Uuid

namespace Pool

variable {κ : Type}

def accept {α : Type} (request : Service α) (s : Pool κ) : Pool κ :=
  { s with calls := s.calls ++ [request.run.andThen fun _ => .done ()] }

def draw (w : World κ) (c : Call) (issued : List Uuid) : List Uuid :=
  match c with
  | .newId => w.nextId :: issued
  | _ => issued

def due (s : Pool κ) (i : Nat) : Option Call :=
  match s.calls[i]? with
  | some (.call c _) => some c
  | _ => none

def granting (s : Pool κ) (i : Nat) : Option Assignment := (s.due i).bind Call.grant?

def Idle (s : Pool κ) : Prop := ∀ p ∈ s.calls, p.isDone = true

theorem due_of_call {s : Pool κ} {i : Nat} {c : Call} {next : c.Answer → Procedure Unit}
    (h : s.calls[i]? = some (.call c next)) : s.due i = some c := by
  rw [due, h]

theorem call_of_granting {s : Pool κ} {i : Nat} {a : Assignment} (h : s.granting i = some a) :
    ∃ next, s.calls[i]? = some (.call (.applyEvent (.userRoleAssigned a)) next) := by
  rcases hc : s.calls[i]? with _ | ⟨_ | ⟨c, next⟩⟩
  · simp [granting, due, hc] at h
  · simp [granting, due, hc] at h
  · have hgrant : c.grant? = some a := by simpa [granting, due, hc] using h
    cases c with
    | applyEvent e =>
      cases e with
      | userRoleAssigned x =>
        obtain rfl := Option.some.inj hgrant
        exact ⟨next, rfl⟩
      | _ => simp [Call.grant?] at hgrant
    | _ => simp [Call.grant?] at hgrant

variable [DecidableEq κ]

def proceed (k : κ) (i : Nat) (s : Pool κ) : Pool κ :=
  match s.calls[i]? with
  | some (.call c next) =>
    { world := (s.world.answer k c).2
      calls := s.calls.set i (next (s.world.answer k c).1)
      issued := draw s.world c s.issued }
  | _ => s

inductive Step (k : κ) (allowed : Pool κ → Nat → Prop) : Pool κ → Pool κ → Prop
  | accepts {s : Pool κ} {α : Type} {request : Service α} (about : Service.AboutRows request) :
      Step k allowed s (s.accept request)
  | proceeds {s : Pool κ} (i : Nat) (reliable : s.world.Reliable)
      (fresh : (s.due i).any Call.draws = true → s.world.nextId ∉ s.issued) (may : allowed s i) :
      Step k allowed s (s.proceed k i)
  | passes {s : Pool κ} (now : Instant) (moment : Moment) (nextId : Uuid) (people : List Person)
      (instancePolicies : Option InstancePolicies) (failing : List Port)
      (later : s.world.moment ≤ moment) :
      Step k allowed s
        { s with world := { s.world with now, moment, nextId, people, instancePolicies, failing } }

abbrev Runs (k : κ) (allowed : Pool κ → Nat → Prop) : Pool κ → Pool κ → Prop :=
  Relation.ReflTransGen (Step k allowed)

variable {k : κ} {s : Pool κ} {i : Nat}

theorem proceed_of_call {c : Call} {next : c.Answer → Procedure Unit}
    (h : s.calls[i]? = some (.call c next)) : s.proceed k i =
      { world := (s.world.answer k c).2
        calls := s.calls.set i (next (s.world.answer k c).1)
        issued := draw s.world c s.issued } := by
  rw [proceed, h]

theorem proceed_of_done (h : s.calls[i]? = some (.done ()) ∨ s.calls[i]? = none) :
    s.proceed k i = s := by
  rcases h with h | h <;> rw [proceed, h]

def schedule (k : κ) (order : List Nat) (s : Pool κ) : Pool κ :=
  order.foldl (fun s i => s.proceed k i) s

def Takes (k : κ) (allowed : Pool κ → Nat → Prop) : List Nat → Pool κ → Prop
  | [], _ => True
  | i :: order, s => s.world.failing = [] ∧
      ((s.due i).any Call.draws = true → s.world.nextId ∉ s.issued) ∧ allowed s i ∧
      Takes k allowed order (s.proceed k i)

instance Takes.decidable {allowed : Pool κ → Nat → Prop} [∀ s i, Decidable (allowed s i)] :
    ∀ (order : List Nat) (s : Pool κ), Decidable (Takes k allowed order s)
  | [], _ => inferInstanceAs (Decidable True)
  | i :: order, s =>
    have : Decidable (Takes k allowed order (s.proceed k i)) := Takes.decidable order _
    inferInstanceAs (Decidable (_ ∧ _ ∧ _ ∧ _))

theorem Runs.schedule {allowed : Pool κ → Nat → Prop} {s₀ : Pool κ} {order : List Nat}
    (run : Runs k allowed s₀ s) (h : Takes k allowed order s) :
    Runs k allowed s₀ (s.schedule k order) := by
  induction order generalizing s with
  | nil => exact run
  | cons i order ih =>
    obtain ⟨failing, fresh, may, rest⟩ := h
    exact ih (run.tail (.proceeds i (World.reliable_of_failing failing) fresh may)) rest

end Pool

namespace World

variable {κ : Type} {w : World κ}

theorem noted_rows (c : Call) : ((w.noteLoad c).noteInquiry c).store = w.store ∧
    ((w.noteLoad c).noteInquiry c).caches = w.caches := by
  cases c <;> exact ⟨rfl, rfl⟩

variable [DecidableEq κ] {k : κ}

/-- A call is served or fails without effect. -/
theorem answer_cases (k : κ) (c : Call) (w : World κ) :
    (∃ fault r, c.failed? fault = some r ∧ answer k c w = (r, (w.noteLoad c).noteInquiry c)) ∨
      answer k c w = serve k c ((w.noteLoad c).noteInquiry c) := by
  unfold answer
  dsimp only
  split
  · split
    · next r hr => exact .inl ⟨_, r, hr, rfl⟩
    · exact .inr rfl
  · exact .inr rfl

theorem answer_applyEvent (k : κ) (e : RoleEvent) (w : World κ) :
    answer k (.applyEvent e) w = ((), w.setCache k ((w.caches k).apply e)) := rfl

theorem answer_installAssignments (k : κ) (user : UserId) (version : Nat)
    (loaded : List Assignment) (w : World κ) :
    answer k (.installAssignments user version loaded) w =
      (((w.caches k).lists.install user w.moment (w.lifetimes k).assignments version loaded).1,
        w.setCache k { w.caches k with
          lists := ((w.caches k).lists.install user w.moment (w.lifetimes k).assignments version
            loaded).2 }) := rfl

theorem answer_calm {c : Call} (h : c.IsCalm) :
    (answer k c w).2.store.rows = w.store.rows ∧
      ((answer k c w).2.caches k).lists = (w.caches k).lists := by
  obtain ⟨hstore, hcaches⟩ := noted_rows (w := w) c
  rcases answer_cases k c w with ⟨_, _, -, he⟩ | he
  · rw [he, hstore, hcaches]
    exact ⟨rfl, rfl⟩
  · rw [he, ← hstore, ← hcaches]
    generalize (w.noteLoad c).noteInquiry c = v
    cases c with
    | touchRole role usedAt => exact ⟨rfl, rfl⟩
    | installRoles version loaded =>
      constructor
      · rfl
      · simp [serve]
    | notify user notification => simp only [serve]; split <;> exact ⟨rfl, rfl⟩
    | record entry => simp only [serve]; split <;> exact ⟨rfl, rfl⟩
    | _ => first | exact ⟨rfl, rfl⟩ | exact h.elim

end World

end Entitlement
