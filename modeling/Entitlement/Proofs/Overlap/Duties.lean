import Entitlement.Proofs.Asks
import Entitlement.Proofs.World.Reads

/-!
# What a request owes while it runs

A request changes one row of the store at a time and owes the cache the event of that
change until it has applied it. Which rows it has come across, and where it stands, says
which calls it may make next; every request about rows keeps to that.
-/

set_option autoImplicit false

namespace Entitlement

/-- Where a running request stands: free, with an identifier drawn for a new row, with
an event that is still to be applied, or between the parts of a load. -/
inductive Standing where
  | free
  | named (id : AssignmentId)
  | owing (event : RoleEvent)
  | looked (user : UserId) (version : Nat)
  | loaded (user : UserId) (version : Nat) (rows : List Assignment)

def Call.IsCalm : Call → Prop
  | .listRoles | .findRole _ | .touchRole _ _ | .assignmentsOfRoles _ | .findUser _
  | .findProfile _ | .countSecurityKeys _ | .measure _ _ | .instancePolicies | .publish _
  | .notify _ _ | .record _ | .lookupRoles | .installRoles _ _ | .now => True
  | _ => False

def foundRow : Except Fault (Option Assignment) → List Assignment
  | .ok (some a) => [a]
  | _ => []

def foundRows : Except Fault (List Assignment) → List Assignment
  | .ok rows => rows
  | .error _ => []

inductive Dutiful {α : Type} (post : α → List Assignment → Standing → Prop) :
    List Assignment → Standing → Procedure α → Prop
  | done {a : α} {known : List Assignment} {stage : Standing} (fits : post a known stage) :
      Dutiful post known stage (.done a)
  | calm {c : Call} {next : c.Answer → Procedure α} {known : List Assignment} {stage : Standing}
      (calm : c.IsCalm) (rest : ∀ r, Dutiful post known stage (next r)) :
      Dutiful post known stage (.call c next)
  | finds {user : UserId} {role : RoleId} {known : List Assignment}
      {next : Except Fault (Option Assignment) → Procedure α}
      (rest : ∀ r, Dutiful post (foundRow r ++ known) .free (next r)) :
      Dutiful post known .free (.call (.findAssignment user role) next)
  | lists {now : Instant} {limit : Nat} {known : List Assignment}
      {next : Except Fault (List Assignment) → Procedure α}
      (rest : ∀ r, Dutiful post (foundRows r ++ known) .free (next r)) :
      Dutiful post known .free (.call (.expiredAssignments now limit) next)
  | draws {known : List Assignment} {next : Uuid → Procedure α}
      (rest : ∀ id, Dutiful post known (.named ⟨id⟩) (next id)) :
      Dutiful post known .free (.call .newId next)
  | inserts {a : Assignment} {known : List Assignment} {next : Except Fault Unit → Procedure α}
      (inserted : Dutiful post known (.owing (.userRoleAssigned a)) (next (.ok ())))
      (refused : ∀ fault, Dutiful post known .free (next (.error fault))) :
      Dutiful post known (.named a.id) (.call (.insertAssignment a) next)
  | removes {a : Assignment} {known : List Assignment} {next : Except Fault Bool → Procedure α}
      (after : Except Fault Bool → Standing) (seen : a ∈ known)
      (removed : after (.ok true) = .owing (.userRoleUnassigned a))
      (missed : ∀ r, after r = .free ∨ after r = .owing (.userRoleUnassigned a))
      (rest : ∀ r, Dutiful post known (after r) (next r)) :
      Dutiful post known .free (.call (.deleteAssignment a.id) next)
  | applies {event : RoleEvent} {known : List Assignment} {next : Unit → Procedure α}
      (rest : Dutiful post known .free (next ())) :
      Dutiful post known (.owing event) (.call (.applyEvent event) next)
  | looks {user : UserId} {known : List Assignment}
      {next : Lookup (List Assignment) → Procedure α}
      (fresh : ∀ rows, Dutiful post known .free (next (.fresh rows)))
      (missing : ∀ version, Dutiful post known (.looked user version) (next (.missing version))) :
      Dutiful post known .free (.call (.lookupAssignments user) next)
  | loads {user : UserId} {version : Nat} {known : List Assignment}
      {next : Except Fault (List Assignment) → Procedure α}
      (loaded : ∀ rows, Dutiful post known (.loaded user version rows) (next (.ok rows)))
      (failed : ∀ fault, Dutiful post known .free (next (.error fault))) :
      Dutiful post known (.looked user version) (.call (.assignmentsOfUser user) next)
  | installs {user : UserId} {version : Nat} {rows known : List Assignment}
      {next : List Assignment → Procedure α}
      (rest : ∀ r, Dutiful post known .free (next r)) :
      Dutiful post known (.loaded user version rows)
        (.call (.installAssignments user version rows) next)

namespace Dutiful

variable {α β : Type} {post : α → List Assignment → Standing → Prop}
  {post' : β → List Assignment → Standing → Prop} {known : List Assignment} {stage : Standing}

theorem andThen {p : Procedure α} {f : α → Procedure β} (hp : Dutiful post known stage p)
    (hf : ∀ a known stage, post a known stage → Dutiful post' known stage (f a)) :
    Dutiful post' known stage (p.andThen f) := by
  induction hp with
  | done fits => exact hf _ _ _ fits
  | calm calm _ ih => exact .calm calm ih
  | finds _ ih => exact .finds ih
  | lists _ ih => exact .lists ih
  | draws _ ih => exact .draws ih
  | inserts _ _ inserted refused => exact .inserts inserted refused
  | removes after seen removed missed _ ih => exact .removes after seen removed missed ih
  | applies _ ih => exact .applies ih
  | looks _ _ fresh missing => exact .looks fresh missing
  | loads _ _ loaded failed => exact .loads loaded failed
  | installs _ ih => exact .installs ih

theorem mono {p : Procedure α} {weaker : α → List Assignment → Standing → Prop}
    (hp : Dutiful post known stage p)
    (h : ∀ a known stage, post a known stage → weaker a known stage) :
    Dutiful weaker known stage p :=
  p.andThen_done ▸ hp.andThen fun a known stage ha => .done (h a known stage ha)

/-- Calm procedures may run at any stage. -/
theorem of_calm {p : Procedure α} (h : Procedure.Asks Call.IsCalm p) :
    Dutiful (fun _ k s => k = known ∧ s = stage) known stage p := by
  induction h with
  | done a => exact .done ⟨rfl, rfl⟩
  | call asked _ ih => exact .calm asked ih

end Dutiful

namespace Service

variable {α β : Type}

def Keeps (known : List Assignment) (stage : Standing) (post : α → List Assignment → Standing → Prop)
    (request : Service α) : Prop :=
  Dutiful (fun r k s => match r with
    | .ok a => post a k s
    | .error _ => s = .free) known stage request.run

variable {known : List Assignment} {stage : Standing} {post : α → List Assignment → Standing → Prop}
  {post' : β → List Assignment → Standing → Prop}

theorem Keeps.bind {x : Service α} {f : α → Service β} (hx : Keeps known stage post x)
    (hf : ∀ a known stage, post a known stage → Keeps known stage post' (f a)) :
    Keeps known stage post' (x >>= f) := by
  apply Dutiful.andThen hx
  intro r known stage h
  cases r with
  | ok a => exact hf a known stage h
  | error fault => exact .done h

theorem keeps_pure {a : α} (h : post a known stage) : Keeps known stage post (pure a) := .done h

theorem keeps_throw (fault : Fault) : Keeps known .free post (throw fault : Service α) :=
  .done rfl

theorem Keeps.mono {request : Service α} {weaker : α → List Assignment → Standing → Prop}
    (h : Keeps known stage post request)
    (hpost : ∀ a known stage, post a known stage → weaker a known stage) :
    Keeps known stage weaker request := by
  apply Dutiful.mono h
  intro r known stage hr
  cases r with
  | ok a => exact hpost a known stage hr
  | error fault => exact hr

theorem keeps_require {fault : Fault} {o : Option α} (h : ∀ a, o = some a → post a known .free) :
    Keeps known .free post (require fault o) := by
  cases o with
  | none => exact keeps_throw fault
  | some a => exact keeps_pure (h a rfl)

def Stands (known : List Assignment) (stage : Standing) :
    α → List Assignment → Standing → Prop := fun _ k s => k = known ∧ s = stage

def Free : α → List Assignment → Standing → Prop := fun _ _ s => s = .free

theorem Keeps.then {x : Service α} {f : α → Service β} {known' : List Assignment}
    {stage' : Standing}
    (hx : Keeps known stage (Stands known' stage') x)
    (hf : ∀ a, Keeps known' stage' post' (f a)) : Keeps known stage post' (x >>= f) :=
  hx.bind fun a _ _ h => h.1 ▸ h.2 ▸ hf a

theorem Keeps.free {x : Service α} (h : Keeps known stage (Stands known .free) x) :
    Keeps known stage Free x := h.mono fun _ _ _ h => h.2

theorem keeps_procedure {p : Procedure α} (h : Procedure.Asks Call.IsCalm p) :
    Keeps known stage (Stands known stage) (ofProcedure p) :=
  (Dutiful.of_calm h).andThen fun _ _ _ h => .done h

theorem keeps_courtesy {p : Procedure (Except Fault Unit)} (h : Procedure.Asks Call.IsCalm p) :
    Keeps known stage (Stands known stage) (courtesy p) :=
  (keeps_procedure h).then fun _ => keeps_pure ⟨rfl, rfl⟩

theorem asks_ask {P : Call → Prop} {c : Call} (h : P c) : Procedure.Asks P (.ask c) :=
  .call h fun _ => .done _

/-- A calm call that fails ends the request, which must owe nothing then. -/
theorem keeps_call {p : Procedure (Except Fault α)} (h : Procedure.Asks Call.IsCalm p) :
    Keeps known .free (Stands known .free) (ofCall p) := by
  apply Dutiful.mono (Dutiful.of_calm h)
  intro r known stage hr
  cases r with
  | ok a => exact hr
  | error fault => exact hr.2

theorem keeps_now : Keeps known stage (Stands known stage) Service.now :=
  keeps_procedure (asks_ask trivial)

theorem keeps_findRole (role : RoleId) :
    Keeps known .free (Stands known .free) (findRole role) := keeps_call (asks_ask trivial)

theorem keeps_touch (role : RoleId) (usedAt : Instant) :
    Keeps known stage (Stands known stage) (touch role usedAt) := keeps_courtesy (asks_ask trivial)

theorem keeps_notify (user : UserId) (notification : Notification) :
    Keeps known stage (Stands known stage) (notify user notification) :=
  keeps_courtesy (asks_ask trivial)

theorem keeps_record (actor : Option Actor) (action : ModerationAction) (details : Json) :
    Keeps known stage (Stands known stage) (record actor action details) := by
  cases actor with
  | none => exact keeps_pure ⟨rfl, rfl⟩
  | some actor => exact keeps_now.then fun _ => keeps_courtesy (asks_ask trivial)

theorem keeps_findAssignment (user : UserId) (role : RoleId) :
    Keeps known .free (fun o k s => s = .free ∧ known ⊆ k ∧ ∀ a, o = some a → a ∈ k)
      (findAssignment user role) := by
  apply Dutiful.finds
  intro r
  cases r with
  | error fault => exact .done rfl
  | ok o =>
    refine .done ⟨rfl, List.subset_append_right _ _, ?_⟩
    rintro a rfl
    simp [foundRow]

theorem keeps_expiredAssignments (time : Instant) (limit : Nat) :
    Keeps known .free (fun batch k s => s = .free ∧ batch ⊆ k) (expiredAssignments time limit) := by
  apply Dutiful.lists
  intro r
  cases r with
  | error fault => exact .done rfl
  | ok batch => exact .done ⟨rfl, List.subset_append_left _ _⟩

theorem keeps_newId :
    Keeps known .free (fun id k s => k = known ∧ s = .named ⟨id⟩) Service.newId :=
  .draws fun _ => .done ⟨rfl, rfl⟩

theorem keeps_insertAssignment (a : Assignment) :
    Keeps known (.named a.id) (Stands known (.owing (.userRoleAssigned a)))
      (insertAssignment a) :=
  .inserts (.done ⟨rfl, rfl⟩) fun _ => .done rfl

def removal (a : Assignment) (owes : Bool → Bool) : Except Fault Bool → Standing
  | .ok removed => if owes removed then .owing (.userRoleUnassigned a) else .free
  | .error _ => .free

theorem removal_cases (a : Assignment) (owes : Bool → Bool) (r : Except Fault Bool) :
    removal a owes r = .free ∨ removal a owes r = .owing (.userRoleUnassigned a) := by
  cases r with
  | error fault => exact .inl rfl
  | ok removed =>
    by_cases h : owes removed = true
    · exact .inr (by simp [removal, h])
    · exact .inl (by simp [removal, h])

/-- Whoever removes a row owes the news of it. -/
theorem keeps_deleteAssignment {a : Assignment} (seen : a ∈ known) :
    Keeps known .free
      (fun removed k s => k = known ∧
        s = if removed then .owing (.userRoleUnassigned a) else .free)
      (deleteAssignment a.id) := by
  apply Dutiful.removes (removal a id) seen rfl (removal_cases a id)
  intro r
  cases r with
  | error fault => exact .done rfl
  | ok removed => exact .done ⟨rfl, rfl⟩

/-- The news may be spread although somebody else has removed the row. -/
theorem keeps_deleteAssignment_anyhow {a : Assignment} (seen : a ∈ known) :
    Keeps known .free (Stands known (.owing (.userRoleUnassigned a))) (deleteAssignment a.id) := by
  apply Dutiful.removes (removal a fun _ => true) seen rfl (removal_cases a _)
  intro r
  cases r with
  | error fault => exact .done rfl
  | ok removed => exact .done ⟨rfl, rfl⟩

theorem keeps_emit (event : RoleEvent) :
    Keeps known (.owing event) (Stands known .free) (emit event) := by
  have applied : Keeps known (.owing event) (Stands known .free)
      (ofProcedure (.ask (.applyEvent event))) := .applies (.done ⟨rfl, rfl⟩)
  exact applied.then fun _ => keeps_call (asks_ask trivial)

theorem keeps_removeExpired {a : Assignment} (seen : a ∈ known) :
    Keeps known .free Free (removeExpired a) := by
  apply (keeps_deleteAssignment seen).bind
  intro removed k s h
  obtain ⟨rfl, rfl⟩ := h
  cases removed with
  | false => exact keeps_pure rfl
  | true => exact (keeps_emit _).free

theorem keeps_vacate (user : UserId) (role : RoleId) (time : Instant) :
    Keeps known .free Free (vacate user role time) := by
  apply (keeps_findAssignment user role).bind
  intro o k s h
  obtain ⟨rfl, -, seen⟩ := h
  cases o with
  | none => exact keeps_pure rfl
  | some existing =>
    dsimp only
    split
    · exact keeps_throw _
    · exact keeps_removeExpired (seen existing rfl)

theorem keeps_assign (user : UserId) (role : RoleId) (expiresAt : Option Instant)
    (actor : Option Actor) : Keeps known .free Free (assign user role expiresAt actor) := by
  refine keeps_now.then fun startedAt => (keeps_findRole role).then fun found => ?_
  apply (keeps_require fun _ _ => (⟨rfl, rfl⟩ : Stands known .free _ _ _)).then
  intro definition
  apply (keeps_vacate user role startedAt).bind
  intro _ known stage h
  obtain rfl : stage = .free := h
  apply keeps_newId.bind
  intro id k s h
  obtain ⟨rfl, rfl⟩ := h
  apply (keeps_insertAssignment ⟨⟨id⟩, role, user, expiresAt, startedAt⟩).then
  intro _
  refine (keeps_touch role startedAt).then fun _ => (keeps_emit _).then fun _ => ?_
  have ends : Keeps k .free Free (do
      record actor .assignRole (.object [("roleId", role.encode),
        ("roleName", definition.name.encode), ("userId", user.encode),
        ("expiresAt", .ofOption Instant.encode expiresAt)])
      return (⟨⟨id⟩, role, user, expiresAt, startedAt⟩ : Assignment)) :=
    (keeps_record _ _ _).then fun _ => keeps_pure rfl
  dsimp only
  split
  · exact (keeps_notify _ _).then fun _ => ends
  · exact ends

theorem keeps_unassign (user : UserId) (role : RoleId) (actor : Option Actor) :
    Keeps known .free Free (unassign user role actor) := by
  refine keeps_now.then fun startedAt => (keeps_findAssignment user role).bind fun o k s h => ?_
  obtain ⟨rfl, -, seen⟩ := h
  have required : Keeps k .free (fun a k' s => k' = k ∧ s = .free ∧ a ∈ k)
      (require (.notAssigned role user) o) := keeps_require fun a ha => ⟨rfl, rfl, seen a ha⟩
  apply required.bind
  intro existing k' s h
  obtain ⟨rfl, rfl, seen⟩ := h
  split
  · apply (keeps_removeExpired seen).bind
    intro _ k s h
    obtain rfl : s = .free := h
    exact keeps_throw _
  · refine (keeps_deleteAssignment_anyhow seen).then fun _ => (keeps_touch role startedAt).then
      fun _ => (keeps_emit _).then fun _ => (keeps_findRole role).then fun found => ?_
    exact (keeps_record _ _ _).free

theorem keeps_removeBatch (batch : List Assignment) (removed : Nat) (seen : batch ⊆ known) :
    Keeps known .free (Stands known .free) (removeBatch batch removed) := by
  induction batch generalizing removed with
  | nil => exact keeps_pure ⟨rfl, rfl⟩
  | cons a rest ih =>
    have hrest : rest ⊆ known := fun b hb => seen (List.mem_cons_of_mem _ hb)
    apply (keeps_deleteAssignment (seen List.mem_cons_self)).bind
    intro was k s h
    obtain ⟨rfl, rfl⟩ := h
    cases was with
    | false => exact ih removed hrest
    | true => exact (keeps_emit _).then fun _ => ih (removed + 1) hrest

theorem keeps_sweepRound (batchSize removed : Nat) (startedAt : Instant) :
    Keeps known .free Free (sweepRound batchSize startedAt removed) := by
  apply (keeps_expiredAssignments startedAt batchSize).bind
  intro batch k s h
  obtain ⟨rfl, seen⟩ := h
  apply (keeps_removeBatch batch removed seen).then
  intro total
  split <;> exact keeps_pure rfl

theorem keeps_sweepRounds (batchSize rounds removed : Nat) (startedAt : Instant) :
    Keeps known .free Free (sweepRounds batchSize startedAt rounds removed) := by
  induction rounds generalizing known removed with
  | zero =>
    apply (keeps_sweepRound batchSize removed startedAt).bind
    intro _ k s h
    exact keeps_pure h
  | succ rounds ih =>
    apply (keeps_sweepRound batchSize removed startedAt).bind
    intro sweep k s h
    obtain rfl : s = .free := h
    cases sweep with
    | ended total => exact keeps_pure rfl
    | onward total => exact ih total

theorem keeps_sweep (batchSize rounds : Nat) :
    Keeps known .free Free (sweep batchSize rounds) := by
  unfold sweep
  split
  · exact keeps_throw _
  · exact keeps_now.then fun _ => keeps_sweepRounds _ _ _ _

theorem keeps_cachedRoles : Keeps known .free (Stands known .free) cachedRoles := by
  apply (keeps_procedure (p := .ask .lookupRoles) (asks_ask trivial)).then
  intro looked
  cases looked with
  | fresh roles => exact keeps_pure ⟨rfl, rfl⟩
  | missing version =>
    exact (keeps_call (asks_ask trivial)).then fun _ => keeps_procedure (asks_ask trivial)

theorem keeps_cachedAssignments (user : UserId) :
    Keeps known .free (Stands known .free) (cachedAssignments user) := by
  refine .looks (fun rows => .done ⟨rfl, rfl⟩) fun version => ?_
  refine .loads (fun rows => ?_) fun fault => .done rfl
  exact .installs fun _ => .done ⟨rfl, rfl⟩

theorem calm_of_inquiry {c : Call} (h : c.IsInquiry) : c.IsCalm := by
  cases c <;> trivial

theorem keeps_resolveRoles (user : UserId) (time : Instant) (eligible : Role → Bool) :
    Keeps known .free (Stands known .free) (resolveRoles user time eligible) := by
  refine keeps_cachedRoles.then fun snapshot => (keeps_cachedAssignments user).then fun rows => ?_
  dsimp only
  split
  · exact keeps_pure ⟨rfl, rfl⟩
  · apply (keeps_call (asks_ask trivial)).then
    intro found
    cases found with
    | none => exact keeps_pure ⟨rfl, rfl⟩
    | some found =>
      refine (keeps_procedure ?_).then fun met => keeps_pure ⟨rfl, rfl⟩
      exact (meeting_inquires _ _).mono fun _ h => calm_of_inquiry h

theorem keeps_userRoles (user : UserId) :
    Keeps known .free (Stands known .free) (userRoles user) :=
  keeps_now.then fun _ => keeps_resolveRoles user _ _

theorem keeps_basePolicies : Keeps known .free (Stands known .free) basePolicies :=
  (keeps_call (asks_ask trivial)).then fun _ => keeps_pure ⟨rfl, rfl⟩

theorem keeps_hasPrivilege (actor : Option Actor) (privilege : Role → Bool) :
    Keeps known .free (Stands known .free) (hasPrivilege actor privilege) := by
  cases actor with
  | none => exact keeps_pure ⟨rfl, rfl⟩
  | some actor =>
    simp only [hasPrivilege]
    split
    · exact keeps_pure ⟨rfl, rfl⟩
    · exact (keeps_userRoles actor.userId).then fun _ => keeps_pure ⟨rfl, rfl⟩

theorem keeps_privilegedUsers (privilege : Role → Bool) :
    Keeps known .free (Stands known .free) (privilegedUsers privilege) := by
  apply keeps_cachedRoles.then
  intro roles
  dsimp only
  split
  · exact keeps_pure ⟨rfl, rfl⟩
  · exact keeps_now.then fun _ => (keeps_call (asks_ask trivial)).then fun _ =>
      keeps_pure ⟨rfl, rfl⟩

theorem keeps_reading {request : Service α} (h : World.Reading request) :
    Keeps known .free (Stands known .free) request := by
  cases h with
  | cachedRoles => exact keeps_cachedRoles
  | cachedAssignments user => exact keeps_cachedAssignments user
  | userRoles user => exact keeps_userRoles user
  | badgeRoles user => exact keeps_now.then fun _ => keeps_resolveRoles user _ _
  | userAssignments user =>
    exact keeps_now.then fun _ => (keeps_cachedAssignments user).then fun _ =>
      keeps_pure ⟨rfl, rfl⟩
  | userPolicies user =>
    apply keeps_basePolicies.then
    intro base
    cases user with
    | none => exact keeps_pure ⟨rfl, rfl⟩
    | some user => exact (keeps_userRoles user).then fun _ => keeps_pure ⟨rfl, rfl⟩
  | basePolicies => exact keeps_basePolicies
  | isModerator actor => exact keeps_hasPrivilege actor _
  | isAdministrator actor => exact keeps_hasPrivilege actor _
  | isExplorable role =>
    apply (keeps_findRole role).then
    intro found
    cases found with
    | none => exact keeps_pure ⟨rfl, rfl⟩
    | some r => exact keeps_pure ⟨rfl, rfl⟩
  | moderatorIds both => exact keeps_privilegedUsers _
  | administratorIds => exact keeps_privilegedUsers _

inductive AboutRows : {α : Type} → Service α → Prop
  | assign (user : UserId) (role : RoleId) (expiresAt : Option Instant) (actor : Option Actor) :
      AboutRows (Service.assign user role expiresAt actor)
  | unassign (user : UserId) (role : RoleId) (actor : Option Actor) :
      AboutRows (Service.unassign user role actor)
  | sweep (batchSize rounds : Nat) : AboutRows (Service.sweep batchSize rounds)
  | reads {α : Type} {request : Service α} (reading : World.Reading request) : AboutRows request

theorem AboutRows.keeps {request : Service α} (h : AboutRows request) :
    Keeps known .free Free request := by
  cases h with
  | assign user role expiresAt actor => exact keeps_assign user role expiresAt actor
  | unassign user role actor => exact keeps_unassign user role actor
  | sweep batchSize rounds => exact keeps_sweep batchSize rounds
  | reads reading => exact (keeps_reading reading).free

end Service

end Entitlement
