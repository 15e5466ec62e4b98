import Entitlement.World

/-!
# Scenarios

A scenario is a list of steps on a world. A step may leave hooks behind: further steps
that run just before or just after the next call of some method of the store, in the
middle of whatever makes that call. So a scenario fixes an interleaving of requests at
the calls they make. Each step reports its own result and effects and the reports of
the steps that ran within it.
-/

set_option autoImplicit false

namespace Entitlement

structure Hook where
  isAfter : Bool
  port : Port
  deriving DecidableEq, Repr

structure PersonEdit where
  id : UserId
  user : Option (Option User)
  profile : Option (Option Profile)
  securityKeys : Option UInt64
  metrics : Option (List (UserMetric × UInt64))

def PersonEdit.apply (edit : PersonEdit) (p : Person) : Person where
  id := p.id
  user := edit.user.getD p.user
  profile := edit.profile.getD p.profile
  securityKeys := edit.securityKeys.getD p.securityKeys
  metrics := edit.metrics.getD p.metrics

def PersonEdit.applyTo (edit : PersonEdit) : List Person → List Person
  | [] => [edit.apply ⟨edit.id, none, none, 0, []⟩]
  | p :: rest => if p.id = edit.id then edit.apply p :: rest else p :: edit.applyTo rest

inductive Action where
  | unreadable (cause : Unreadable)
  | advance (millis : Nat)
  | setNow (now : Instant)
  | fail (ports : List Port)
  | setPerson (edit : PersonEdit)
  | setInstance (policies : InstancePolicies)
  | publish (event : RoleEvent)
  | replaceFeed
  | createRole (draft : RoleDraft) (actor : Option Actor)
  | updateRole (role : RoleId) (edit : RoleEdit) (actor : Option Actor)
  | deleteRole (role : RoleId) (actor : Option Actor)
  | assign (user : UserId) (role : RoleId) (expiresAt : Option Instant) (actor : Option Actor)
  | unassign (user : UserId) (role : RoleId) (actor : Option Actor)
  | sweep (batchSize : Nat)
  | userRoles (user : UserId)
  | badgeRoles (user : UserId)
  | userAssignments (user : UserId)
  | userPolicies (user : Option UserId)
  | basePolicies
  | isModerator (actor : Option Actor)
  | isAdministrator (actor : Option Actor)
  | isExplorable (role : RoleId)
  | moderatorIds (includeAdministrators : Bool)
  | administratorIds
  | startSync
  | stopSync
  | pruneCache
  | clearCache
  | cachedRoles
  | cachedAssignments (user : UserId)
  | applyEvent (event : RoleEvent)
  | cacheLifetimes
  | storeState
  | storedRoles
  | storedRole (role : RoleId)
  | insertRole (role : Role)
  | replaceRole (role : Role)
  | removeRole (role : RoleId)
  | touchRole (role : RoleId) (usedAt : Instant)
  | storedAssignments (user : UserId)
  | storedAssignment (user : UserId) (role : RoleId)
  | insertAssignment (assignment : Assignment)
  | removeAssignment (assignment : AssignmentId)
  | assignmentsOfRoles (roles : List RoleId)
  | expiredAssignments (now : Instant) (limit : Nat)

inductive Step where
  | mk (party : Party) (action : Action) (hooks : List (Hook × List Step))

instance : Inhabited Step := ⟨.mk .main .basePolicies []⟩

inductive Outcome where
  | done
  | fault (fault : Fault)
  | unreadable (cause : Unreadable)
  | role (role : Role)
  | storedRole (role : Option Role)
  | roles (roles : List Role)
  | assignment (assignment : Assignment)
  | storedAssignment (assignment : Option Assignment)
  | assignments (rows : List Assignment)
  | table (table : PolicyTable)
  | truth (value : Bool)
  | count (n : Nat)
  | users (users : List UserId)
  | time (now : Instant)
  | name (text : String)
  | lifetimes (lifetimes : Lifetimes)
  | state (roles : List Role) (rows : List Assignment)

inductive Report where
  | mk (outcome : Outcome) (effects : Effects) (nested : List Report)

namespace Outcome

def ofExcept {α : Type} (f : α → Outcome) : Except Fault α → Outcome
  | .ok a => f a
  | .error e => .fault e

end Outcome

/-- A world on which a scenario is under way: the hooks that wait, the number of steps
begun, and the reports of the steps that have run within the present one. -/
structure Stage where
  world : World Party
  hooks : List (Hook × List Step)
  begun : Nat
  tickMillis : Nat
  budget : Nat
  nested : List Report

namespace Stage

abbrev Runner := List Step → Stage → List Report × Stage

def runHook (run : Runner) (hook : Hook) (s : Stage) : Stage :=
  match s.hooks.lookup hook with
  | none => s
  | some steps =>
    let hooks := s.hooks.filter fun (h, _) => h ≠ hook
    let (reports, after) := run steps { s with hooks, nested := [] }
    { after with
      world := { after.world with effects := s.world.effects, nextId := s.world.nextId }
      nested := s.nested ++ reports }

def answer (run : Runner) (party : Party) (c : Call) (s : Stage) : c.Answer × Stage :=
  match c.port? with
  | some port =>
    if port.isStore then
      let s := s.runHook run ⟨false, port⟩
      let failed := s.world.fails c
      let (r, world) := s.world.answer party c
      let s := { s with world }
      (r, if failed then s else s.runHook run ⟨true, port⟩)
    else
      let (r, world) := s.world.answer party c
      (r, { s with world })
  | none =>
    let (r, world) := s.world.answer party c
    (r, { s with world })

def request {α : Type} (run : Runner) (party : Party) (p : Service α) (f : α → Outcome)
    (s : Stage) : Outcome × Stage :=
  let (r, s) := Procedure.runOn (answer run party) p.run s
  (.ofExcept f r, s)

def procedure {α : Type} (run : Runner) (party : Party) (p : Procedure α) (f : α → Outcome)
    (s : Stage) : Outcome × Stage :=
  let (r, s) := p.runOn (answer run party) s
  (f r, s)

def change (result : Except Fault Store) (s : Stage) : Outcome × Stage :=
  match result with
  | .ok store => (.done, { s with world := { s.world with store } })
  | .error e => (.fault e, s)

def see (s : Stage) (outcome : Outcome) : Outcome × Stage := (outcome, s)

def setWorld (s : Stage) (world : World Party) (outcome : Outcome) : Outcome × Stage :=
  (outcome, { s with world })

def orderedRows (rows : List Assignment) : List Assignment :=
  rows.mergeSort fun a b => a.id.uuid ≤ b.id.uuid

def perform (run : Runner) (party : Party) (action : Action) (s : Stage) : Outcome × Stage :=
  let w := s.world
  match action with
  | .unreadable cause => s.see (.unreadable cause)
  | .advance millis =>
    let now := w.now.addMillis millis
    s.setWorld { w with now, moment := w.moment + millis * 1000000 } (.time now)
  | .setNow instant =>
    let now := instant.onClock
    s.setWorld { w with now } (.time now)
  | .fail ports => s.setWorld { w with failing := ports } .done
  | .setPerson edit => s.setWorld { w with people := edit.applyTo w.people } .done
  | .setInstance policies => s.setWorld { w with instancePolicies := some policies } .done
  | .publish event =>
    let (result, world) := w.answer .bare (.publish event)
    s.setWorld world (.ofExcept (fun _ => .done) result)
  | .replaceFeed => s.setWorld { w.settle with feed := .empty } .done
  | .createRole draft actor => s.request run party (Service.createRole draft actor) .role
  | .updateRole role edit actor =>
    s.request run party (Service.updateRole role edit actor) .role
  | .deleteRole role actor =>
    s.request run party (Service.deleteRole role actor) fun _ => .done
  | .assign user role expiresAt actor =>
    s.request run party (Service.assign user role expiresAt actor) .assignment
  | .unassign user role actor =>
    s.request run party (Service.unassign user role actor) fun _ => .done
  | .sweep batchSize =>
    s.request run party (Service.sweep batchSize (w.store.rows.length + s.budget)) .count
  | .userRoles user => s.request run party (Service.userRoles user) .roles
  | .badgeRoles user => s.request run party (Service.badgeRoles user) .roles
  | .userAssignments user => s.request run party (Service.userAssignments user) .assignments
  | .userPolicies user => s.request run party (Service.userPolicies user) .table
  | .basePolicies => s.request run party Service.basePolicies .table
  | .isModerator actor => s.request run party (Service.isModerator actor) .truth
  | .isAdministrator actor => s.request run party (Service.isAdministrator actor) .truth
  | .isExplorable role => s.request run party (Service.isExplorable role) .truth
  | .moderatorIds both => s.request run party (Service.moderatorIds both) .users
  | .administratorIds => s.request run party Service.administratorIds .users
  | .startSync => s.request run party Service.startSync fun _ => .done
  | .stopSync => s.setWorld { w with feed := w.feed.drop party } .done
  | .pruneCache => s.procedure run party Service.pruneCache .count
  | .clearCache => s.procedure run party Service.clearCache fun _ => .done
  | .cachedRoles => s.request run party Service.cachedRoles .roles
  | .cachedAssignments user => s.request run party (Service.cachedAssignments user) .assignments
  | .applyEvent event =>
    s.procedure run party (.ask (.applyEvent event)) fun _ => .name event.name
  | .cacheLifetimes => s.see (.lifetimes (w.lifetimes .bare))
  | .storeState =>
    s.see (.state w.store.roles
      (orderedRows (w.store.rows.filter fun a => w.store.hasRole a.roleId)))
  | .storedRoles => s.see (.roles w.store.roles)
  | .storedRole role => s.see (.storedRole (w.store.findRole role))
  | .insertRole role => s.change (w.store.insertRole role)
  | .replaceRole role => s.change (w.store.updateRole role)
  | .removeRole role => s.change (w.store.deleteRole role)
  | .touchRole role usedAt => s.change (.ok (w.store.touchRole role usedAt))
  | .storedAssignments user => s.see (.assignments (w.store.assignmentsOfUser user))
  | .storedAssignment user role => s.see (.storedAssignment (w.store.findAssignment user role))
  | .insertAssignment a => s.change (w.store.insertAssignment a)
  | .removeAssignment a =>
    let (removed, store) := w.store.deleteAssignment a
    s.setWorld { w with store } (.truth removed)
  | .assignmentsOfRoles roles =>
    s.see (.assignments (orderedRows (w.store.assignmentsOfRoles roles)))
  | .expiredAssignments now limit =>
    s.see (.assignments (w.store.expiredAssignments now limit))

def begin (s : Stage) (hooks : List (Hook × List Step)) : Stage :=
  { s with
    begun := s.begun + 1
    hooks := hooks ++ s.hooks.filter fun (h, _) => !(hooks.any fun (g, _) => g = h)
    nested := []
    world := { s.world with
      nextId := .generated (s.begun + 1)
      now := s.world.now.addMillis s.tickMillis
      moment := s.world.moment + s.tickMillis * 1000000
      effects := .none } }

def runStep (run : Runner) : Step → Stage → Report × Stage
  | .mk party action hooks, s =>
    let (outcome, s) := (s.begin hooks).perform run party action
    (.mk outcome s.world.effects s.nested, { s with world := s.world.settle })

def runEach (run : Runner) : List Step → Stage → List Report × Stage
  | [], s => ([], s)
  | step :: rest, s =>
    let (report, s) := s.runStep run step
    let (reports, s) := runEach run rest s
    (report :: reports, s)

def runSteps : Nat → Runner
  | 0 => fun _ s => ([], s)
  | depth + 1 => runEach (runSteps depth)

end Stage

mutual

def Step.size : Step → Nat
  | .mk _ _ hooks => sizeHooks hooks + 1

def Step.sizeAll : List Step → Nat
  | [] => 0
  | s :: rest => s.size + Step.sizeAll rest

def Step.sizeHooks : List (Hook × List Step) → Nat
  | [] => 0
  | (_, steps) :: rest => Step.sizeAll steps + Step.sizeHooks rest

end

/-- Runs a scenario. A hook runs once, so no step is nested deeper than there are steps. -/
def World.play (w : World Party) (tickMillis : Nat) (steps : List Entitlement.Step) : List Report :=
  let size := Entitlement.Step.sizeAll steps
  (Stage.runSteps (size + 1) steps ⟨w, [], 0, tickMillis, size, []⟩).1

end Entitlement
