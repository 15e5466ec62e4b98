import Entitlement.Service.Assignments
import Entitlement.Service.Resolution
import Entitlement.Sql.Plan
import Entitlement.Worker.Address
import Entitlement.Worker.Settings

/-!
# A run of the worker

The worker connects to the database and to the broker, follows the events, and then
looks after the store in rounds: it removes the assignments that have expired and
prunes its cache. A round that fails does not end the worker. This is a run with one
round.
-/

set_option autoImplicit false

namespace Entitlement.Worker

structure Site where
  databaseAnswers : Bool
  replies : List Sql.Reply
  statements : List Sql.Statement
  broker : Broker Unit
  channel : String
  published : List (String × RoleEvent)
  subscribed : List String
  cache : Cache
  lifetimes : Lifetimes
  now : Instant
  moment : Moment
  serial : Nat

namespace Site

def execute (statement : Sql.Statement) (s : Site) : Sql.Reply × Site :=
  (s.replies.headD .nothing,
    { s with replies := s.replies.tail, statements := s.statements ++ [statement] })

def follow {α : Type} (plan : Sql.Plan α) (s : Site) : α × Site :=
  match plan with
  | .known a => (a, s)
  | .query statement answer =>
    let (reply, s) := s.execute statement
    (answer reply, s)

def publish (event : RoleEvent) (s : Site) : Except Fault Unit × Site :=
  match s.broker.publish s.channel event with
  | .ok broker =>
    (.ok (), { s with broker, published := s.published ++ [(s.channel, event)] })
  | .error fault => (.error fault, s)

def subscribe (s : Site) : Except Fault Unit × Site :=
  match s.broker.subscribe s.channel () with
  | .ok broker => (.ok (), { s with broker, subscribed := s.subscribed ++ [s.channel] })
  | .error fault => (.error fault, s)

def answer : (c : Call) → Site → c.Answer × Site
  | .listRoles, s => s.follow Sql.Plan.listRoles
  | .findRole role, s => s.follow (Sql.Plan.findRole role)
  | .insertRole role, s => s.follow (Sql.Plan.insertRole role)
  | .updateRole role, s => s.follow (Sql.Plan.updateRole role)
  | .deleteRole role, s => s.follow (Sql.Plan.deleteRole role)
  | .touchRole role usedAt, s => s.follow (Sql.Plan.touchRole role usedAt)
  | .assignmentsOfUser user, s => s.follow (Sql.Plan.assignmentsOfUser user)
  | .findAssignment user role, s => s.follow (Sql.Plan.findAssignment user role)
  | .insertAssignment a, s => s.follow (Sql.Plan.insertAssignment a)
  | .deleteAssignment a, s => s.follow (Sql.Plan.deleteAssignment a)
  | .assignmentsOfRoles roles, s => s.follow (Sql.Plan.assignmentsOfRoles roles)
  | .expiredAssignments now limit, s => s.follow (Sql.Plan.expiredAssignments now limit)
  | .findUser user, s => s.follow (Sql.Plan.findUser user)
  | .findProfile user, s => s.follow (Sql.Plan.findProfile user)
  | .countSecurityKeys user, s => s.follow (Sql.Plan.countSecurityKeys user)
  | .measure user metric, s => s.follow (Sql.Plan.measure user metric)
  | .instancePolicies, s => s.follow Sql.Plan.instancePolicies
  | .record entry, s => s.follow (Sql.Plan.record entry)
  | .publish event, s => s.publish event
  | .subscribe, s => s.subscribe
  | .notify _ _, s => (.ok (), s)
  | .lookupRoles, s => (s.cache.roles.lookup s.moment, s)
  | .installRoles version loaded, s =>
    let (roles, snapshot) := s.cache.roles.install s.moment s.lifetimes.roles version loaded
    (roles, { s with cache := { s.cache with roles := snapshot } })
  | .lookupAssignments user, s => (s.cache.lists.lookup user s.moment, s)
  | .installAssignments user version loaded, s =>
    let (rows, lists) :=
      s.cache.lists.install user s.moment s.lifetimes.assignments version loaded
    (rows, { s with cache := { s.cache with lists } })
  | .applyEvent event, s => ((), { s with cache := s.cache.apply event })
  | .pruneCache, s =>
    let (dropped, cache) := s.cache.prune s.moment
    (dropped, { s with cache })
  | .clearCache, s => ((), { s with cache := s.cache.clear })
  | .now, s => (s.now, s)
  | .newId, s => (Uuid.generated s.serial, { s with serial := s.serial + 1 })

end Site

def maintenance (batchSize rounds : Nat) : Procedure Unit := do
  let _ ← (Service.sweep batchSize rounds).run
  let _ ← Service.pruneCache

/-- What the worker does between start and end, given its settings. A sweep goes on no
longer than there are replies with rows for it. -/
def routine (settings : Settings) (rounds : Nat) : Service Unit := do
  Service.startSync
  Service.ofProcedure (maintenance settings.batchSize rounds)
  Service.ofProcedure Service.clearCache

def connect (settings : Settings) (s : Site) : Except Fault Unit :=
  if !s.databaseAnswers then .error .databaseUnreachable
  else if !Address.isValid settings.brokerAddress then
    .error (.invalidAddress Settings.brokerVariable)
  else .ok ()

def run (env : Environment) (s : Site) : Except Fault Unit × Site :=
  match Settings.load env with
  | .error fault => (.error fault, s)
  | .ok settings =>
    let lifetime := settings.cacheSeconds * 1000000000
    let s := { s with channel := settings.channel, lifetimes := ⟨lifetime, lifetime⟩ }
    match connect settings s with
    | .error fault => (.error fault, s)
    | .ok () => (routine settings s.replies.length).run.runOn Site.answer s

end Entitlement.Worker
