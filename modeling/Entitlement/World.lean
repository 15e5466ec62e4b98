import Entitlement.Feed
import Entitlement.Service.Assignments
import Entitlement.Service.Definitions
import Entitlement.Service.Resolution
import Entitlement.Store

/-!
# A world in memory

Any number of services, each with a cache of its own, share one store, one event feed
and one provider of user statistics. A world answers the calls of procedures, notes what
they brought about, and can let any of its ports fail. Scenarios take place in a world
of two services and a third cache that stands by itself.
-/

set_option autoImplicit false

namespace Entitlement

inductive Party where
  | main
  | peer
  | bare
  deriving DecidableEq, Repr

inductive Port where
  | listRoles
  | findRole
  | insertRole
  | updateRole
  | deleteRole
  | touchRole
  | assignmentsOfUser
  | findAssignment
  | insertAssignment
  | deleteAssignment
  | assignmentsOfRoles
  | expiredAssignments
  | publish
  | subscribe
  | notify
  | record
  | instancePolicies
  | findUser
  | findProfile
  | countSecurityKeys
  | measure (metric : UserMetric)
  deriving DecidableEq, Repr

namespace Port

def text : Port → String
  | .listRoles => "list_roles"
  | .findRole => "find_role"
  | .insertRole => "insert_role"
  | .updateRole => "update_role"
  | .deleteRole => "delete_role"
  | .touchRole => "touch_role_last_used"
  | .assignmentsOfUser => "list_assignments_for_user"
  | .findAssignment => "find_assignment"
  | .insertAssignment => "insert_assignment"
  | .deleteAssignment => "delete_assignment"
  | .assignmentsOfRoles => "list_assignments_for_roles"
  | .expiredAssignments => "list_expired_assignments"
  | .publish => "publish"
  | .subscribe => "subscribe"
  | .notify => "notify"
  | .record => "append_entry"
  | .instancePolicies => "instance_policies"
  | .findUser => "stats.user"
  | .findProfile => "stats.profile"
  | .countSecurityKeys => "stats.securityKeys"
  | .measure metric => "stats." ++ metric.text

def every : List Port :=
  [.listRoles, .findRole, .insertRole, .updateRole, .deleteRole, .touchRole,
    .assignmentsOfUser, .findAssignment, .insertAssignment, .deleteAssignment,
    .assignmentsOfRoles, .expiredAssignments, .publish, .subscribe, .notify, .record,
    .instancePolicies, .findUser, .findProfile, .countSecurityKeys] ++
    UserMetric.every.map .measure

def ofText? (s : String) : Option Port := every.find? fun p => p.text == s

def isStore : Port → Bool
  | .listRoles | .findRole | .insertRole | .updateRole | .deleteRole | .touchRole
  | .assignmentsOfUser | .findAssignment | .insertAssignment | .deleteAssignment
  | .assignmentsOfRoles | .expiredAssignments => true
  | _ => false

end Port

def Call.port? : Call → Option Port
  | .listRoles => some .listRoles
  | .findRole _ => some .findRole
  | .insertRole _ => some .insertRole
  | .updateRole _ => some .updateRole
  | .deleteRole _ => some .deleteRole
  | .touchRole _ _ => some .touchRole
  | .assignmentsOfUser _ => some .assignmentsOfUser
  | .findAssignment _ _ => some .findAssignment
  | .insertAssignment _ => some .insertAssignment
  | .deleteAssignment _ => some .deleteAssignment
  | .assignmentsOfRoles _ => some .assignmentsOfRoles
  | .expiredAssignments _ _ => some .expiredAssignments
  | .findUser _ => some .findUser
  | .findProfile _ => some .findProfile
  | .countSecurityKeys _ => some .countSecurityKeys
  | .measure _ metric => some (.measure metric)
  | .instancePolicies => some .instancePolicies
  | .publish _ => some .publish
  | .subscribe => some .subscribe
  | .notify _ _ => some .notify
  | .record _ => some .record
  | _ => none

structure Person where
  id : UserId
  user : Option User
  profile : Option Profile
  securityKeys : UInt64
  metrics : List (UserMetric × UInt64)

structure Effects where
  events : List RoleEvent
  notices : List (UserId × Notification)
  entries : List ModerationEntry
  loads : List Port
  inquiries : List Port

def Effects.none : Effects := ⟨[], [], [], [], []⟩

/-- A world whose caches belong to the keys `κ`. The next identifier that anything is
given is `nextId`. -/
structure World (κ : Type) where
  store : Store
  feed : Feed κ
  caches : κ → Cache
  lifetimes : κ → Lifetimes
  people : List Person
  instancePolicies : Option InstancePolicies
  keepsNotices : Bool
  keepsLog : Bool
  now : Instant
  moment : Moment
  nextId : Uuid
  failing : List Port
  effects : Effects

namespace World

variable {κ : Type} [DecidableEq κ]

def startingAt (now : Instant) (moment : Moment) : World κ where
  store := .empty
  feed := .empty
  caches := fun _ => .empty
  lifetimes := fun _ => .default
  people := []
  instancePolicies := none
  keepsNotices := true
  keepsLog := true
  now := now.onClock
  moment
  nextId := .generated 0
  failing := []
  effects := .none

def setCache (w : World κ) (party : κ) (c : Cache) : World κ :=
  { w with caches := fun other => if other = party then c else w.caches other }

def person? (w : World κ) (user : UserId) : Option Person := w.people.find? fun p => p.id = user

def fails (w : World κ) (c : Call) : Bool :=
  match c.port? with
  | some .instancePolicies => w.instancePolicies.isSome && w.failing.contains .instancePolicies
  | some port => w.failing.contains port
  | none => false

def outage (c : Call) : Fault :=
  .outage ((c.port?.map (·.text)).getD "")

def noteLoad (w : World κ) (c : Call) : World κ :=
  match c with
  | .listRoles => { w with effects.loads := w.effects.loads ++ [.listRoles] }
  | .assignmentsOfUser _ => { w with effects.loads := w.effects.loads ++ [.assignmentsOfUser] }
  | _ => w

def noteInquiry (w : World κ) (c : Call) : World κ :=
  match c with
  | .findUser _ => { w with effects.inquiries := w.effects.inquiries ++ [.findUser] }
  | .findProfile _ => { w with effects.inquiries := w.effects.inquiries ++ [.findProfile] }
  | .countSecurityKeys _ =>
    { w with effects.inquiries := w.effects.inquiries ++ [.countSecurityKeys] }
  | .measure _ metric => { w with effects.inquiries := w.effects.inquiries ++ [.measure metric] }
  | _ => w

def change (w : World κ) (result : Except Fault Store) : Except Fault Unit × World κ :=
  match result with
  | .ok store => (.ok (), { w with store })
  | .error fault => (.error fault, w)

def serve (party : κ) : (c : Call) → World κ → c.Answer × World κ
  | .listRoles, w => (.ok w.store.roles, w)
  | .findRole role, w => (.ok (w.store.findRole role), w)
  | .insertRole role, w => w.change (w.store.insertRole role)
  | .updateRole role, w => w.change (w.store.updateRole role)
  | .deleteRole role, w => w.change (w.store.deleteRole role)
  | .touchRole role usedAt, w => (.ok (), { w with store := w.store.touchRole role usedAt })
  | .assignmentsOfUser user, w => (.ok (w.store.assignmentsOfUser user), w)
  | .findAssignment user role, w => (.ok (w.store.findAssignment user role), w)
  | .insertAssignment a, w => w.change (w.store.insertAssignment a)
  | .deleteAssignment a, w =>
    let (removed, store) := w.store.deleteAssignment a
    (.ok removed, { w with store })
  | .assignmentsOfRoles roles, w => (.ok (w.store.assignmentsOfRoles roles), w)
  | .expiredAssignments now limit, w => (.ok (w.store.expiredAssignments now limit), w)
  | .findUser user, w => (.ok ((w.person? user).bind (·.user)), w)
  | .findProfile user, w => (.ok ((w.person? user).bind (·.profile)), w)
  | .countSecurityKeys user, w => (.ok (((w.person? user).map (·.securityKeys)).getD 0), w)
  | .measure user metric, w =>
    (.ok (((w.person? user).bind fun p => p.metrics.lookup metric).getD 0), w)
  | .instancePolicies, w => (.ok (w.instancePolicies.getD .empty), w)
  | .publish event, w =>
    (.ok (), { w with feed := w.feed.publish event, effects.events := w.effects.events ++ [event] })
  | .subscribe, w => (.ok (), { w with feed := w.feed.subscribe party })
  | .notify user notification, w =>
    (.ok (), if w.keepsNotices then
      { w with effects.notices := w.effects.notices ++ [(user, notification)] } else w)
  | .record entry, w =>
    (.ok (), if w.keepsLog then
      { w with effects.entries := w.effects.entries ++ [entry] } else w)
  | .lookupRoles, w => ((w.caches party).roles.lookup w.moment, w)
  | .installRoles version loaded, w =>
    let c := w.caches party
    let (roles, snapshot) := c.roles.install w.moment (w.lifetimes party).roles version loaded
    (roles, w.setCache party { c with roles := snapshot })
  | .lookupAssignments user, w => ((w.caches party).lists.lookup user w.moment, w)
  | .installAssignments user version loaded, w =>
    let c := w.caches party
    let (rows, lists) := c.lists.install user w.moment (w.lifetimes party).assignments version loaded
    (rows, w.setCache party { c with lists })
  | .applyEvent event, w => ((), w.setCache party ((w.caches party).apply event))
  | .pruneCache, w =>
    let (dropped, c) := (w.caches party).prune w.moment
    (dropped, w.setCache party c)
  | .clearCache, w => ((), w.setCache party (w.caches party).clear)
  | .now, w => (w.now, w)
  | .newId, w => (w.nextId, w)

/-- The answer to a call of a party. A call that is made to fail has no effect, but is
noted when it is a load or an inquiry. -/
def answer (party : κ) (c : Call) (w : World κ) : c.Answer × World κ :=
  let w := (w.noteLoad c).noteInquiry c
  if w.fails c then
    match c.failed? (outage c) with
    | some r => (r, w)
    | none => serve party c w
  else serve party c w

def deliverNext (party : κ) (w : World κ) : World κ :=
  match w.feed.receive party with
  | (some (.event event), feed) =>
    { w.setCache party ((w.caches party).apply event) with feed }
  | _ => w

def deliverSome (party : κ) : Nat → World κ → World κ
  | 0, w => w
  | n + 1, w => deliverSome party n (w.deliverNext party)

def deliver (party : κ) (w : World κ) : World κ :=
  w.deliverSome party (w.feed.waiting party).length

def settle (w : World Party) : World Party := (w.deliver .main).deliver .peer

end World

end Entitlement
