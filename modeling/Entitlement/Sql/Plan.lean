import Entitlement.Call
import Entitlement.Sql.Record

/-!
# Calls as statements

A call of the store, of the user statistics, of the instance policies or of the log
takes one statement on a database at most. Its plan is the statement and what is made
of the reply.
-/

set_option autoImplicit false

namespace Entitlement.Sql

inductive Plan (α : Type) where
  | known (value : α)
  | query (statement : Statement) (answer : Reply → α)

def capitalized (s : String) : String :=
  match s.toList with
  | c :: rest => String.ofList (c.toUpper :: rest)
  | [] => s

def quoted (u : Uuid) : String := "'" ++ u.toText ++ "'"

def greatestLimit : Nat := Int64.maxValue.toInt.toNat

namespace Plan

def listRoles : Plan (Except Fault (List Role)) :=
  .query ⟨"SELECT " ++ roleColumns ++ " FROM roles ORDER BY display_order DESC, id", []⟩ fun r => do
    (← r.all "list roles" readRole).mapM id

def findRole (role : RoleId) : Plan (Except Fault (Option Role)) :=
  .query ⟨"SELECT " ++ roleColumns ++ " FROM roles WHERE id = $1", [.uuid role.uuid]⟩ fun r => do
    match ← r.first? ("find role " ++ quoted role.uuid) readRole with
    | some checked => some <$> checked
    | none => return none

def insertRole (role : Role) : Plan (Except Fault Unit) :=
  .query ⟨"INSERT INTO roles ( " ++ roleColumns ++ " ) VALUES ($1, $2, $3, $4, $5, $6, $7, " ++
      "$8, $9, $10, $11, $12, $13, $14, $15, $16)", roleParameters role⟩ fun
    | .completed _ _ => .ok ()
    | .refused state message =>
      if state = uniqueViolation then .error (.roleExists role.id)
      else .error (.queryFailed ("insert role " ++ quoted role.id.uuid) (.refused message))

def updateRole (role : Role) : Plan (Except Fault Unit) :=
  .query ⟨"UPDATE roles SET name = $2, description = $3, color = $4, icon_url = $5, " ++
      "target = $6, is_public = $7, is_moderator = $8, is_administrator = $9, " ++
      "is_explorable = $10, as_badge = $11, can_edit_members_by_moderator = $12, " ++
      "display_order = $13, policies = $14, updated_at = $15, last_used_at = $16 " ++
      "WHERE id = $1", roleParameters role⟩ fun r => do
    let n ← r.affected ("update role " ++ quoted role.id.uuid)
    if n = 0 then throw (.roleNotFound role.id)

def deleteRole (role : RoleId) : Plan (Except Fault Unit) :=
  .query ⟨"DELETE FROM roles WHERE id = $1", [.uuid role.uuid]⟩ fun r => do
    let n ← r.affected ("delete role " ++ quoted role.uuid)
    if n = 0 then throw (.roleNotFound role)

def touchRole (role : RoleId) (usedAt : Instant) : Plan (Except Fault Unit) :=
  .query ⟨"UPDATE roles SET last_used_at = $2 WHERE id = $1",
      [.uuid role.uuid, .ofInstant usedAt]⟩ fun r => do
    let _ ← r.affected ("update last use of role " ++ quoted role.uuid)

def assignmentsOfUser (user : UserId) : Plan (Except Fault (List Assignment)) :=
  .query ⟨"SELECT " ++ assignmentColumns ++ " FROM role_assignments WHERE user_id = $1 " ++
      "ORDER BY created_at, id", [.uuid user.uuid]⟩ fun r =>
    r.all ("list role assignments for user " ++ quoted user.uuid) readAssignment

def findAssignment (user : UserId) (role : RoleId) : Plan (Except Fault (Option Assignment)) :=
  .query ⟨"SELECT " ++ assignmentColumns ++ " FROM role_assignments WHERE user_id = $1 " ++
      "AND role_id = $2", [.uuid user.uuid, .uuid role.uuid]⟩ fun r =>
    r.first? ("find assignment of role " ++ quoted role.uuid ++ " to user " ++ quoted user.uuid)
      readAssignment

def insertAssignment (a : Assignment) : Plan (Except Fault Unit) :=
  .query ⟨"INSERT INTO role_assignments (" ++ assignmentColumns ++ ") " ++
      "VALUES ($1, $2, $3, $4, $5)", assignmentParameters a⟩ fun
    | .completed _ _ => .ok ()
    | .refused state message =>
      if state = uniqueViolation then .error (.alreadyAssigned a.roleId a.userId)
      else if state = foreignKeyViolation then .error (.roleNotFound a.roleId)
      else .error (.queryFailed ("insert assignment of role " ++ quoted a.roleId.uuid ++
        " to user " ++ quoted a.userId.uuid) (.refused message))

def deleteAssignment (a : AssignmentId) : Plan (Except Fault Bool) :=
  .query ⟨"DELETE FROM role_assignments WHERE id = $1", [.uuid a.uuid]⟩ fun r => do
    return 0 < (← r.affected ("delete role assignment " ++ quoted a.uuid))

def assignmentsOfRoles (roles : List RoleId) : Plan (Except Fault (List Assignment)) :=
  if roles.isEmpty then .known (.ok [])
  else .query ⟨"SELECT " ++ assignmentColumns ++ " FROM role_assignments " ++
      "WHERE role_id = ANY($1)", [.uuids (roles.map (·.uuid))]⟩ fun r =>
    r.all "list assignments for roles" readAssignment

def expiredAssignments (now : Instant) (limit : Nat) : Plan (Except Fault (List Assignment)) :=
  .query ⟨"SELECT " ++ assignmentColumns ++ " FROM role_assignments " ++
      "WHERE expires_at IS NOT NULL AND expires_at <= $1 ORDER BY expires_at, id LIMIT $2",
      [.ofInstant now, .integer (min limit greatestLimit : Nat)]⟩ fun r =>
    r.all "list expired role assignments" readAssignment

def findUser (user : UserId) : Plan (Except Fault (Option User)) :=
  .query ⟨"SELECT " ++ userColumns ++ " FROM users WHERE id = $1", [.uuid user.uuid]⟩ fun r =>
    r.first? ("find user " ++ quoted user.uuid) readUser

def findProfile (user : UserId) : Plan (Except Fault (Option Profile)) :=
  .query ⟨"SELECT " ++ profileColumns ++ " FROM user_profiles WHERE user_id = $1",
      [.uuid user.uuid]⟩ fun r =>
    r.first? ("find profile of user " ++ quoted user.uuid) readProfile

def countSecurityKeys (user : UserId) : Plan (Except Fault UInt64) :=
  .query ⟨"SELECT COUNT(*) FROM user_security_keys WHERE user_id = $1", [.uuid user.uuid]⟩ fun r =>
    r.first ("count security keys of user " ++ quoted user.uuid) (Row.only Value.asCount?)

structure Source where
  table : String
  key : String
  expression : String

def source : UserMetric → Source
  | .followers => ⟨"users", "id", "followers_count"⟩
  | .following => ⟨"users", "id", "following_count"⟩
  | .notes => ⟨"users", "id", "notes_count"⟩
  | .loginDays => ⟨"user_profiles", "user_id",
      "(SELECT COUNT(DISTINCT day) FROM unnest(logged_in_dates) AS day)"⟩
  | .driveUsage => ⟨"user_statistics", "user_id", "drive_usage"⟩
  | .reactionsSent => ⟨"user_statistics", "user_id", "reactions_sent"⟩
  | .reactionsReceived => ⟨"user_statistics", "user_id", "reactions_received"⟩
  | .renotesSent => ⟨"user_statistics", "user_id", "renotes_sent"⟩
  | .renotesReceived => ⟨"user_statistics", "user_id", "renotes_received"⟩
  | .repliesSent => ⟨"user_statistics", "user_id", "replies_sent"⟩
  | .repliesReceived => ⟨"user_statistics", "user_id", "replies_received"⟩
  | .votesSent => ⟨"user_statistics", "user_id", "votes_sent"⟩
  | .votesReceived => ⟨"user_statistics", "user_id", "votes_received"⟩

def measure (user : UserId) (metric : UserMetric) : Plan (Except Fault UInt64) :=
  let s := source metric
  .query ⟨"SELECT (" ++ s.expression ++ ")::BIGINT FROM " ++ s.table ++ " WHERE " ++ s.key ++
      " = $1", [.uuid user.uuid]⟩ fun r => do
    return (← r.first? ("aggregate " ++ capitalized metric.text ++ " for user " ++
      quoted user.uuid) (Row.only Value.asCount?)).getD 0

def legibleTree (j : Json) : Decoded Json := if j.legible then .ok j else .error .malformed

def instancePolicies : Plan (Except Fault InstancePolicies) :=
  .query ⟨"SELECT policies FROM instance_meta WHERE id = 1", []⟩ fun r => do
    match ← r.first? "load instance policies" (Row.only (Value.asJson? legibleTree)) with
    | none => return .empty
    | some j =>
      match InstancePolicies.decode j with
      | .ok policies => return policies
      | .error .malformed => throw .unreadableInstancePolicies
      | .error (.invalid cause) => throw (.invalidInstancePolicies cause)

def record (entry : ModerationEntry) : Plan (Except Fault Unit) :=
  .query ⟨"INSERT INTO moderation_log_entries (actor_id, action, details, created_at) " ++
      "VALUES ($1, $2, $3, $4)", [.uuid entry.actorId.uuid, .text entry.action.text,
      .ofJson entry.details, .ofInstant entry.createdAt]⟩ fun r => do
    let _ ← r.affected ("append moderation log entry '" ++ entry.action.text ++ "'")

end Plan

end Entitlement.Sql
