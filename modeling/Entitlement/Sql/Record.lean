import Entitlement.Role
import Entitlement.Sql.Basic

/-!
# Records in rows

How roles, assignments, users and profiles stand in the rows of their tables. All
columns of a row are read before the name of a role is checked.
-/

set_option autoImplicit false

namespace Entitlement.Sql

open Value

def roleColumns : String :=
  "id, name, description, color, icon_url, target, is_public, is_moderator, " ++
    "is_administrator, is_explorable, as_badge, can_edit_members_by_moderator, " ++
    "display_order, policies, updated_at, last_used_at"

def roleParameters (r : Role) : List Value :=
  [.uuid r.id.uuid, .text r.name.text, .text r.description, ofOption .text r.color,
    ofOption .text r.iconUrl, ofJson r.target.encode, .bool r.isPublic, .bool r.isModerator,
    .bool r.isAdministrator, .bool r.isExplorable, .bool r.asBadge,
    .bool r.canEditMembersByModerator, .integer r.displayOrder.toInt, ofJson r.policies.encode,
    ofInstant r.updatedAt, ofInstant r.lastUsedAt]

def readRole (row : Row) : Except QueryFault (Except Fault Role) := do
  let id ← row.column "id" asUuid?
  let nameText ← row.column "name" asText?
  let description ← row.column "description" asText?
  let color ← row.column "color" (nullable asText?)
  let iconUrl ← row.column "icon_url" (nullable asText?)
  let target ← row.column "target" (asJson? (RoleTarget.decode false))
  let isPublic ← row.column "is_public" asBool?
  let isModerator ← row.column "is_moderator" asBool?
  let isAdministrator ← row.column "is_administrator" asBool?
  let isExplorable ← row.column "is_explorable" asBool?
  let asBadge ← row.column "as_badge" asBool?
  let canEditMembersByModerator ← row.column "can_edit_members_by_moderator" asBool?
  let displayOrder ← row.column "display_order" asInteger?
  let policies ← row.column "policies" (asJson? PolicyOverrides.decode)
  let updatedAt ← row.column "updated_at" asInstant?
  let lastUsedAt ← row.column "last_used_at" asInstant?
  return (Name.ofText nameText).map fun name => {
    id := ⟨id⟩
    name, description, color, iconUrl, target, isPublic, isModerator, isAdministrator
    isExplorable, asBadge, canEditMembersByModerator
    displayOrder := Int32.ofInt displayOrder
    policies, updatedAt, lastUsedAt }

def assignmentColumns : String := "id, role_id, user_id, expires_at, created_at"

def assignmentParameters (a : Assignment) : List Value :=
  [.uuid a.id.uuid, .uuid a.roleId.uuid, .uuid a.userId.uuid,
    ofOption ofInstant a.expiresAt, ofInstant a.createdAt]

def readAssignment (row : Row) : Except QueryFault Assignment := do
  let id ← row.column "id" asUuid?
  let roleId ← row.column "role_id" asUuid?
  let userId ← row.column "user_id" asUuid?
  let expiresAt ← row.column "expires_at" (nullable asInstant?)
  let createdAt ← row.column "created_at" asInstant?
  return ⟨⟨id⟩, ⟨roleId⟩, ⟨userId⟩, expiresAt, createdAt⟩

def userColumns : String :=
  "id, username, host, is_bot, is_suspended, is_cat, is_root, " ++
    "created_at, updated_at, followers_count, following_count, notes_count"

def readUser (row : Row) : Except QueryFault User := do
  let id ← row.column "id" asUuid?
  let username ← row.column "username" asText?
  let host ← row.column "host" (nullable asText?)
  let isBot ← row.column "is_bot" asBool?
  let isSuspended ← row.column "is_suspended" asBool?
  let isCat ← row.column "is_cat" asBool?
  let isRoot ← row.column "is_root" asBool?
  let createdAt ← row.column "created_at" asInstant?
  let updatedAt ← row.column "updated_at" (nullable asInstant?)
  let followersCount ← row.column "followers_count" asCount?
  let followingCount ← row.column "following_count" asCount?
  let notesCount ← row.column "notes_count" asCount?
  return {
    id := ⟨id⟩
    username, host, isBot, isSuspended, isCat, isRoot, createdAt, updatedAt
    followersCount, followingCount, notesCount }

def profileColumns : String :=
  "two_factor_enabled, email_verified, use_password_less_login, birthday, logged_in_dates"

def readProfile (row : Row) : Except QueryFault Profile := do
  let twoFactorEnabled ← row.column "two_factor_enabled" asBool?
  let emailVerified ← row.column "email_verified" asBool?
  let usePasswordLessLogin ← row.column "use_password_less_login" asBool?
  let birthday ← row.column "birthday" (nullable asDate?)
  let loggedInDates ← row.column "logged_in_dates" asDates?
  return { twoFactorEnabled, emailVerified, usePasswordLessLogin, birthday, loggedInDates }

end Entitlement.Sql
