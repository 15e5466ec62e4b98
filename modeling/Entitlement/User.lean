import Entitlement.Condition.Wire
import Entitlement.Time.Instant

/-!
# Users

What the engine reads of a user: the record, the profile, which is looked up
separately, and the actor of an administrative call.
-/

set_option autoImplicit false

namespace Entitlement

structure User where
  id : UserId
  username : String
  host : Option String
  isBot : Bool
  isSuspended : Bool
  isCat : Bool
  isRoot : Bool
  createdAt : Instant
  updatedAt : Option Instant
  followersCount : UInt64
  followingCount : UInt64
  notesCount : UInt64
  deriving DecidableEq, Repr

def User.isLocal (user : User) : Bool := user.host.isNone

def User.isRemote (user : User) : Bool := user.host.isSome

structure Profile where
  twoFactorEnabled : Bool
  emailVerified : Bool
  usePasswordLessLogin : Bool
  birthday : Option Date
  loggedInDates : List Date
  deriving DecidableEq, Repr

namespace Profile

def loginDays (profile : Profile) : UInt64 := UInt64.ofNat profile.loggedInDates.eraseDups.length

def isBirthday (profile : Profile) (today : Date) : Bool :=
  match profile.birthday with
  | some birthday => birthday.sameDayOfYear today
  | none => false

end Profile

structure Actor where
  userId : UserId
  isRoot : Bool
  deriving DecidableEq, Repr

def RoleId.decode (j : Json) : Decoded RoleId := return ⟨← j.asSpelled Uuid.ofText?⟩

def UserId.decode (j : Json) : Decoded UserId := return ⟨← j.asSpelled Uuid.ofText?⟩

def AssignmentId.decode (j : Json) : Decoded AssignmentId := return ⟨← j.asSpelled Uuid.ofText?⟩

def RoleId.encode (i : RoleId) : Json := .text i.toText

def UserId.encode (i : UserId) : Json := .text i.toText

def AssignmentId.encode (i : AssignmentId) : Json := .text i.toText

def Instant.decode : Json → Decoded Instant := Json.asSpelled Instant.ofText?

def Instant.encode (t : Instant) : Json := .text t.toText

def Date.decode : Json → Decoded Date := Json.asSpelled Date.ofText?

def Date.encode (d : Date) : Json := .text d.toText

namespace User

def encode (user : User) : Json :=
  .object [
    ("id", user.id.encode),
    ("username", .text user.username),
    ("host", .ofOption .text user.host),
    ("isBot", .bool user.isBot),
    ("isSuspended", .bool user.isSuspended),
    ("isCat", .bool user.isCat),
    ("isRoot", .bool user.isRoot),
    ("createdAt", user.createdAt.encode),
    ("updatedAt", .ofOption Instant.encode user.updatedAt),
    ("followersCount", .int user.followersCount.toNat),
    ("followingCount", .int user.followingCount.toNat),
    ("notesCount", .int user.notesCount.toNat)]

def shape : Shape User :=
  User.mk <$> .field "id" UserId.decode
    <*> .field "username" Json.asText
    <*> .optional "host" Json.asText
    <*> .field "isBot" Json.asBool
    <*> .field "isSuspended" Json.asBool
    <*> .field "isCat" Json.asBool
    <*> .field "isRoot" Json.asBool
    <*> .field "createdAt" Instant.decode
    <*> .optional "updatedAt" Instant.decode
    <*> .field "followersCount" Json.asUInt64
    <*> .field "followingCount" Json.asUInt64
    <*> .field "notesCount" Json.asUInt64

def decode : Json → Decoded User := shape.read

end User

namespace Profile

def encode (profile : Profile) : Json :=
  .object [
    ("twoFactorEnabled", .bool profile.twoFactorEnabled),
    ("emailVerified", .bool profile.emailVerified),
    ("usePasswordLessLogin", .bool profile.usePasswordLessLogin),
    ("birthday", .ofOption Date.encode profile.birthday),
    ("loggedInDates", .array (profile.loggedInDates.map Date.encode))]

def shape : Shape Profile :=
  Profile.mk <$> .field "twoFactorEnabled" Json.asBool
    <*> .field "emailVerified" Json.asBool
    <*> .field "usePasswordLessLogin" Json.asBool
    <*> .optional "birthday" Date.decode
    <*> .field "loggedInDates" (Json.asList Date.decode)

def decode : Json → Decoded Profile := shape.read

end Profile

namespace Actor

def encode (actor : Actor) : Json :=
  .object [("userId", actor.userId.encode), ("isRoot", .bool actor.isRoot)]

def shape : Shape Actor :=
  Actor.mk <$> .field "userId" UserId.decode <*> .field "isRoot" Json.asBool

def decode : Json → Decoded Actor := shape.read

end Actor

end Entitlement
