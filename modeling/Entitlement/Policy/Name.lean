/-!
# Policy names

A policy is a switch, a limit or a multiplier. Its name, its kind, and the name under which maps
hold it are tables of their own; that they agree is for the proofs to say.
-/

set_option autoImplicit false

namespace Entitlement

inductive PolicyName where
  | gtlAvailable
  | ltlAvailable
  | canPublicNote
  | mentionLimit
  | canInvite
  | inviteLimit
  | inviteLimitCycle
  | inviteExpirationTime
  | canManageCustomEmojis
  | canManageAvatarDecorations
  | canSearchNotes
  | canUseTranslator
  | canHideAds
  | driveCapacityMb
  | alwaysMarkNsfw
  | pinLimit
  | antennaLimit
  | wordMuteLimit
  | webhookLimit
  | clipLimit
  | noteEachClipsLimit
  | userListLimit
  | userEachUserListsLimit
  | rateLimitFactor
  | avatarDecorationLimit
  deriving DecidableEq, Repr

inductive PolicyKind where
  | flag
  | limit
  | factor
  deriving DecidableEq, Repr

inductive PolicyCombinator where
  | anyGranted
  | greatest
  deriving DecidableEq, Repr

namespace PolicyName

def text : PolicyName → String
  | .gtlAvailable => "gtlAvailable"
  | .ltlAvailable => "ltlAvailable"
  | .canPublicNote => "canPublicNote"
  | .mentionLimit => "mentionLimit"
  | .canInvite => "canInvite"
  | .inviteLimit => "inviteLimit"
  | .inviteLimitCycle => "inviteLimitCycle"
  | .inviteExpirationTime => "inviteExpirationTime"
  | .canManageCustomEmojis => "canManageCustomEmojis"
  | .canManageAvatarDecorations => "canManageAvatarDecorations"
  | .canSearchNotes => "canSearchNotes"
  | .canUseTranslator => "canUseTranslator"
  | .canHideAds => "canHideAds"
  | .driveCapacityMb => "driveCapacityMb"
  | .alwaysMarkNsfw => "alwaysMarkNsfw"
  | .pinLimit => "pinLimit"
  | .antennaLimit => "antennaLimit"
  | .wordMuteLimit => "wordMuteLimit"
  | .webhookLimit => "webhookLimit"
  | .clipLimit => "clipLimit"
  | .noteEachClipsLimit => "noteEachClipsLimit"
  | .userListLimit => "userListLimit"
  | .userEachUserListsLimit => "userEachUserListsLimit"
  | .rateLimitFactor => "rateLimitFactor"
  | .avatarDecorationLimit => "avatarDecorationLimit"

def all : List PolicyName :=
  [.gtlAvailable, .ltlAvailable, .canPublicNote, .mentionLimit, .canInvite, .inviteLimit,
    .inviteLimitCycle, .inviteExpirationTime, .canManageCustomEmojis,
    .canManageAvatarDecorations, .canSearchNotes, .canUseTranslator, .canHideAds,
    .driveCapacityMb, .alwaysMarkNsfw, .pinLimit, .antennaLimit, .wordMuteLimit, .webhookLimit,
    .clipLimit, .noteEachClipsLimit, .userListLimit, .userEachUserListsLimit, .rateLimitFactor,
    .avatarDecorationLimit]

def kind : PolicyName → PolicyKind
  | .gtlAvailable | .ltlAvailable | .canPublicNote | .canInvite | .canManageCustomEmojis
  | .canManageAvatarDecorations | .canSearchNotes | .canUseTranslator | .canHideAds
  | .alwaysMarkNsfw => .flag
  | .rateLimitFactor => .factor
  | .mentionLimit | .inviteLimit | .inviteLimitCycle | .inviteExpirationTime
  | .driveCapacityMb | .pinLimit | .antennaLimit | .wordMuteLimit | .webhookLimit
  | .clipLimit | .noteEachClipsLimit | .userListLimit | .userEachUserListsLimit
  | .avatarDecorationLimit => .limit

def combinator (n : PolicyName) : PolicyCombinator :=
  match n.kind with
  | .flag => .anyGranted
  | .limit | .factor => .greatest

def ofText? (s : String) : Option PolicyName := all.find? fun n => n.text == s

def key : PolicyName → String
  | .gtlAvailable => "gtlAvailable"
  | .ltlAvailable => "ltlAvailable"
  | .canPublicNote => "canPublicNote"
  | .mentionLimit => "mentionLimit"
  | .canInvite => "canInvite"
  | .inviteLimit => "inviteLimit"
  | .inviteLimitCycle => "inviteLimitCycle"
  | .inviteExpirationTime => "inviteExpirationTime"
  | .canManageCustomEmojis => "canManageCustomEmojis"
  | .canManageAvatarDecorations => "canManageAvatarDecorations"
  | .canSearchNotes => "canSearchNotes"
  | .canUseTranslator => "canUseTranslator"
  | .canHideAds => "canHideAds"
  | .driveCapacityMb => "driveCapacityMb"
  | .alwaysMarkNsfw => "alwaysMarkNsfw"
  | .pinLimit => "pinLimit"
  | .antennaLimit => "antennaLimit"
  | .wordMuteLimit => "wordMuteLimit"
  | .webhookLimit => "webhookLimit"
  | .clipLimit => "clipLimit"
  | .noteEachClipsLimit => "noteEachClipsLimit"
  | .userListLimit => "userListLimit"
  | .userEachUserListsLimit => "userEachUserListsLimit"
  | .rateLimitFactor => "rateLimitFactor"
  | .avatarDecorationLimit => "avatarDecorationLimit"

def ofKey? : String → Option PolicyName
  | "gtlAvailable" => some .gtlAvailable
  | "ltlAvailable" => some .ltlAvailable
  | "canPublicNote" => some .canPublicNote
  | "mentionLimit" => some .mentionLimit
  | "canInvite" => some .canInvite
  | "inviteLimit" => some .inviteLimit
  | "inviteLimitCycle" => some .inviteLimitCycle
  | "inviteExpirationTime" => some .inviteExpirationTime
  | "canManageCustomEmojis" => some .canManageCustomEmojis
  | "canManageAvatarDecorations" => some .canManageAvatarDecorations
  | "canSearchNotes" => some .canSearchNotes
  | "canUseTranslator" => some .canUseTranslator
  | "canHideAds" => some .canHideAds
  | "driveCapacityMb" => some .driveCapacityMb
  | "alwaysMarkNsfw" => some .alwaysMarkNsfw
  | "pinLimit" => some .pinLimit
  | "antennaLimit" => some .antennaLimit
  | "wordMuteLimit" => some .wordMuteLimit
  | "webhookLimit" => some .webhookLimit
  | "clipLimit" => some .clipLimit
  | "noteEachClipsLimit" => some .noteEachClipsLimit
  | "userListLimit" => some .userListLimit
  | "userEachUserListsLimit" => some .userEachUserListsLimit
  | "rateLimitFactor" => some .rateLimitFactor
  | "avatarDecorationLimit" => some .avatarDecorationLimit
  | _ => none

theorem mem_all (n : PolicyName) : n ∈ all := by
  cases n <;> decide

end PolicyName

end Entitlement
