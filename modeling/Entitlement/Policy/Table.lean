import Entitlement.Policy.Override

/-!
# Policy tables

A table holds a value for every policy. Roles are merged over a base table: for each
policy only the entries of the highest priority count, and of these the most generous
value is taken.
-/

set_option autoImplicit false

namespace Entitlement

structure PolicyTable where
  gtlAvailable : Bool
  ltlAvailable : Bool
  canPublicNote : Bool
  mentionLimit : Int64
  canInvite : Bool
  inviteLimit : Int64
  inviteLimitCycle : Int64
  inviteExpirationTime : Int64
  canManageCustomEmojis : Bool
  canManageAvatarDecorations : Bool
  canSearchNotes : Bool
  canUseTranslator : Bool
  canHideAds : Bool
  driveCapacityMb : Int64
  alwaysMarkNsfw : Bool
  pinLimit : Int64
  antennaLimit : Int64
  wordMuteLimit : Int64
  webhookLimit : Int64
  clipLimit : Int64
  noteEachClipsLimit : Int64
  userListLimit : Int64
  userEachUserListsLimit : Int64
  rateLimitFactor : Binary64
  avatarDecorationLimit : Int64

namespace PolicyTable

def default : PolicyTable where
  gtlAvailable := true
  ltlAvailable := true
  canPublicNote := true
  mentionLimit := 20
  canInvite := false
  inviteLimit := 0
  inviteLimitCycle := 60 * 24 * 7
  inviteExpirationTime := 0
  canManageCustomEmojis := false
  canManageAvatarDecorations := false
  canSearchNotes := false
  canUseTranslator := true
  canHideAds := false
  driveCapacityMb := 100
  alwaysMarkNsfw := false
  pinLimit := 5
  antennaLimit := 5
  wordMuteLimit := 200
  webhookLimit := 3
  clipLimit := 10
  noteEachClipsLimit := 200
  userListLimit := 10
  userEachUserListsLimit := 50
  rateLimitFactor := Binary64.ofNat 1
  avatarDecorationLimit := 1

instance : Inhabited PolicyTable := ⟨default⟩

def get (table : PolicyTable) : PolicyName → PolicyValue
  | .gtlAvailable => .flag table.gtlAvailable
  | .ltlAvailable => .flag table.ltlAvailable
  | .canPublicNote => .flag table.canPublicNote
  | .mentionLimit => .limit table.mentionLimit
  | .canInvite => .flag table.canInvite
  | .inviteLimit => .limit table.inviteLimit
  | .inviteLimitCycle => .limit table.inviteLimitCycle
  | .inviteExpirationTime => .limit table.inviteExpirationTime
  | .canManageCustomEmojis => .flag table.canManageCustomEmojis
  | .canManageAvatarDecorations => .flag table.canManageAvatarDecorations
  | .canSearchNotes => .flag table.canSearchNotes
  | .canUseTranslator => .flag table.canUseTranslator
  | .canHideAds => .flag table.canHideAds
  | .driveCapacityMb => .limit table.driveCapacityMb
  | .alwaysMarkNsfw => .flag table.alwaysMarkNsfw
  | .pinLimit => .limit table.pinLimit
  | .antennaLimit => .limit table.antennaLimit
  | .wordMuteLimit => .limit table.wordMuteLimit
  | .webhookLimit => .limit table.webhookLimit
  | .clipLimit => .limit table.clipLimit
  | .noteEachClipsLimit => .limit table.noteEachClipsLimit
  | .userListLimit => .limit table.userListLimit
  | .userEachUserListsLimit => .limit table.userEachUserListsLimit
  | .rateLimitFactor => .factor table.rateLimitFactor
  | .avatarDecorationLimit => .limit table.avatarDecorationLimit

def writeFlag? (table : PolicyTable) : PolicyName → Option (Bool → PolicyTable)
  | .gtlAvailable => some fun b => { table with gtlAvailable := b }
  | .ltlAvailable => some fun b => { table with ltlAvailable := b }
  | .canPublicNote => some fun b => { table with canPublicNote := b }
  | .canInvite => some fun b => { table with canInvite := b }
  | .canManageCustomEmojis => some fun b => { table with canManageCustomEmojis := b }
  | .canManageAvatarDecorations => some fun b => { table with canManageAvatarDecorations := b }
  | .canSearchNotes => some fun b => { table with canSearchNotes := b }
  | .canUseTranslator => some fun b => { table with canUseTranslator := b }
  | .canHideAds => some fun b => { table with canHideAds := b }
  | .alwaysMarkNsfw => some fun b => { table with alwaysMarkNsfw := b }
  | _ => none

def writeLimit? (table : PolicyTable) : PolicyName → Option (Int64 → PolicyTable)
  | .mentionLimit => some fun i => { table with mentionLimit := i }
  | .inviteLimit => some fun i => { table with inviteLimit := i }
  | .inviteLimitCycle => some fun i => { table with inviteLimitCycle := i }
  | .inviteExpirationTime => some fun i => { table with inviteExpirationTime := i }
  | .driveCapacityMb => some fun i => { table with driveCapacityMb := i }
  | .pinLimit => some fun i => { table with pinLimit := i }
  | .antennaLimit => some fun i => { table with antennaLimit := i }
  | .wordMuteLimit => some fun i => { table with wordMuteLimit := i }
  | .webhookLimit => some fun i => { table with webhookLimit := i }
  | .clipLimit => some fun i => { table with clipLimit := i }
  | .noteEachClipsLimit => some fun i => { table with noteEachClipsLimit := i }
  | .userListLimit => some fun i => { table with userListLimit := i }
  | .userEachUserListsLimit => some fun i => { table with userEachUserListsLimit := i }
  | .avatarDecorationLimit => some fun i => { table with avatarDecorationLimit := i }
  | _ => none

/-- A value that is not of the kind of the policy is lost without a word, and so is one of a policy
that has nowhere to write it. -/
def store (table : PolicyTable) (n : PolicyName) (value : PolicyValue) : PolicyTable :=
  match n.kind with
  | .flag =>
    match value.asFlag?, table.writeFlag? n with
    | some b, some write => write b
    | _, _ => table
  | .limit =>
    match value.asLimit?, table.writeLimit? n with
    | some i, some write => write i
    | _, _ => table
  | .factor =>
    match value.asFactor? with
    | some x => { table with rateLimitFactor := x }
    | none => table

def set (n : PolicyName) (value : PolicyValue) : EStateM Fault PolicyTable Unit := do
  let fitted ← liftExcept (value.coerceFor n)
  modify fun table => table.store n fitted

def ofInstance (policies : InstancePolicies) : PolicyTable :=
  policies.toList.foldl (fun table (n, value) => table.store n value) default

def selected (entries : List PolicyOverride) : List PolicyOverride :=
  let high := entries.filter fun e => e.priority = .high
  let medium := entries.filter fun e => e.priority = .medium
  if !high.isEmpty then high else if !medium.isEmpty then medium else entries

def greatestLimit? : List Int64 → Option Int64
  | [] => none
  | i :: rest => some (rest.foldl max i)

def greatestFactor? : List Binary64 → Option Binary64
  | [] => none
  | x :: rest => some (rest.foldl Binary64.maximum x)

def merged (policy : PolicyName) (values : List PolicyValue) (base : PolicyValue) :
    PolicyValue :=
  match policy.combinator, policy.kind with
  | .anyGranted, _ => .flag (values.any fun v => v.asFlag? == some true)
  | .greatest, .factor =>
    ((greatestFactor? (values.filterMap (·.asFactor?))).map .factor).getD base
  | .greatest, _ => ((greatestLimit? (values.filterMap (·.asLimit?))).map .limit).getD base

def resolveOne (base : PolicyTable) (roles : List PolicyOverrides) (policy : PolicyName) :
    PolicyValue :=
  let entries := roles.map fun r => r.effective policy
  merged policy ((selected entries).map fun e => e.resolve (base.get policy)) (base.get policy)

def resolve (base : PolicyTable) (roles : List PolicyOverrides) : PolicyTable :=
  if roles.isEmpty then base
  else PolicyName.all.foldl (fun table n => table.store n (resolveOne base roles n)) base

end PolicyTable

end Entitlement
