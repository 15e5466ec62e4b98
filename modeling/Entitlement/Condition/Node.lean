import Entitlement.Condition.Basic

/-!
# Nodes of conditions

The written form of a condition has a variant for each kind of node. Conditions are made into
nodes and nodes into conditions by two tables, and the kind of a node is a third.
-/

set_option autoImplicit false

namespace Entitlement

inductive ConditionNode (α : Type) where
  | and (values : List α)
  | or (values : List α)
  | not (value : α)
  | roleAssignedTo (roleId : RoleId)
  | isLocal
  | isRemote
  | isBot
  | isSuspended
  | isCat
  | hasSecurityKey
  | hasTwoFactorAuth
  | hasEmailVerified
  | hasPasswordLessLogin
  | birthday
  | createdLessThan (sec : UInt64)
  | createdMoreThan (sec : UInt64)
  | userInfoUpdatedLessThan (sec : UInt64)
  | userInfoUpdatedMoreThan (sec : UInt64)
  | loginDaysLessThanOrEq (day : UInt64)
  | loginDaysMoreThanOrEq (day : UInt64)
  | driveUsageLessThanOrEq (usageSize : UInt64)
  | driveUsageMoreThanOrEq (usageSize : UInt64)
  | followersLessThanOrEq (count : UInt64)
  | followersMoreThanOrEq (count : UInt64)
  | followingLessThanOrEq (count : UInt64)
  | followingMoreThanOrEq (count : UInt64)
  | notesLessThanOrEq (count : UInt64)
  | notesMoreThanOrEq (count : UInt64)
  | reactionsLessThanOrEq (count : UInt64)
  | reactionsMoreThanOrEq (count : UInt64)
  | reactionsReceivedLessThanOrEq (count : UInt64)
  | reactionsReceivedMoreThanOrEq (count : UInt64)
  | renotesLessThanOrEq (count : UInt64)
  | renotesMoreThanOrEq (count : UInt64)
  | renotesReceivedLessThanOrEq (count : UInt64)
  | renotesReceivedMoreThanOrEq (count : UInt64)
  | repliesLessThanOrEq (count : UInt64)
  | repliesMoreThanOrEq (count : UInt64)
  | repliesReceivedLessThanOrEq (count : UInt64)
  | repliesReceivedMoreThanOrEq (count : UInt64)
  | votesLessThanOrEq (count : UInt64)
  | votesMoreThanOrEq (count : UInt64)
  | votesReceivedLessThanOrEq (count : UInt64)
  | votesReceivedMoreThanOrEq (count : UInt64)

namespace ConditionNode

def kind {α : Type} : ConditionNode α → String
  | .and _ => "and"
  | .or _ => "or"
  | .not _ => "not"
  | .roleAssignedTo _ => "roleAssignedTo"
  | .isLocal => "isLocal"
  | .isRemote => "isRemote"
  | .isBot => "isBot"
  | .isSuspended => "isSuspended"
  | .isCat => "isCat"
  | .hasSecurityKey => "hasSecurityKey"
  | .hasTwoFactorAuth => "hasTwoFactorAuth"
  | .hasEmailVerified => "hasEmailVerified"
  | .hasPasswordLessLogin => "hasPasswordLessLogin"
  | .birthday => "birthday"
  | .createdLessThan _ => "createdLessThan"
  | .createdMoreThan _ => "createdMoreThan"
  | .userInfoUpdatedLessThan _ => "userInfoUpdatedLessThan"
  | .userInfoUpdatedMoreThan _ => "userInfoUpdatedMoreThan"
  | .loginDaysLessThanOrEq _ => "loginDaysLessThanOrEq"
  | .loginDaysMoreThanOrEq _ => "loginDaysMoreThanOrEq"
  | .driveUsageLessThanOrEq _ => "driveUsageLessThanOrEq"
  | .driveUsageMoreThanOrEq _ => "driveUsageMoreThanOrEq"
  | .followersLessThanOrEq _ => "followersLessThanOrEq"
  | .followersMoreThanOrEq _ => "followersMoreThanOrEq"
  | .followingLessThanOrEq _ => "followingLessThanOrEq"
  | .followingMoreThanOrEq _ => "followingMoreThanOrEq"
  | .notesLessThanOrEq _ => "notesLessThanOrEq"
  | .notesMoreThanOrEq _ => "notesMoreThanOrEq"
  | .reactionsLessThanOrEq _ => "reactionsLessThanOrEq"
  | .reactionsMoreThanOrEq _ => "reactionsMoreThanOrEq"
  | .reactionsReceivedLessThanOrEq _ => "reactionsReceivedLessThanOrEq"
  | .reactionsReceivedMoreThanOrEq _ => "reactionsReceivedMoreThanOrEq"
  | .renotesLessThanOrEq _ => "renotesLessThanOrEq"
  | .renotesMoreThanOrEq _ => "renotesMoreThanOrEq"
  | .renotesReceivedLessThanOrEq _ => "renotesReceivedLessThanOrEq"
  | .renotesReceivedMoreThanOrEq _ => "renotesReceivedMoreThanOrEq"
  | .repliesLessThanOrEq _ => "repliesLessThanOrEq"
  | .repliesMoreThanOrEq _ => "repliesMoreThanOrEq"
  | .repliesReceivedLessThanOrEq _ => "repliesReceivedLessThanOrEq"
  | .repliesReceivedMoreThanOrEq _ => "repliesReceivedMoreThanOrEq"
  | .votesLessThanOrEq _ => "votesLessThanOrEq"
  | .votesMoreThanOrEq _ => "votesMoreThanOrEq"
  | .votesReceivedLessThanOrEq _ => "votesReceivedLessThanOrEq"
  | .votesReceivedMoreThanOrEq _ => "votesReceivedMoreThanOrEq"

def toCondition : ConditionNode Condition → Condition
  | .and values => .all values
  | .or values => .any values
  | .not value => .negation value
  | .roleAssignedTo roleId => .leaf (.roleAssignedTo roleId)
  | .isLocal => .leaf (.flag .isLocal)
  | .isRemote => .leaf (.flag .isRemote)
  | .isBot => .leaf (.flag .isBot)
  | .isSuspended => .leaf (.flag .isSuspended)
  | .isCat => .leaf (.flag .isCat)
  | .hasSecurityKey => .leaf (.flag .hasSecurityKey)
  | .hasTwoFactorAuth => .leaf (.flag .hasTwoFactorAuth)
  | .hasEmailVerified => .leaf (.flag .hasEmailVerified)
  | .hasPasswordLessLogin => .leaf (.flag .hasPasswordLessLogin)
  | .birthday => .leaf (.flag .birthday)
  | .createdLessThan sec => .leaf (.age .accountCreated .lessThan sec)
  | .createdMoreThan sec => .leaf (.age .accountCreated .moreThan sec)
  | .userInfoUpdatedLessThan sec => .leaf (.age .profileUpdated .lessThan sec)
  | .userInfoUpdatedMoreThan sec => .leaf (.age .profileUpdated .moreThan sec)
  | .loginDaysLessThanOrEq day => .leaf (.threshold .loginDays .lessThanOrEq day)
  | .loginDaysMoreThanOrEq day => .leaf (.threshold .loginDays .moreThanOrEq day)
  | .driveUsageLessThanOrEq usageSize => .leaf (.threshold .driveUsage .lessThanOrEq usageSize)
  | .driveUsageMoreThanOrEq usageSize => .leaf (.threshold .driveUsage .moreThanOrEq usageSize)
  | .followersLessThanOrEq count => .leaf (.threshold .followers .lessThanOrEq count)
  | .followersMoreThanOrEq count => .leaf (.threshold .followers .moreThanOrEq count)
  | .followingLessThanOrEq count => .leaf (.threshold .following .lessThanOrEq count)
  | .followingMoreThanOrEq count => .leaf (.threshold .following .moreThanOrEq count)
  | .notesLessThanOrEq count => .leaf (.threshold .notes .lessThanOrEq count)
  | .notesMoreThanOrEq count => .leaf (.threshold .notes .moreThanOrEq count)
  | .reactionsLessThanOrEq count => .leaf (.threshold .reactionsSent .lessThanOrEq count)
  | .reactionsMoreThanOrEq count => .leaf (.threshold .reactionsSent .moreThanOrEq count)
  | .reactionsReceivedLessThanOrEq count =>
    .leaf (.threshold .reactionsReceived .lessThanOrEq count)
  | .reactionsReceivedMoreThanOrEq count =>
    .leaf (.threshold .reactionsReceived .moreThanOrEq count)
  | .renotesLessThanOrEq count => .leaf (.threshold .renotesSent .lessThanOrEq count)
  | .renotesMoreThanOrEq count => .leaf (.threshold .renotesSent .moreThanOrEq count)
  | .renotesReceivedLessThanOrEq count => .leaf (.threshold .renotesReceived .lessThanOrEq count)
  | .renotesReceivedMoreThanOrEq count => .leaf (.threshold .renotesReceived .moreThanOrEq count)
  | .repliesLessThanOrEq count => .leaf (.threshold .repliesSent .lessThanOrEq count)
  | .repliesMoreThanOrEq count => .leaf (.threshold .repliesSent .moreThanOrEq count)
  | .repliesReceivedLessThanOrEq count => .leaf (.threshold .repliesReceived .lessThanOrEq count)
  | .repliesReceivedMoreThanOrEq count => .leaf (.threshold .repliesReceived .moreThanOrEq count)
  | .votesLessThanOrEq count => .leaf (.threshold .votesSent .lessThanOrEq count)
  | .votesMoreThanOrEq count => .leaf (.threshold .votesSent .moreThanOrEq count)
  | .votesReceivedLessThanOrEq count => .leaf (.threshold .votesReceived .lessThanOrEq count)
  | .votesReceivedMoreThanOrEq count => .leaf (.threshold .votesReceived .moreThanOrEq count)

end ConditionNode

def Predicate.toNode {α : Type} : Predicate → ConditionNode α
  | .roleAssignedTo roleId => .roleAssignedTo roleId
  | .flag .isLocal => .isLocal
  | .flag .isRemote => .isRemote
  | .flag .isBot => .isBot
  | .flag .isSuspended => .isSuspended
  | .flag .isCat => .isCat
  | .flag .hasSecurityKey => .hasSecurityKey
  | .flag .hasTwoFactorAuth => .hasTwoFactorAuth
  | .flag .hasEmailVerified => .hasEmailVerified
  | .flag .hasPasswordLessLogin => .hasPasswordLessLogin
  | .flag .birthday => .birthday
  | .age .accountCreated .lessThan sec => .createdLessThan sec
  | .age .accountCreated .moreThan sec => .createdMoreThan sec
  | .age .profileUpdated .lessThan sec => .userInfoUpdatedLessThan sec
  | .age .profileUpdated .moreThan sec => .userInfoUpdatedMoreThan sec
  | .threshold .loginDays .lessThanOrEq count => .loginDaysLessThanOrEq count
  | .threshold .loginDays .moreThanOrEq count => .loginDaysMoreThanOrEq count
  | .threshold .driveUsage .lessThanOrEq count => .driveUsageLessThanOrEq count
  | .threshold .driveUsage .moreThanOrEq count => .driveUsageMoreThanOrEq count
  | .threshold .followers .lessThanOrEq count => .followersLessThanOrEq count
  | .threshold .followers .moreThanOrEq count => .followersMoreThanOrEq count
  | .threshold .following .lessThanOrEq count => .followingLessThanOrEq count
  | .threshold .following .moreThanOrEq count => .followingMoreThanOrEq count
  | .threshold .notes .lessThanOrEq count => .notesLessThanOrEq count
  | .threshold .notes .moreThanOrEq count => .notesMoreThanOrEq count
  | .threshold .reactionsSent .lessThanOrEq count => .reactionsLessThanOrEq count
  | .threshold .reactionsSent .moreThanOrEq count => .reactionsMoreThanOrEq count
  | .threshold .reactionsReceived .lessThanOrEq count => .reactionsReceivedLessThanOrEq count
  | .threshold .reactionsReceived .moreThanOrEq count => .reactionsReceivedMoreThanOrEq count
  | .threshold .renotesSent .lessThanOrEq count => .renotesLessThanOrEq count
  | .threshold .renotesSent .moreThanOrEq count => .renotesMoreThanOrEq count
  | .threshold .renotesReceived .lessThanOrEq count => .renotesReceivedLessThanOrEq count
  | .threshold .renotesReceived .moreThanOrEq count => .renotesReceivedMoreThanOrEq count
  | .threshold .repliesSent .lessThanOrEq count => .repliesLessThanOrEq count
  | .threshold .repliesSent .moreThanOrEq count => .repliesMoreThanOrEq count
  | .threshold .repliesReceived .lessThanOrEq count => .repliesReceivedLessThanOrEq count
  | .threshold .repliesReceived .moreThanOrEq count => .repliesReceivedMoreThanOrEq count
  | .threshold .votesSent .lessThanOrEq count => .votesLessThanOrEq count
  | .threshold .votesSent .moreThanOrEq count => .votesMoreThanOrEq count
  | .threshold .votesReceived .lessThanOrEq count => .votesReceivedLessThanOrEq count
  | .threshold .votesReceived .moreThanOrEq count => .votesReceivedMoreThanOrEq count

namespace Condition

def toNode : Condition → ConditionNode Condition
  | .all values => .and values
  | .any values => .or values
  | .negation value => .not value
  | .leaf p => p.toNode

def kindText (c : Condition) : String := c.toNode.kind

end Condition

end Entitlement
