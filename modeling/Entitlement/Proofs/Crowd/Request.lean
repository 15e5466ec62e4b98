import Mathlib.Data.List.Basic
import Entitlement.World

/-!
# Requests and what they were told

Everything that can be asked of a service, and what a running request remembers: each call
that it made with the answer it got, the latest first.
-/

set_option autoImplicit false

namespace Entitlement

inductive Request where
  | createRole (draft : RoleDraft) (actor : Option Actor)
  | updateRole (id : RoleId) (edit : RoleEdit) (actor : Option Actor)
  | deleteRole (id : RoleId) (actor : Option Actor)
  | assign (user : UserId) (role : RoleId) (expiresAt : Option Instant) (actor : Option Actor)
  | unassign (user : UserId) (role : RoleId) (actor : Option Actor)
  | sweep (batchSize rounds : Nat)
  | cachedRoles
  | cachedAssignments (user : UserId)
  | userRoles (user : UserId)
  | badgeRoles (user : UserId)
  | userAssignments (user : UserId)
  | userPolicies (user : Option UserId)
  | basePolicies
  | isModerator (actor : Option Actor)
  | isAdministrator (actor : Option Actor)
  | isExplorable (role : RoleId)
  | moderatorIds (both : Bool)
  | administratorIds
  | startSync
  | pruneCache
  | clearCache

namespace Request

@[reducible] def Value : Request → Type
  | .createRole _ _ | .updateRole _ _ _ => Role
  | .assign _ _ _ _ => Assignment
  | .deleteRole _ _ | .unassign _ _ _ | .startSync | .clearCache => Unit
  | .sweep _ _ | .pruneCache => Nat
  | .cachedRoles | .userRoles _ | .badgeRoles _ => List Role
  | .cachedAssignments _ | .userAssignments _ => List Assignment
  | .userPolicies _ | .basePolicies => PolicyTable
  | .isModerator _ | .isAdministrator _ | .isExplorable _ => Bool
  | .moderatorIds _ | .administratorIds => List UserId

def service : (q : Request) → Service q.Value
  | .createRole draft actor => Service.createRole draft actor
  | .updateRole id edit actor => Service.updateRole id edit actor
  | .deleteRole id actor => Service.deleteRole id actor
  | .assign user role expiresAt actor => Service.assign user role expiresAt actor
  | .unassign user role actor => Service.unassign user role actor
  | .sweep batchSize rounds => Service.sweep batchSize rounds
  | .cachedRoles => Service.cachedRoles
  | .cachedAssignments user => Service.cachedAssignments user
  | .userRoles user => Service.userRoles user
  | .badgeRoles user => Service.badgeRoles user
  | .userAssignments user => Service.userAssignments user
  | .userPolicies user => Service.userPolicies user
  | .basePolicies => Service.basePolicies
  | .isModerator actor => Service.isModerator actor
  | .isAdministrator actor => Service.isAdministrator actor
  | .isExplorable role => Service.isExplorable role
  | .moderatorIds both => Service.moderatorIds both
  | .administratorIds => Service.administratorIds
  | .startSync => Service.startSync
  | .pruneCache => Service.ofProcedure Service.pruneCache
  | .clearCache => Service.ofProcedure Service.clearCache

end Request

structure Exchange where
  call : Call
  answer : call.Answer

namespace Exchange

def reading? : Exchange → Option Instant
  | ⟨.now, time⟩ => some time
  | _ => none

def inserted? : Exchange → Option Assignment
  | ⟨.insertAssignment a, .ok ()⟩ => some a
  | _ => none

def written? : Exchange → Option Role
  | ⟨.updateRole role, .ok ()⟩ => some role
  | _ => none

def applied? : Exchange → Option Role
  | ⟨.applyEvent (.roleUpdated role), _⟩ => some role
  | _ => none

def published? : Exchange → Option RoleEvent
  | ⟨.publish event, .ok ()⟩ => some event
  | _ => none

def entry? : Exchange → Option ModerationEntry
  | ⟨.record entry, _⟩ => some entry
  | _ => none

def fault? : Exchange → Option Fault
  | ⟨.findRole _, .error fault⟩ => some fault
  | ⟨.findAssignment _ _, .error fault⟩ => some fault
  | ⟨.insertAssignment _, .error fault⟩ => some fault
  | ⟨.deleteAssignment _, .error fault⟩ => some fault
  | ⟨.publish _, .error fault⟩ => some fault
  | _ => none

end Exchange

abbrev Log := List Exchange

namespace Log

def readings (log : Log) : List Instant := log.filterMap Exchange.reading?

def inserted (log : Log) : List Assignment := log.filterMap Exchange.inserted?

def written (log : Log) : List Role := log.filterMap Exchange.written?

def applied (log : Log) : List Role := log.filterMap Exchange.applied?

def published (log : Log) : List RoleEvent := log.filterMap Exchange.published?

def entries (log : Log) : List ModerationEntry := log.filterMap Exchange.entry?

def Began (log : Log) (time : Instant) : Prop := log.readings.getLast? = some time

variable {log log' : Log} {time : Instant} {a : Assignment}

theorem mem_inserted : a ∈ log.inserted ↔ ⟨.insertAssignment a, .ok ()⟩ ∈ log := by
  refine ⟨fun h => ?_, fun h => List.mem_filterMap.mpr ⟨_, h, rfl⟩⟩
  obtain ⟨x, hx, e⟩ := List.mem_filterMap.mp h
  unfold Exchange.inserted? at e
  split at e
  · exact Option.some.inj e ▸ hx
  · simp at e

theorem mem_published {event : RoleEvent} (h : event ∈ log.published) :
    ⟨.publish event, .ok ()⟩ ∈ log := by
  obtain ⟨x, hx, e⟩ := List.mem_filterMap.mp h
  unfold Exchange.published? at e
  split at e
  · exact Option.some.inj e ▸ hx
  · simp at e

theorem mem_entries {entry : ModerationEntry} (h : entry ∈ log.entries) :
    ∃ r, ⟨.record entry, r⟩ ∈ log := by
  obtain ⟨x, hx, e⟩ := List.mem_filterMap.mp h
  unfold Exchange.entry? at e
  split at e
  · exact ⟨_, Option.some.inj e ▸ hx⟩
  · simp at e

theorem Began.mono (h : Began log time) (hlog : log <:+ log') : Began log' time := by
  obtain ⟨later, rfl⟩ := hlog
  unfold Began readings at *
  rw [List.filterMap_append, List.getLast?_append, h]
  rfl

/-- A first reading was the first before, or there was none before. -/
theorem Began.of_cons {x : Exchange} (h : Began (x :: log) time) :
    Began log time ∨ (log.readings = [] ∧ x.reading? = some time) := by
  have hcons : readings (x :: log) = x.reading?.toList ++ log.readings := by
    rw [readings, List.filterMap_cons]
    cases x.reading? <;> rfl
  rw [Began, hcons, List.getLast?_append] at h
  rcases hlog : log.readings with _ | ⟨t, rest⟩
  · refine .inr ⟨rfl, ?_⟩
    rw [hlog] at h
    cases hx : x.reading? with
    | none => simp [hx] at h
    | some u => simpa [hx] using h
  · refine .inl ?_
    rw [hlog] at h
    rw [Began, hlog]
    simpa using h

theorem began_now : Began [⟨.now, time⟩] time := rfl

end Log

end Entitlement
