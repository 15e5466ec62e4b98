import Entitlement.Event

/-!
# The cache of one process

A cache holds a snapshot of all roles and, for each user it was asked about, the list
of the user's assignments, expired ones included. Both halves end after a lifetime and
are patched in place by events. A half counts the events applied to it: what was read
from the store while an event arrived is handed to its reader and not kept.
-/

set_option autoImplicit false

namespace Entitlement

abbrev Moment := Nat

def Moment.bound : Nat := 0x8000000000000000 * 1000000000

/-- The end of a lifetime that starts now. One that cannot be represented is over at once. -/
def Moment.deadline (now : Moment) (lifetime : Nat) : Moment :=
  if now + lifetime < Moment.bound then now + lifetime else now

structure Cached (α : Type) where
  value : α
  expiresAt : Moment
  deriving DecidableEq, Repr

def Cached.isFresh {α : Type} (c : Cached α) (now : Moment) : Bool := now < c.expiresAt

inductive Lookup (α : Type) where
  | fresh (value : α)
  | missing (version : Nat)
  deriving DecidableEq, Repr

structure Lifetimes where
  roles : Nat
  assignments : Nat
  deriving DecidableEq, Repr

def Lifetimes.default : Lifetimes := ⟨3600 * 1000000000, 3600 * 1000000000⟩

structure RoleSnapshot where
  entry : Option (Cached (List Role))
  version : Nat
  deriving DecidableEq

structure UserLists where
  entries : List (UserId × Cached (List Assignment))
  version : Nat
  deriving DecidableEq, Repr

namespace RoleSnapshot

def empty : RoleSnapshot := ⟨none, 0⟩

def freshValue? (s : RoleSnapshot) (now : Moment) : Option (List Role) :=
  match s.entry with
  | some c => if c.isFresh now then some c.value else none
  | none => none

def lookup (s : RoleSnapshot) (now : Moment) : Lookup (List Role) :=
  match s.freshValue? now with
  | some roles => .fresh roles
  | none => .missing s.version

/-- Takes in roles that were read at some version. A fresh snapshot that came in the
meantime goes first; roles read across an event are not kept. -/
def install (s : RoleSnapshot) (now : Moment) (lifetime version : Nat) (loaded : List Role) :
    List Role × RoleSnapshot :=
  match s.freshValue? now with
  | some roles => (roles, s)
  | none =>
    if s.version = version then
      (loaded, { s with entry := some ⟨loaded, Moment.deadline now lifetime⟩ })
    else (loaded, s)

def replaceOlder (role : Role) : List Role → List Role
  | [] => []
  | r :: rest =>
    if r.id = role.id then (if role.updatedAt < r.updatedAt then r else role) :: rest
    else r :: replaceOlder role rest

def patch : RoleEvent → List Role → List Role
  | .roleCreated role, roles =>
    if roles.any fun r => r.id = role.id then replaceOlder role roles else roles ++ [role]
  | .roleUpdated role, roles => replaceOlder role roles
  | .roleDeleted role, roles => roles.filter fun r => r.id ≠ role.id
  | _, roles => roles

def apply (event : RoleEvent) (s : RoleSnapshot) : RoleSnapshot :=
  ⟨s.entry.map fun c => { c with value := patch event c.value }, s.version + 1⟩

def clear (s : RoleSnapshot) : RoleSnapshot := ⟨none, s.version + 1⟩

def prune (s : RoleSnapshot) (now : Moment) : RoleSnapshot :=
  { s with entry := s.entry.filter fun c => c.isFresh now }

end RoleSnapshot

namespace UserLists

def empty : UserLists := ⟨[], 0⟩

def freshValue? (l : UserLists) (user : UserId) (now : Moment) : Option (List Assignment) :=
  match l.entries.lookup user with
  | some c => if c.isFresh now then some c.value else none
  | none => none

def lookup (l : UserLists) (user : UserId) (now : Moment) : Lookup (List Assignment) :=
  match l.freshValue? user now with
  | some rows => .fresh rows
  | none => .missing l.version

def put (user : UserId) (c : Cached (List Assignment)) :
    List (UserId × Cached (List Assignment)) → List (UserId × Cached (List Assignment))
  | [] => [(user, c)]
  | (u, d) :: rest => if u = user then (user, c) :: rest else (u, d) :: put user c rest

def install (l : UserLists) (user : UserId) (now : Moment) (lifetime version : Nat)
    (loaded : List Assignment) : List Assignment × UserLists :=
  match l.freshValue? user now with
  | some rows => (rows, l)
  | none =>
    if l.version = version then
      (loaded, { l with entries := put user ⟨loaded, Moment.deadline now lifetime⟩ l.entries })
    else (loaded, l)

def replaceSame (row : Assignment) : List Assignment → List Assignment
  | [] => []
  | a :: rest => if a.id = row.id then row :: rest else a :: replaceSame row rest

def patch : RoleEvent → List Assignment → List Assignment
  | .userRoleAssigned row, rows =>
    if rows.any fun a => a.id = row.id then replaceSame row rows
    else if rows.any fun a => a.roleId = row.roleId ∧ row.createdAt < a.createdAt then rows
    else rows.filter (fun a => a.roleId ≠ row.roleId) ++ [row]
  | .userRoleUnassigned row, rows => rows.filter fun a => a.id ≠ row.id
  | _, rows => rows

def apply (event : RoleEvent) (user : UserId) (l : UserLists) : UserLists :=
  ⟨l.entries.map fun (u, c) =>
      if u = user then (u, { c with value := patch event c.value }) else (u, c),
    l.version + 1⟩

def clear (l : UserLists) : UserLists := ⟨[], l.version + 1⟩

def prune (l : UserLists) (now : Moment) : UserLists :=
  { l with entries := l.entries.filter fun (_, c) => c.isFresh now }

end UserLists

structure Cache where
  roles : RoleSnapshot
  lists : UserLists
  deriving DecidableEq

namespace Cache

def empty : Cache := ⟨.empty, .empty⟩

instance : Inhabited Cache := ⟨empty⟩

def apply (event : RoleEvent) (c : Cache) : Cache :=
  match event with
  | .userRoleAssigned row => { c with lists := c.lists.apply event row.userId }
  | .userRoleUnassigned row => { c with lists := c.lists.apply event row.userId }
  | _ => { c with roles := c.roles.apply event }

def clear (c : Cache) : Cache := ⟨c.roles.clear, c.lists.clear⟩

def prune (c : Cache) (now : Moment) : Nat × Cache :=
  let lists := c.lists.prune now
  (c.lists.entries.length - lists.entries.length, ⟨c.roles.prune now, lists⟩)

end Cache

end Entitlement
