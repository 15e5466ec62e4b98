import Entitlement.Event

/-!
# The event feed in memory

Every subscription receives every event published after it was opened, in order. A
subscription that was dropped is forgotten at the next publication. When the feed
itself is gone, a subscription still hands out what is waiting.
-/

set_option autoImplicit false

namespace Entitlement

structure Subscription (κ : Type) where
  key : κ
  waiting : List RoleEvent
  isOpen : Bool

structure Feed (κ : Type) where
  subscriptions : List (Subscription κ)
  isGone : Bool

namespace Feed

variable {κ : Type} [DecidableEq κ]

def empty : Feed κ := ⟨[], false⟩

inductive Received where
  | event (event : RoleEvent)
  | nothing
  | closed
  deriving DecidableEq

def drop (feed : Feed κ) (key : κ) : Feed κ :=
  { feed with subscriptions := feed.subscriptions.map fun s =>
      if s.key = key then { s with isOpen := false } else s }

def isSubscribed (feed : Feed κ) (key : κ) : Bool :=
  feed.subscriptions.any fun s => s.key = key ∧ s.isOpen

def subscribe (feed : Feed κ) (key : κ) : Feed κ :=
  let feed := feed.drop key
  { feed with subscriptions := feed.subscriptions ++ [⟨key, [], true⟩] }

def publish (feed : Feed κ) (event : RoleEvent) : Feed κ :=
  { feed with subscriptions := (feed.subscriptions.filter (·.isOpen)).map fun s =>
      { s with waiting := s.waiting ++ [event] } }

def advance (feed : Feed κ) (key : κ) : Feed κ :=
  { feed with subscriptions := feed.subscriptions.map fun s =>
      if s.key = key ∧ s.isOpen then { s with waiting := s.waiting.tail } else s }

def waiting (feed : Feed κ) (key : κ) : List RoleEvent :=
  match feed.subscriptions.find? fun s => s.key = key ∧ s.isOpen with
  | some s => s.waiting
  | none => []

def receive (feed : Feed κ) (key : κ) : Option Received × Feed κ :=
  match feed.subscriptions.find? fun s => s.key = key ∧ s.isOpen with
  | none => (none, feed)
  | some s =>
    match s.waiting with
    | event :: _ => (some (.event event), feed.advance key)
    | [] => (some (if feed.isGone then .closed else .nothing), feed)

def shut (feed : Feed κ) : Feed κ := { feed with isGone := true }

end Feed

end Entitlement
