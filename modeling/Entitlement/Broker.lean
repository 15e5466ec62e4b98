import Entitlement.Event

/-!
# The message broker between processes

A broker hands each message on a channel to the connections that are subscribed to it.
Events travel as texts; a message that is no event is skipped. A connection whose
reader has gone is noticed, and closed, at the next event it is handed.
-/

set_option autoImplicit false

namespace Entitlement

structure Connection (κ : Type) where
  reader : Option κ
  channel : String
  waiting : List RoleEvent
  isOpen : Bool

namespace Connection

variable {κ : Type}

def listens (c : Connection κ) (channel : String) : Bool := c.isOpen && c.channel == channel

def accept (event : RoleEvent) (c : Connection κ) : Connection κ :=
  match c.reader with
  | some _ => { c with waiting := c.waiting ++ [event] }
  | none => { c with isOpen := false }

end Connection

inductive BrokerCommand where
  | publish
  | subscribe
  deriving DecidableEq, Repr

structure Broker (κ : Type) where
  connections : List (Connection κ)
  isReachable : Bool
  refused : List BrokerCommand

namespace Broker

variable {κ : Type} [DecidableEq κ]

def defaultChannel : String := "rolegate:role-events"

def empty : Broker κ := ⟨[], true, []⟩

def away : Broker κ := ⟨[], false, []⟩

def eventOf (text : String) : Option RoleEvent := (RoleEvent.ofText text).toOption

def push (b : Broker κ) (channel text : String) : Nat × Broker κ :=
  let count := (b.connections.filter fun c => c.listens channel).length
  match eventOf text with
  | none => (count, b)
  | some event =>
    let connections := b.connections.map fun c =>
      if c.listens channel then c.accept event else c
    (count, { b with connections })

def pushBytes (b : Broker κ) (channel : String) (payload : ByteArray) : Nat × Broker κ :=
  match String.fromUTF8? payload with
  | some text => b.push channel text
  | none => ((b.connections.filter fun c => c.listens channel).length, b)

def publish (b : Broker κ) (channel : String) (event : RoleEvent) : Except Fault (Broker κ) :=
  if !b.isReachable then .error .publicationUnreachable
  else if .publish ∈ b.refused then .error (.publicationRefused event.name channel)
  else .ok (b.push channel event.toText).2

def leave (b : Broker κ) (reader : κ) : Broker κ :=
  { b with connections := b.connections.map fun c =>
      if c.reader = some reader then { c with reader := none } else c }

def subscribe (b : Broker κ) (channel : String) (reader : κ) : Except Fault (Broker κ) :=
  if !b.isReachable then .error .subscriptionUnreachable
  else if .subscribe ∈ b.refused then .error (.subscriptionRefused channel)
  else
    let b := b.leave reader
    .ok { b with connections := b.connections ++ [⟨some reader, channel, [], true⟩] }

def drain (b : Broker κ) (reader : κ) : Option (List RoleEvent × Bool) × Broker κ :=
  match b.connections.find? fun c => c.reader = some reader with
  | none => (none, b)
  | some found =>
    let connections := b.connections.map fun c =>
      if c.reader = some reader then { c with waiting := [] } else c
    (some (found.waiting, found.isOpen), { b with connections })

def hangUp (b : Broker κ) : Broker κ :=
  { b with connections := b.connections.map fun c => { c with isOpen := false } }

def closeDeserted (b : Broker κ) : Broker κ :=
  { b with connections := b.connections.filter fun c => c.reader.isSome }

end Broker

end Entitlement
