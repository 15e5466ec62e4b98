import Mathlib.Data.List.Basic
import Entitlement.World

/-!
# The queue of a subscriber

A party that subscribed once has one queue. Every event published goes to its end, and a
delivery takes the first event off and applies it; what others do to their queues does
not matter.
-/

set_option autoImplicit false

namespace Entitlement

namespace Feed

variable {κ : Type} [DecidableEq κ] {feed : Feed κ} {key other : κ} {queue : List RoleEvent}
  {event : RoleEvent}

def Holds (feed : Feed κ) (key : κ) (queue : List RoleEvent) : Prop :=
  feed.subscriptions.filter (fun s => s.key = key ∧ s.isOpen) = [⟨key, queue, true⟩]

theorem holds_subscribe (feed : Feed κ) (key : κ) : (feed.subscribe key).Holds key [] := by
  have hnone : (feed.drop key).subscriptions.filter (fun s => s.key = key ∧ s.isOpen) = [] := by
    simp only [drop, List.filter_eq_nil_iff, List.mem_map]
    rintro s ⟨t, -, rfl⟩
    split
    · simp
    · next hne => simp [hne]
  simp only [Holds, subscribe, List.filter_append, hnone]
  simp

theorem holds_publish (h : feed.Holds key queue) (event : RoleEvent) :
    (feed.publish event).Holds key (queue ++ [event]) := by
  have hfilter : (feed.subscriptions.filter (·.isOpen)).filter
      (fun s => s.key = key ∧ s.isOpen) = [⟨key, queue, true⟩] := by
    rw [List.filter_filter, ← h]
    apply List.filter_congr
    intro s _
    cases s.isOpen <;> simp
  simp only [Holds, publish, List.filter_map]
  exact congrArg (List.map _) hfilter

theorem find_of_holds (h : feed.Holds key queue) :
    feed.subscriptions.find? (fun s => s.key = key ∧ s.isOpen) = some ⟨key, queue, true⟩ := by
  rw [← List.head?_filter, h]
  rfl

theorem waiting_of_holds (h : feed.Holds key queue) : feed.waiting key = queue := by
  rw [waiting, find_of_holds h]

theorem receive_cons (h : feed.Holds key (event :: queue)) :
    feed.receive key = (some (.event event), feed.advance key) := by
  rw [receive, find_of_holds h]

theorem receive_nil (h : feed.Holds key []) (e : RoleEvent) :
    (feed.receive key).1 ≠ some (.event e) := by
  rw [receive, find_of_holds h]
  cases feed.isGone <;> simp

theorem filter_advance (feed : Feed κ) (key other : κ) :
    (feed.advance other).subscriptions.filter (fun s => s.key = key ∧ s.isOpen) =
      (feed.subscriptions.filter (fun s => s.key = key ∧ s.isOpen)).map fun s =>
        if s.key = other ∧ s.isOpen then { s with waiting := s.waiting.tail } else s := by
  simp only [advance, List.filter_map]
  refine congrArg (List.map _) (List.filter_congr fun s _ => ?_)
  simp only [Function.comp]
  split <;> rfl

theorem holds_advance (h : feed.Holds key (event :: queue)) :
    (feed.advance key).Holds key queue := by
  rw [Holds, filter_advance, h]
  simp

theorem holds_advance_other (h : feed.Holds key queue) (hne : key ≠ other) :
    (feed.advance other).Holds key queue := by
  rw [Holds, filter_advance, h]
  simp [hne]

theorem receive_cases (feed : Feed κ) (key : κ) :
    (∃ e, feed.receive key = (some (.event e), feed.advance key)) ∨
      ∀ e, (feed.receive key).1 ≠ some (.event e) := by
  unfold receive
  split
  · exact .inr fun e => by simp
  · split
    · exact .inl ⟨_, rfl⟩
    · exact .inr fun e => by split <;> simp

end Feed

namespace World

variable {κ : Type} [DecidableEq κ] {w : World κ} {party : κ} {queue : List RoleEvent}
  {event : RoleEvent}

theorem deliverNext_of_receive {e : RoleEvent} {feed : Feed κ}
    (h : w.feed.receive party = (some (.event e), feed)) :
    w.deliverNext party = { w.setCache party ((w.caches party).apply e) with feed } := by
  rw [deliverNext, h]

theorem deliverNext_of_none (h : ∀ e, (w.feed.receive party).1 ≠ some (.event e)) :
    w.deliverNext party = w := by
  unfold deliverNext
  split
  · next e feed he => exact absurd (congrArg Prod.fst he) (h e)
  · rfl

theorem deliverNext_cons (h : w.feed.Holds party (event :: queue)) :
    w.deliverNext party = { w.setCache party ((w.caches party).apply event) with
      feed := w.feed.advance party } :=
  deliverNext_of_receive (Feed.receive_cons h)

theorem deliverNext_nil (h : w.feed.Holds party []) : w.deliverNext party = w :=
  deliverNext_of_none (Feed.receive_nil h)

theorem deliverNext_cases (w : World κ) (party : κ) : w.deliverNext party = w ∨
    ∃ e, w.deliverNext party = { w.setCache party ((w.caches party).apply e) with
      feed := w.feed.advance party } := by
  rcases w.feed.receive_cases party with ⟨e, h⟩ | h
  · exact .inr ⟨e, deliverNext_of_receive h⟩
  · exact .inl (deliverNext_of_none h)

end World

end Entitlement
