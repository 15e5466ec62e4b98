import Entitlement.Proofs.Sync.Queue

/-!
# Every open subscription is a queue of its own

Parties open and drop subscriptions, publish and receive, in any order. An open subscription
behaves as a queue that knows of nobody else: what was handed out of it and what still waits are
together the events published since it was opened, in their order. A publication reaches the open
subscriptions and forgets the others.
-/

set_option autoImplicit false

namespace Entitlement.Feed

variable {κ : Type}

inductive Act (κ : Type) where
  | subscribe (key : κ)
  | publish (event : RoleEvent)
  | receive (key : κ)
  | drop (key : κ)
  deriving DecidableEq

namespace Act

def Ends (key : κ) (act : Act κ) : Prop := act = .subscribe key ∨ act = .drop key

def Concerns (key : κ) : Act κ → Prop
  | .subscribe other | .receive other | .drop other => other = key
  | .publish _ => True

instance [DecidableEq κ] (key : κ) (act : Act κ) : Decidable (act.Ends key) :=
  inferInstanceAs (Decidable (_ ∨ _))

instance [DecidableEq κ] (key : κ) : DecidablePred (Concerns key)
  | .subscribe other | .receive other | .drop other => inferInstanceAs (Decidable (other = key))
  | .publish _ => .isTrue trivial

def event? : Act κ → Option RoleEvent
  | .publish event => some event
  | _ => none

end Act

def published (acts : List (Act κ)) : List RoleEvent := acts.filterMap (·.event?)

variable [DecidableEq κ]

def after : Act κ → Feed κ → Feed κ
  | .subscribe key, feed => feed.subscribe key
  | .publish event, feed => feed.publish event
  | .receive key, feed => (feed.receive key).2
  | .drop key, feed => feed.drop key

def run : List (Act κ) → Feed κ → Feed κ
  | [], feed => feed
  | act :: acts, feed => run acts (feed.after act)

def Received.event? : Received → Option RoleEvent
  | .event e => some e
  | _ => none

def handed? (key : κ) : Act κ → Feed κ → Option RoleEvent
  | .receive other, feed => if other = key then (feed.receive other).1.bind (·.event?) else none
  | _, _ => none

def received (key : κ) : List (Act κ) → Feed κ → List RoleEvent
  | [], _ => []
  | act :: acts, feed => (feed.handed? key act).toList ++ received key acts (feed.after act)

theorem run_append (acts rest : List (Act κ)) (feed : Feed κ) :
    run (acts ++ rest) feed = run rest (run acts feed) := by
  induction acts generalizing feed with
  | nil => rfl
  | cons act acts ih => exact ih _

def Act.onQueue (key : κ) : Act κ → List RoleEvent → Option RoleEvent × List RoleEvent
  | .publish event, queue => (none, queue ++ [event])
  | .receive other, queue => if other = key then (queue.head?, queue.tail) else (none, queue)
  | _, queue => (none, queue)

def onQueue (key : κ) : List (Act κ) → List RoleEvent → List RoleEvent × List RoleEvent
  | [], queue => ([], queue)
  | act :: acts, queue =>
    let (taken, rest) := act.onQueue key queue
    let (later, rest) := onQueue key acts rest
    (taken.toList ++ later, rest)

variable {key other : κ} {queue : List RoleEvent} {feed : Feed κ} {act : Act κ}
  {acts acts' : List (Act κ)}

theorem Act.onQueue_keeps (key : κ) (act : Act κ) (queue : List RoleEvent) :
    (act.onQueue key queue).1.toList ++ (act.onQueue key queue).2 =
      queue ++ act.event?.toList := by
  cases act with
  | receive other =>
    by_cases h : other = key
    · cases queue <;> simp [Act.onQueue, Act.event?, h]
    · simp [Act.onQueue, Act.event?, h]
  | _ => simp [Act.onQueue, Act.event?]

theorem onQueue_keeps (key : κ) (acts : List (Act κ)) (queue : List RoleEvent) :
    (onQueue key acts queue).1 ++ (onQueue key acts queue).2 = queue ++ published acts := by
  induction acts generalizing queue with
  | nil => simp [onQueue, published]
  | cons act acts ih =>
    have step := act.onQueue_keeps key queue
    have split : published (act :: acts) = act.event?.toList ++ published acts := by
      cases h : act.event? <;> simp [published, h]
    calc (onQueue key (act :: acts) queue).1 ++ (onQueue key (act :: acts) queue).2
        = (act.onQueue key queue).1.toList ++ ((act.onQueue key queue).2 ++ published acts) := by
          rw [← ih]
          simp [onQueue]
      _ = queue ++ published (act :: acts) := by
          rw [← List.append_assoc, step, List.append_assoc, split]

theorem Act.onQueue_of_not_concerns (h : ¬ act.Concerns key) (queue : List RoleEvent) :
    act.onQueue key queue = (none, queue) := by
  cases act with
  | publish event => exact absurd trivial h
  | receive other => exact if_neg h
  | _ => rfl

/-- Only publications and what is done at its key matter to a queue. -/
theorem onQueue_filter (key : κ) (acts : List (Act κ)) (queue : List RoleEvent) :
    onQueue key (acts.filter (·.Concerns key)) queue = onQueue key acts queue := by
  induction acts generalizing queue with
  | nil => rfl
  | cons act acts ih =>
    by_cases h : act.Concerns key
    · rw [List.filter_cons_of_pos (by simpa using h)]
      simp only [onQueue, ih]
    · rw [List.filter_cons_of_neg (by simpa using h), ih]
      simp [onQueue, Act.onQueue_of_not_concerns h]

theorem holds_drop_other (h : feed.Holds key queue) (hne : other ≠ key) :
    (feed.drop other).Holds key queue := by
  have hfilter : (feed.drop other).subscriptions.filter (fun s => s.key = key ∧ s.isOpen) =
      (feed.subscriptions.filter fun s => s.key = key ∧ s.isOpen).map fun s =>
        if s.key = other then { s with isOpen := false } else s := by
    simp only [drop, List.filter_map]
    refine congrArg (List.map _) (List.filter_congr fun s _ => ?_)
    simp only [Function.comp]
    split
    · next hs => simp [hs, hne]
    · rfl
  rw [Holds, hfilter, h]
  simp [hne.symm]

theorem holds_subscribe_other (h : feed.Holds key queue) (hne : other ≠ key) :
    (feed.subscribe other).Holds key queue := by
  have dropped := holds_drop_other h hne
  rw [Holds, subscribe]
  dsimp only
  rw [List.filter_append, dropped]
  simp [hne]

theorem holds_receive_other (h : feed.Holds key queue) (hne : other ≠ key) :
    (feed.receive other).2.Holds key queue := by
  unfold receive
  split
  · exact h
  · split
    · exact holds_advance_other h hne.symm
    · exact h

/-- The reader of a subscription is handed the first event that waits, which is taken off. -/
theorem holds_receive (h : feed.Holds key queue) :
    (feed.receive key).1.bind (·.event?) = queue.head? ∧
      (feed.receive key).2.Holds key queue.tail := by
  cases queue with
  | nil =>
    rw [receive, find_of_holds h]
    refine ⟨?_, h⟩
    cases feed.isGone <;> rfl
  | cons event queue =>
    rw [receive_cons h]
    exact ⟨rfl, holds_advance h⟩

/-- An act that does not end a subscription does to it what it does to a queue. -/
theorem holds_after (h : feed.Holds key queue) (stays : ¬ act.Ends key) :
    (feed.after act).Holds key (act.onQueue key queue).2 ∧
      feed.handed? key act = (act.onQueue key queue).1 := by
  cases act with
  | subscribe other =>
    have hne : other ≠ key := fun e => stays (.inl (congrArg Act.subscribe e))
    exact ⟨holds_subscribe_other h hne, rfl⟩
  | publish event => exact ⟨holds_publish h event, rfl⟩
  | drop other =>
    have hne : other ≠ key := fun e => stays (.inr (congrArg Act.drop e))
    exact ⟨holds_drop_other h hne, rfl⟩
  | receive other =>
    simp only [after, handed?, Act.onQueue]
    by_cases hkey : other = key
    · subst hkey
      simp only [if_true]
      exact (holds_receive h).symm
    · simp only [if_neg hkey]
      exact ⟨holds_receive_other h hkey, trivial⟩

/-- As long as it is open, a subscription goes the way of a queue. -/
theorem holds_run (h : feed.Holds key queue) (stays : ∀ act ∈ acts, ¬ act.Ends key) :
    (run acts feed).Holds key (onQueue key acts queue).2 ∧
      received key acts feed = (onQueue key acts queue).1 := by
  induction acts generalizing feed queue with
  | nil => exact ⟨h, rfl⟩
  | cons act acts ih =>
    obtain ⟨holds, handed⟩ := holds_after h (stays act List.mem_cons_self)
    obtain ⟨later, taken⟩ := ih holds fun a ha => stays a (List.mem_cons_of_mem _ ha)
    exact ⟨later, by rw [received, handed, taken]; rfl⟩

theorem isSubscribed_iff : feed.isSubscribed key = true ↔
    ∃ s ∈ feed.subscriptions, s.key = key ∧ s.isOpen = true := by
  simp [isSubscribed]

theorem isSubscribed_of_holds (h : feed.Holds key queue) : feed.isSubscribed key = true := by
  rw [isSubscribed_iff]
  exact ⟨_, List.mem_of_find?_eq_some (find_of_holds h), rfl, rfl⟩

theorem isSubscribed_drop (h : (feed.drop other).isSubscribed key = true) :
    other ≠ key ∧ feed.isSubscribed key = true := by
  rw [isSubscribed_iff] at h ⊢
  obtain ⟨s, hs, hkey, hopen⟩ := h
  obtain ⟨t, ht, rfl⟩ := List.mem_map.mp hs
  by_cases hother : t.key = other
  · simp [hother] at hopen
  · rw [if_neg hother] at hkey hopen
    exact ⟨fun e => hother (hkey.trans e.symm), t, ht, hkey, hopen⟩

theorem isSubscribed_advance (h : (feed.advance other).isSubscribed key = true) :
    feed.isSubscribed key = true := by
  rw [isSubscribed_iff] at h ⊢
  obtain ⟨s, hs, hkey, hopen⟩ := h
  obtain ⟨t, ht, rfl⟩ := List.mem_map.mp hs
  have same : ∀ u : Subscription κ,
      u = (if t.key = other ∧ t.isOpen then { t with waiting := t.waiting.tail } else t) →
      u.key = t.key ∧ u.isOpen = t.isOpen := by
    rintro u rfl
    split <;> exact ⟨rfl, rfl⟩
  obtain ⟨key_eq, open_eq⟩ := same _ rfl
  exact ⟨t, ht, key_eq ▸ hkey, open_eq ▸ hopen⟩

omit [DecidableEq κ] in
theorem isOpen_of_mem_publish {event : RoleEvent} {s : Subscription κ}
    (h : s ∈ (feed.publish event).subscriptions) : s.isOpen = true := by
  obtain ⟨t, ht, rfl⟩ := List.mem_map.mp h
  exact (List.mem_filter.mp ht).2

theorem isSubscribed_publish {event : RoleEvent}
    (h : (feed.publish event).isSubscribed key = true) : feed.isSubscribed key = true := by
  rw [isSubscribed_iff] at h ⊢
  obtain ⟨s, hs, hkey, -⟩ := h
  obtain ⟨t, ht, rfl⟩ := List.mem_map.mp hs
  obtain ⟨ht, hopen⟩ := List.mem_filter.mp ht
  exact ⟨t, ht, hkey, hopen⟩

/-- A subscription that is open after an act was opened by it, or was open before and goes on. -/
theorem isSubscribed_after (h : (feed.after act).isSubscribed key = true) :
    act = .subscribe key ∨ feed.isSubscribed key = true ∧ ¬ act.Ends key := by
  cases act with
  | subscribe other =>
    by_cases hkey : other = key
    · exact .inl (congrArg Act.subscribe hkey)
    · rw [isSubscribed_iff] at h
      obtain ⟨s, hs, hs', hopen⟩ := h
      have old : s ∈ (feed.drop other).subscriptions := by
        rcases List.mem_append.mp hs with hs | hs
        · exact hs
        · obtain rfl := List.mem_singleton.mp hs
          exact absurd hs' hkey
      have kept : (feed.drop other).isSubscribed key = true := by
        rw [isSubscribed_iff]
        exact ⟨s, old, hs', hopen⟩
      exact .inr ⟨(isSubscribed_drop kept).2, by simp [Act.Ends, hkey]⟩
  | publish event => exact .inr ⟨isSubscribed_publish h, by simp [Act.Ends]⟩
  | receive other =>
    refine .inr ⟨?_, by simp [Act.Ends]⟩
    change (feed.receive other).2.isSubscribed key = true at h
    unfold receive at h
    split at h
    · exact h
    · split at h
      · exact isSubscribed_advance h
      · exact h
  | drop other =>
    obtain ⟨hkey, h⟩ := isSubscribed_drop h
    exact .inr ⟨h, by simp [Act.Ends, hkey]⟩

structure OpenSince (key : κ) (before since acts : List (Act κ)) : Prop where
  acts_eq : acts = before ++ .subscribe key :: since
  stays : ∀ act ∈ since, ¬ act.Ends key

theorem open_or_openSince (acts : List (Act κ)) (feed : Feed κ)
    (h : (run acts feed).isSubscribed key = true) :
    (feed.isSubscribed key = true ∧ ∀ act ∈ acts, ¬ act.Ends key) ∨
      ∃ before since, OpenSince key before since acts := by
  induction acts generalizing feed with
  | nil => exact .inl ⟨h, by simp⟩
  | cons act acts ih =>
    rcases ih (feed.after act) h with ⟨open_after, stays⟩ | ⟨before, since, rfl, stays⟩
    · rcases isSubscribed_after open_after with rfl | ⟨open_before, keeps⟩
      · exact .inr ⟨[], acts, rfl, stays⟩
      · exact .inl ⟨open_before, List.forall_mem_cons.mpr ⟨keeps, stays⟩⟩
    · exact .inr ⟨act :: before, since, rfl, stays⟩

/-- A subscription goes its way as an empty queue would from the moment it is opened. -/
theorem OpenSince.holds {before since : List (Act κ)} (h : OpenSince key before since acts)
    (feed : Feed κ) :
    (run acts feed).Holds key (onQueue key since []).2 ∧
      received key since ((run before feed).subscribe key) = (onQueue key since []).1 := by
  obtain ⟨rfl, stays⟩ := h
  rw [run_append]
  show (run since ((run before feed).subscribe key)).Holds key _ ∧ _
  exact holds_run (holds_subscribe _ key) stays

/-- Whatever parties do with a new feed, in whatever order: a subscription that is open was handed
the events published since it was opened, in their order and each once, except those that
still wait for it. This would be so, with the same events handed out, if others had opened,
dropped and read their subscriptions differently. A publication succeeds, and none of the subscriptions
that were dropped before it is kept. -/
theorem open_subscriptions_keep (acts : List (Act κ)) :
    (∀ key, (run acts .empty).isSubscribed key = true ↔
      ∃ before since, OpenSince key before since acts) ∧
    (∀ key before since, OpenSince key before since acts →
      received key since ((run before .empty).subscribe key) ++ (run acts .empty).waiting key =
        published since ∧
      ∀ before' since' acts', OpenSince key before' since' acts' →
        since'.filter (·.Concerns key) = since.filter (·.Concerns key) →
        received key since' ((run before' .empty).subscribe key) =
            received key since ((run before .empty).subscribe key) ∧
          (run acts' .empty).waiting key = (run acts .empty).waiting key) ∧
    ∀ event, (∀ s ∈ (run (acts ++ [.publish event]) .empty).subscriptions, s.isOpen = true) ∧
      ∀ (w : World κ) (sender : κ), w.feed = run acts .empty →
        (World.serve sender (.publish event) w).1 = .ok () ∧
        (World.serve sender (.publish event) w).2.feed = run (acts ++ [.publish event]) .empty := by
  refine ⟨fun key => ⟨fun h => ?_, ?_⟩, fun key before since h => ⟨?_, ?_⟩,
    fun event => ⟨fun s hs => ?_, fun w sender hw => ⟨rfl, ?_⟩⟩⟩
  · exact (open_or_openSince acts .empty h).resolve_left fun h => by simp [isSubscribed, empty] at h
  · rintro ⟨before, since, h⟩
    exact isSubscribed_of_holds (h.holds .empty).1
  · obtain ⟨holds, handed⟩ := h.holds .empty
    rw [handed, waiting_of_holds holds, onQueue_keeps, List.nil_append]
  · intro before' since' acts' h' same
    obtain ⟨holds, handed⟩ := h.holds .empty
    obtain ⟨holds', handed'⟩ := h'.holds .empty
    rw [handed, handed', waiting_of_holds holds, waiting_of_holds holds', ← onQueue_filter, same,
      onQueue_filter]
    exact ⟨rfl, rfl⟩
  · rw [run_append] at hs
    exact isOpen_of_mem_publish hs
  · rw [run_append, ← hw]
    rfl

/-- The first of three subscriptions is handed one of two events. The second is dropped between them
and forgotten, the third opened between them; without these the first is handed the same. -/
theorem open_subscriptions_keep_among_three :
    let row (n : Nat) : RoleEvent :=
      .userRoleAssigned ⟨⟨.generated n⟩, ⟨.generated 0⟩, ⟨.generated n⟩, none, default⟩
    let alone : List (Act Nat) := [.publish (row 1), .receive 1, .publish (row 2)]
    let since : List (Act Nat) := [.subscribe 2, .publish (row 1), .drop 2, .receive 1,
      .subscribe 3, .publish (row 2), .receive 3]
    let feed := run (.subscribe 1 :: since) .empty
    let w : World Nat := { World.startingAt default 0 with feed }
    OpenSince 1 [] since (.subscribe 1 :: since) ∧
      (feed.isSubscribed 1 = true ∧ feed.isSubscribed 2 = false) ∧
      received 1 since (Feed.empty.subscribe 1) = [row 1] ∧ feed.waiting 1 = [row 2] ∧
      (run (.subscribe 1 :: alone) .empty).waiting 1 = [row 2] ∧
      (World.serve 0 (.publish (row 3)) w).1 = .ok () ∧
      (World.serve 0 (.publish (row 3)) w).2.feed.subscriptions.map (·.key) = [1, 3] := by
  intro row alone since feed w
  have opened : OpenSince 1 [] since (.subscribe 1 :: since) := ⟨rfl, by decide⟩
  have opened' : OpenSince 1 [] alone (.subscribe 1 :: alone) := ⟨rfl, by decide⟩
  obtain ⟨goesOn, keeps, publishes⟩ := open_subscriptions_keep (.subscribe 1 :: since)
  obtain ⟨ok, next⟩ := (publishes (row 3)).2 w 0 rfl
  obtain ⟨complete, unmoved⟩ := keeps 1 [] since opened
  have handed : received 1 since (Feed.empty.subscribe 1) = [row 1] := by decide
  have waits : feed.waiting 1 = [row 2] := by
    change received 1 since (Feed.empty.subscribe 1) ++ feed.waiting 1 = [row 1, row 2] at complete
    rw [handed] at complete
    exact List.append_cancel_left complete
  exact ⟨opened, ⟨(goesOn 1).mpr ⟨[], since, opened⟩, by decide⟩, handed, waits,
    (unmoved [] alone _ opened' rfl).2.trans waits, ok, by rw [next]; decide⟩

end Entitlement.Feed
