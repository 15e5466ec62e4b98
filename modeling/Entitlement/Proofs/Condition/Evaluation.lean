import Entitlement.Proofs.Alone.Transparency
import Entitlement.Proofs.Condition.Lookups

/-!
# Evaluation gives the meaning

Where each question has a fixed answer, an evaluation comes out true exactly for the conditions
that hold. What was asked before and the order of children make no difference: a profile that
was found once is the one that any later look-up would find, and a look-up that fails counts
against its own leaf only.
-/

set_option autoImplicit false

namespace Entitlement

structure Statistics.Answered {σ : Type} (st : Statistics) (answer : (c : Call) → σ → c.Answer × σ)
    (states : σ → Prop) : Prop where
  user : ∀ x, states x → ∀ user, (answer (.findUser user) x).1 = st.user user
  profile : ∀ x, states x → ∀ user, (answer (.findProfile user) x).1 = st.profile user
  securityKeys : ∀ x, states x → ∀ user,
    (answer (.countSecurityKeys user) x).1 = st.securityKeys user
  measure : ∀ x, states x → ∀ user metric,
    (answer (.measure user metric) x).1 = st.measure user metric
  stays : ∀ x, states x → ∀ c : Call, c.IsInquiry → states (answer c x).2

namespace World

variable {κ : Type} [DecidableEq κ]

def statistics (k : κ) (w : World κ) : Statistics where
  user user := (answer k (.findUser user) w).1
  profile user := (answer k (.findProfile user) w).1
  securityKeys user := (answer k (.countSecurityKeys user) w).1
  measure user metric := (answer k (.measure user metric) w).1

theorem statistics_answered (k : κ) (w : World κ) :
    (w.statistics k).Answered (answer k) (SameOutside w) where
  user _ h user := (answer_inquiry_alike (c := .findUser user) trivial h).1.symm
  profile _ h user := (answer_inquiry_alike (c := .findProfile user) trivial h).1.symm
  securityKeys _ h user := (answer_inquiry_alike (c := .countSecurityKeys user) trivial h).1.symm
  measure _ h user metric := (answer_inquiry_alike (c := .measure user metric) trivial h).1.symm
  stays x h c hc := by
    obtain ⟨effects, e, -⟩ := answer_inquiry (k := k) (w := x) hc
    rw [e]
    exact ⟨h.store, h.people, h.instancePolicies, h.now, h.failing⟩

end World

variable {α σ : Type} {st : Statistics} {answer : (c : Call) → σ → c.Answer × σ}
  {states : σ → Prop} {s : Subject} {x : σ}

theorem Statistics.Answered.gives (h : st.Answered answer states) {c : Call} (hx : states x) :
    c.IsInquiry → st.Gives ⟨c, (answer c x).1⟩ := by
  intro hc
  cases c <;> first
    | exact hc.elim
    | exact h.user x hx _
    | exact h.profile x hx _
    | exact h.securityKeys x hx _
    | exact h.measure x hx _ _

/-- A procedure that only inquires is told what the statistics say. -/
theorem Statistics.Answered.exchanges (h : st.Answered answer states) {p : Procedure α}
    (hp : p.Asks Call.IsInquiry) (hx : states x) :
    (∀ e ∈ p.exchanges answer x, st.Gives e) ∧ states (p.runOn answer x).2 := by
  induction hp generalizing x with
  | done a => exact ⟨fun e he => by simp [Procedure.exchanges] at he, hx⟩
  | @call c next asked _ ih =>
    obtain ⟨given, stays⟩ := ih (answer c x).1 (h.stays x hx c asked)
    refine ⟨fun e he => ?_, stays⟩
    rcases List.mem_cons.mp he with rfl | he
    · exact h.gives hx asked
    · exact given e he

/-- A walk on which every leaf has its value by the statistics comes to that of the tree. -/
theorem Walk.holds {c : Condition} {visits : List Visit} {b : Bool} (walk : Walk c visits b)
    (values : ∀ v ∈ visits, v.value = true ↔ v.predicate.Holds st s) :
    b = true ↔ c.Holds st s := by
  induction walk with
  | leaf v => simpa using values v List.mem_cons_self
  | negation _ ih => simp [← ih values]
  | all_through => simp
  | all_stop _ ih => simp [← ih values]
  | all_on _ _ first further =>
    have hc := first fun v hv => values v (List.mem_append_left _ hv)
    have hrest := further fun v hv => values v (List.mem_append_right _ hv)
    rw [hrest]
    simp [← hc]
  | any_through => simp
  | any_stop _ ih => simp [← ih values]
  | any_on _ _ first further =>
    have hc := first fun v hv => values v (List.mem_append_left _ hv)
    have hrest := further fun v hv => values v (List.mem_append_right _ hv)
    rw [hrest]
    simp [← hc]

theorem profileFound?_given {user : UserId} {log : List Exchange} {found : Option Profile}
    (h : profileFound? user log = some found) (given : ∀ e ∈ log, st.Gives e) :
    st.profile user = .ok found := by
  obtain ⟨e, he, hfound⟩ := List.exists_of_findSome?_eq_some h
  unfold Exchange.profile? at hfound
  split at hfound
  · next u f =>
    simp only [Option.ite_none_right_eq_some, Option.some.injEq] at hfound
    obtain ⟨rfl, rfl⟩ := hfound
    exact (given _ he).symm
  · simp at hfound

theorem Tour.values {before : List Exchange} {visits : List Visit} (tour : Tour s before visits)
    (given : ∀ e ∈ before ++ visits.flatMap (·.asked), st.Gives e) :
    ∀ v ∈ visits, v.value = true ↔ v.predicate.Holds st s := by
  induction visits generalizing before with
  | nil => simp
  | cons v rest ih =>
    rw [List.flatMap_cons, ← List.append_assoc] at given
    intro u hu
    rcases List.mem_cons.mp hu with rfl | hu
    · refine tour.1.value st (fun found hfound => ?_) fun e he => given e (by simp [he])
      exact profileFound?_given hfound fun e he => given e (by simp [he])
    · exact ih tour.2 given u hu

namespace Condition

/-- A node is evaluated to its meaning after any questions that the statistics have answered,
and leaves behind such questions. -/
theorem evaluateNode_value (answers : st.Answered answer states) (hx : states x) (c : Condition)
    (before : List Exchange) (given : ∀ e ∈ before, st.Gives e) :
    (((evaluateNode s c (profileFound? s.user.id before)).runOn answer x).1.1 = true ↔
      c.Holds st s) ∧
    (∃ after, (∀ e ∈ after, st.Gives e) ∧
      ((evaluateNode s c (profileFound? s.user.id before)).runOn answer x).1.2 =
        profileFound? s.user.id after) ∧
    states ((evaluateNode s c (profileFound? s.user.id before)).runOn answer x).2 := by
  have told := Procedure.told_of_runOn answer
    (evaluateNode s c (profileFound? s.user.id before)) x
  obtain ⟨asked, stays⟩ := answers.exchanges (evaluateNode_inquires s c _) hx
  generalize (evaluateNode s c (profileFound? s.user.id before)).exchanges answer x = log
    at told asked
  obtain ⟨visits, tours⟩ := evaluateNode_tours s c told
  have all : ∀ e ∈ before ++ log, st.Gives e := fun e he =>
    (List.mem_append.mp he).elim (given e) (asked e)
  exact ⟨tours.walk.holds (tours.tour.values (tours.log_eq ▸ all)),
    ⟨before ++ log, all, tours.memo_eq⟩, stays⟩

theorem runOn_evaluate (c : Condition) : ((c.evaluate s).runOn answer x).1 =
    ((evaluateNode s c none).runOn answer x).1.1 :=
  congrArg Prod.fst (Procedure.runOn_andThen answer (evaluateNode s c none) _ x)

theorem evaluate_value (answers : st.Answered answer states) (hx : states x) (c : Condition) :
    ((c.evaluate s).runOn answer x).1 = true ↔ c.Holds st s := by
  rw [runOn_evaluate]
  exact (evaluateNode_value answers hx c [] (by simp)).1

/-- Evaluation gives the meaning of a condition. It does not depend on the order of the children
of any node, nor on what another condition `d` has looked up before. -/
theorem evaluate_iff_holds (answers : st.Answered answer states) (hx : states x) (s : Subject)
    (c : Condition) :
    (((c.evaluate s).runOn answer x).1 = true ↔ c.Holds st s) ∧
    (∀ d, c.Rearranged d →
      ((d.evaluate s).runOn answer x).1 = ((c.evaluate s).runOn answer x).1) ∧
    ∀ d value memo y, (evaluateNode s d none).runOn answer x = ((value, memo), y) →
      ((evaluateNode s c memo).runOn answer y).1.1 = ((c.evaluate s).runOn answer x).1 := by
  have hc := evaluate_value (s := s) answers hx c
  refine ⟨hc, fun d same => ?_, fun d value memo y hd => ?_⟩
  · rw [Bool.eq_iff_iff, hc, evaluate_value answers hx d]
    exact same.holds.symm
  · obtain ⟨-, ⟨after, given, hmemo⟩, stays⟩ :=
      evaluateNode_value (s := s) answers hx d [] (by simp)
    change (((evaluateNode s d none).runOn answer x).1.2 = _) at hmemo
    change states ((evaluateNode s d none).runOn answer x).2 at stays
    rw [hd] at hmemo stays
    obtain rfl : memo = profileFound? s.user.id after := hmemo
    rw [Bool.eq_iff_iff, hc]
    exact (evaluateNode_value answers stays c after given).1

/-- The profile cannot be had, which makes its own leaf false and the negation of it true. -/
theorem evaluate_iff_holds_failing :
    let user : User :=
      ⟨⟨.generated 0⟩, "u", none, false, false, false, false, default, none, 0, 0, 0⟩
    let s : Subject := ⟨user, [], default⟩
    let w : World Unit := { World.startingAt default 0 with failing := [.findProfile] }
    let unproved : Condition := .negation (.leaf (.flag .hasTwoFactorAuth))
    let c : Condition := .all [unproved, .leaf (.flag .isLocal)]
    let d : Condition := .all [.leaf (.flag .isLocal), unproved]
    ((w.statistics ()).Answered (World.answer ()) (World.SameOutside w) ∧ World.SameOutside w w) ∧
      (w.statistics ()).profile user.id = .error (.outage "stats.profile") ∧
      c.Holds (w.statistics ()) s ∧
      ((d.evaluate s).runOn (World.answer ()) w).1 = true := by
  intro user s w unproved c d
  have answers := World.statistics_answered () w
  have same : World.SameOutside w w := ⟨rfl, rfl, rfl, rfl, rfl⟩
  obtain ⟨meaning, order, -⟩ := evaluate_iff_holds answers same s c
  have value : ((c.evaluate s).runOn (World.answer ()) w).1 = true := by rfl
  exact ⟨⟨answers, same⟩, by rfl, meaning.mp value,
    (order d (.all (.swap _ _ _))).trans value⟩

end Condition

end Entitlement
