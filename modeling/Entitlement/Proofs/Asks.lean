import Entitlement.Service.Resolution

/-!
# What procedures ask for

A procedure keeps to a kind of calls if it makes no other call, whatever the answers.
Evaluating a condition only inquires about the user.
-/

set_option autoImplicit false

namespace Entitlement

def Call.IsInquiry : Call → Prop
  | .findUser _ | .findProfile _ | .countSecurityKeys _ | .measure _ _ => True
  | _ => False

namespace Procedure

variable {α β : Type} {P : Call → Prop}

inductive Asks (P : Call → Prop) : Procedure α → Prop
  | done (a : α) : Asks P (.done a)
  | call {c : Call} {next : c.Answer → Procedure α} (asked : P c) (rest : ∀ r, Asks P (next r)) :
      Asks P (.call c next)

theorem Asks.due {c : Call} {next : c.Answer → Procedure α} (h : Asks P (.call c next)) : P c := by
  cases h with
  | call asked _ => exact asked

theorem Asks.told {c : Call} {next : c.Answer → Procedure α} (h : Asks P (.call c next))
    (r : c.Answer) : Asks P (next r) := by
  cases h with
  | call _ rest => exact rest r

theorem Asks.andThen {p : Procedure α} {f : α → Procedure β} (hp : Asks P p)
    (hf : ∀ a, Asks P (f a)) : Asks P (p.andThen f) := by
  induction hp with
  | done a => exact hf a
  | call asked _ ih => exact .call asked ih

theorem Asks.bind {p : Procedure α} {f : α → Procedure β} (hp : Asks P p)
    (hf : ∀ a, Asks P (f a)) : Asks P (p >>= f) := hp.andThen hf

theorem Asks.mono {Q : Call → Prop} {p : Procedure α} (hp : Asks P p) (h : ∀ c, P c → Q c) :
    Asks Q p := by
  induction hp with
  | done a => exact .done a
  | call asked _ ih => exact .call (h _ asked) ih

end Procedure

open Procedure

namespace Predicate

theorem onProfile_inquires (user : UserId) (memo : ProfileMemo) {value : Profile → Procedure Bool}
    (h : ∀ p, Asks Call.IsInquiry (value p)) :
    Asks Call.IsInquiry (onProfile user memo value) := by
  refine .bind ?_ fun (found, memo) => ?_
  · cases memo with
    | some known => exact .done _
    | none =>
      apply Asks.call trivial
      intro answer
      cases answer <;> exact .done _
  · match found with
    | some (some p) => exact (h p).bind fun _ => .done _
    | some none => exact .done _
    | none => exact .done _

theorem hasKey_inquires (user : UserId) (p : Profile) : Asks Call.IsInquiry (hasKey user p) := by
  unfold hasKey
  split
  · apply Asks.call trivial
    intro answer
    cases answer <;> exact .done _
  · exact .done _

theorem evaluateFlag_inquires (s : Subject) (memo : ProfileMemo) (f : UserFlag) :
    Asks Call.IsInquiry (evaluateFlag s memo f) := by
  cases f with
  | hasSecurityKey => exact onProfile_inquires _ _ (hasKey_inquires _)
  | hasTwoFactorAuth => exact onProfile_inquires _ _ fun _ => .done _
  | hasEmailVerified => exact onProfile_inquires _ _ fun _ => .done _
  | hasPasswordLessLogin => exact onProfile_inquires _ _ fun _ => .done _
  | birthday => exact onProfile_inquires _ _ fun _ => .done _
  | _ => exact .done _

theorem evaluateThreshold_inquires (s : Subject) (memo : ProfileMemo) (metric : UserMetric)
    (holds : UInt64 → Bool) : Asks Call.IsInquiry (evaluateThreshold s memo metric holds) := by
  unfold evaluateThreshold
  split
  · exact .done _
  · exact .done _
  · exact .done _
  · exact onProfile_inquires _ _ fun _ => .done _
  · apply Asks.call trivial
    intro answer
    cases answer <;> exact .done _

theorem evaluate_inquires (s : Subject) (memo : ProfileMemo) (p : Predicate) :
    Asks Call.IsInquiry (evaluate s memo p) := by
  unfold evaluate
  split
  · exact .done _
  · exact evaluateFlag_inquires _ _ _
  · exact .done _
  · split <;> exact .done _
  · exact evaluateThreshold_inquires _ _ _ _

end Predicate

namespace Condition

mutual

theorem evaluateNode_inquires (s : Subject) : ∀ (c : Condition) (memo : ProfileMemo),
    Asks Call.IsInquiry (evaluateNode s c memo)
  | .all children, memo => by
    unfold evaluateNode
    exact evaluateAll_inquires s children memo
  | .any children, memo => by
    unfold evaluateNode
    exact evaluateAny_inquires s children memo
  | .negation child, memo => by
    unfold evaluateNode
    exact (evaluateNode_inquires s child memo).bind fun _ => .done _
  | .leaf p, memo => by
    unfold evaluateNode
    exact p.evaluate_inquires s memo

theorem evaluateAll_inquires (s : Subject) : ∀ (cs : List Condition) (memo : ProfileMemo),
    Asks Call.IsInquiry (evaluateAll s cs memo)
  | [], memo => by
    unfold evaluateAll
    exact .done _
  | c :: rest, memo => by
    unfold evaluateAll
    refine (evaluateNode_inquires s c memo).bind fun (value, memo) => ?_
    cases value with
    | true => exact evaluateAll_inquires s rest memo
    | false => exact .done _

theorem evaluateAny_inquires (s : Subject) : ∀ (cs : List Condition) (memo : ProfileMemo),
    Asks Call.IsInquiry (evaluateAny s cs memo)
  | [], memo => by
    unfold evaluateAny
    exact .done _
  | c :: rest, memo => by
    unfold evaluateAny
    refine (evaluateNode_inquires s c memo).bind fun (value, memo) => ?_
    cases value with
    | true => exact .done _
    | false => exact evaluateAny_inquires s rest memo

end

theorem evaluate_inquires (s : Subject) (c : Condition) :
    Asks Call.IsInquiry (c.evaluate s) :=
  (evaluateNode_inquires s c none).bind fun _ => .done _

end Condition

theorem Service.meeting_inquires (s : Subject) (candidates : List (Role × Condition)) :
    Asks Call.IsInquiry (Service.meeting s candidates) := by
  induction candidates with
  | nil => exact .done _
  | cons head rest ih =>
    obtain ⟨role, c⟩ := head
    unfold Service.meeting
    apply (c.evaluate_inquires s).bind
    intro met
    cases met with
    | true => exact ih.bind fun _ => .done _
    | false => exact ih

end Entitlement
