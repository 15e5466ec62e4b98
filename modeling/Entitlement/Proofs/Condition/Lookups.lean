import Entitlement.Proofs.Condition.Meaning
import Entitlement.Proofs.Crowd.Request

/-!
# What an evaluation asks

An evaluation walks through the leaves of a condition from left to right, no further than
its value is open. For each leaf that it reaches it asks what the leaf needs and no more: the
profile unless a look-up has found it before, the keys of a user with two-factor
authentication, and the statistics that are not at hand. The answers may be anything, and
may change from call to call.
-/

set_option autoImplicit false

namespace Entitlement

namespace Procedure

variable {α β σ : Type} {log : List Exchange}

inductive Told : Procedure α → List Exchange → α → Prop
  | done (a : α) : Told (.done a) [] a
  | call {c : Call} {next : c.Answer → Procedure α} {r : c.Answer} {rest : List Exchange} {a : α}
      (goes : Told (next r) rest a) : Told (.call c next) (⟨c, r⟩ :: rest) a

def exchanges (answer : (c : Call) → σ → c.Answer × σ) : Procedure α → σ → List Exchange
  | .done _, _ => []
  | .call c next, x =>
    ⟨c, (answer c x).1⟩ :: (next (answer c x).1).exchanges answer (answer c x).2

theorem told_of_runOn (answer : (c : Call) → σ → c.Answer × σ) (p : Procedure α) (x : σ) :
    p.Told (p.exchanges answer x) (p.runOn answer x).1 := by
  induction p generalizing x with
  | done a => exact .done a
  | call c next ih => exact .call (ih _ _)

theorem Told.of_done {a b : α} (h : (Procedure.done a).Told log b) : log = [] ∧ b = a := by
  cases h
  exact ⟨rfl, rfl⟩

theorem Told.of_pair {a a' : α} {b b' : β} (h : (Procedure.done (a, b)).Told log (a', b')) :
    log = [] ∧ a' = a ∧ b' = b := by
  obtain ⟨rfl, e⟩ := h.of_done
  exact ⟨rfl, Prod.mk.inj e⟩

theorem Told.of_call {c : Call} {next : c.Answer → Procedure α} {a : α}
    (h : (Procedure.call c next).Told log a) :
    ∃ r rest, log = ⟨c, r⟩ :: rest ∧ (next r).Told rest a := by
  cases h with
  | call goes => exact ⟨_, _, rfl, goes⟩

theorem Told.of_bind {p : Procedure α} {f : α → Procedure β} {b : β}
    (h : (p >>= f).Told log b) :
    ∃ a first rest, p.Told first a ∧ (f a).Told rest b ∧ log = first ++ rest := by
  change (p.andThen f).Told log b at h
  induction p generalizing log with
  | done a => exact ⟨a, [], log, .done a, h, rfl⟩
  | call c next ih =>
    obtain ⟨r, rest, rfl, goes⟩ := h.of_call
    obtain ⟨a, first, last, hp, hf, rfl⟩ := ih r goes
    exact ⟨a, _ :: first, last, .call hp, hf, rfl⟩

end Procedure

open Procedure

def Exchange.profile? (user : UserId) : Exchange → Option (Option Profile)
  | ⟨.findProfile u, .ok found⟩ => if u = user then some found else none
  | _ => none

def profileFound? (user : UserId) (log : List Exchange) : Option (Option Profile) :=
  log.findSome? (·.profile? user)

def Statistics.Gives (st : Statistics) : Exchange → Prop
  | ⟨.findUser user, r⟩ => r = st.user user
  | ⟨.findProfile user, r⟩ => r = st.profile user
  | ⟨.countSecurityKeys user, r⟩ => r = st.securityKeys user
  | ⟨.measure user metric, r⟩ => r = st.measure user metric
  | _ => True

namespace Predicate

def needsProfile : Predicate → Bool
  | .flag .hasSecurityKey | .flag .hasTwoFactorAuth | .flag .hasEmailVerified
  | .flag .hasPasswordLessLogin | .flag .birthday | .threshold .loginDays _ _ => true
  | _ => false

def needsKeys (found : Option (Option Profile)) : Predicate → Bool
  | .flag .hasSecurityKey => match found with
    | some (some p) => p.twoFactorEnabled
    | _ => false
  | _ => false

def measured? : Predicate → Option UserMetric
  | .threshold .followers _ _ | .threshold .following _ _ | .threshold .notes _ _
  | .threshold .loginDays _ _ => none
  | .threshold metric _ _ => some metric
  | _ => none

end Predicate

structure Visit where
  predicate : Predicate
  value : Bool
  asked : List Exchange

structure Visit.Fits (s : Subject) (before : List Exchange) (v : Visit) : Prop where
  calls : v.asked.map (·.call) =
    (if v.predicate.needsProfile && (profileFound? s.user.id before).isNone
      then [.findProfile s.user.id] else []) ++
    (if v.predicate.needsKeys (profileFound? s.user.id (before ++ v.asked))
      then [.countSecurityKeys s.user.id] else []) ++
    v.predicate.measured?.toList.map (.measure s.user.id)
  value : ∀ st : Statistics,
    (∀ found, profileFound? s.user.id before = some found → st.profile s.user.id = .ok found) →
    (∀ e ∈ v.asked, st.Gives e) → (v.value = true ↔ v.predicate.Holds st s)

variable {s : Subject} {user : UserId} {before log : List Exchange} {memo memo' : ProfileMemo}
  {b : Bool} {p : Predicate}

theorem profileFound?_append : profileFound? user (before ++ log) =
    (profileFound? user before).or (profileFound? user log) :=
  List.findSome?_append

inductive Looked (user : UserId) : ProfileMemo → List Exchange → ProfileMemo → Prop
  | kept (known : Option Profile) : Looked user (some known) [] (some known)
  | found (found : Option Profile) :
      Looked user none [⟨.findProfile user, .ok found⟩] (some found)
  | failed (fault : Fault) : Looked user none [⟨.findProfile user, .error fault⟩] none

namespace Looked

theorem calls (h : Looked user memo log memo') :
    log.map (·.call) = if memo.isNone then [.findProfile user] else [] := by
  cases h <;> rfl

theorem memo_eq (h : Looked user (profileFound? user before) log memo') :
    memo' = profileFound? user (before ++ log) := by
  rw [profileFound?_append]
  generalize profileFound? user before = memo at h
  cases h with
  | kept known => rfl
  | found found => simp [profileFound?, Exchange.profile?]
  | failed fault => rfl

theorem ofProfile (h : Looked user memo log memo') {st : Statistics}
    (known : ∀ found, memo = some found → st.profile user = .ok found)
    (gives : ∀ e ∈ log, st.Gives e) (property : Profile → Prop) :
    st.OfProfile user property ↔ ∃ p, memo' = some (some p) ∧ property p := by
  cases h with
  | kept found => simp [Statistics.OfProfile, known found rfl]
  | found found =>
    have answered : .ok found = st.profile user := gives _ List.mem_cons_self
    simp [Statistics.OfProfile, ← answered]
  | failed fault =>
    have answered : .error fault = st.profile user := gives _ List.mem_cons_self
    simp [Statistics.OfProfile, ← answered]

end Looked

namespace Predicate

theorem profile_told {found : Option (Option Profile)}
    (h : (profile user memo).Told log (found, memo')) :
    found = memo' ∧ Looked user memo log memo' := by
  cases memo with
  | some known =>
    obtain ⟨rfl, rfl, rfl⟩ := h.of_pair
    exact ⟨rfl, .kept known⟩
  | none =>
    obtain ⟨r, rest, rfl, goes⟩ := h.of_call
    cases r with
    | ok found =>
      obtain ⟨rfl, rfl, rfl⟩ := goes.of_pair
      exact ⟨rfl, .found found⟩
    | error fault =>
      obtain ⟨rfl, rfl, rfl⟩ := goes.of_pair
      exact ⟨rfl, .failed fault⟩

/-- A leaf that looks at the profile goes on with it when there is one. -/
theorem onProfile_told {value : Profile → Procedure Bool}
    (h : (onProfile user memo value).Told log (b, memo')) : ∃ looked rest,
      log = looked ++ rest ∧ Looked user memo looked memo' ∧
      ((∃ p, memo' = some (some p) ∧ (value p).Told rest b) ∨
        ((∀ p, memo' ≠ some (some p)) ∧ rest = [] ∧ b = false)) := by
  obtain ⟨⟨found, memo''⟩, looked, rest, hprofile, hvalue, rfl⟩ := h.of_bind
  obtain ⟨rfl, hlooked⟩ := profile_told hprofile
  dsimp only at hvalue
  split at hvalue
  · obtain ⟨v, first, last, hv, hdone, rfl⟩ := hvalue.of_bind
    obtain ⟨rfl, rfl, rfl⟩ := hdone.of_pair
    exact ⟨looked, _, rfl, hlooked, .inl ⟨_, rfl, (List.append_nil first).symm ▸ hv⟩⟩
  · next none =>
    obtain ⟨rfl, rfl, rfl⟩ := hvalue.of_pair
    exact ⟨looked, _, rfl, hlooked, .inr ⟨none, rfl, rfl⟩⟩

theorem fits_at_hand {value : Bool} (needs : p.needsProfile = false)
    (keys : ∀ found, p.needsKeys found = false) (measured : p.measured? = none)
    (holds : ∀ st, value = true ↔ p.Holds st s)
    (h : (Procedure.done (value, profileFound? s.user.id before)).Told log (b, memo')) :
    Visit.Fits s before ⟨p, b, log⟩ ∧ memo' = profileFound? s.user.id (before ++ log) := by
  obtain ⟨rfl, rfl, rfl⟩ := h.of_pair
  have asked : Visit.Fits s before ⟨p, b, []⟩ :=
    ⟨by simp [needs, keys, measured], fun st _ _ => holds st⟩
  exact ⟨asked, by rw [List.append_nil]⟩

/-- A leaf that looks at the profile and may ask for more when there is one. -/
theorem fits_on_profile {looked rest : List Exchange} {property : Statistics → Profile → Prop}
    (needs : p.needsProfile = true) (measured : p.measured? = none)
    (holds : ∀ st, p.Holds st s ↔ st.OfProfile s.user.id (property st))
    (hlooked : Looked s.user.id (profileFound? s.user.id before) looked memo')
    (later : profileFound? s.user.id rest = none)
    (calls : rest.map (·.call) =
      if p.needsKeys memo' then [.countSecurityKeys s.user.id] else [])
    (value : ∀ st : Statistics, (∀ e ∈ rest, st.Gives e) →
      (b = true ↔ ∃ q, memo' = some (some q) ∧ property st q)) :
    Visit.Fits s before ⟨p, b, looked ++ rest⟩ ∧
      memo' = profileFound? s.user.id (before ++ (looked ++ rest)) := by
  have hmemo : memo' = profileFound? s.user.id (before ++ (looked ++ rest)) := by
    rw [← List.append_assoc, profileFound?_append, ← hlooked.memo_eq, later, Option.or_none]
  refine ⟨⟨?_, fun st known gives => ?_⟩, hmemo⟩
  · dsimp only
    rw [← hmemo, List.map_append, hlooked.calls, calls]
    simp [needs, measured]
  · rw [value st fun e he => gives e (List.mem_append_right _ he), holds,
      hlooked.ofProfile known fun e he => gives e (List.mem_append_left _ he)]

theorem fits_of_profile {read : Profile → Bool} (needs : p.needsProfile = true)
    (keys : ∀ found, p.needsKeys found = false) (measured : p.measured? = none)
    (holds : ∀ st, p.Holds st s ↔ st.OfProfile s.user.id fun q => read q = true)
    (h : (onProfile s.user.id (profileFound? s.user.id before) fun q => .done (read q)).Told log
      (b, memo')) :
    Visit.Fits s before ⟨p, b, log⟩ ∧ memo' = profileFound? s.user.id (before ++ log) := by
  obtain ⟨looked, rest, rfl, hlooked, hvalue⟩ := onProfile_told h
  have hrest : rest = [] ∧ (b = true ↔ ∃ q, memo' = some (some q) ∧ read q = true) := by
    rcases hvalue with ⟨q, rfl, hq⟩ | ⟨none, rfl, rfl⟩
    · obtain ⟨rfl, rfl⟩ := hq.of_done
      exact ⟨rfl, by simp⟩
    · exact ⟨rfl, by simp [none]⟩
  obtain ⟨rfl, hb⟩ := hrest
  exact fits_on_profile needs measured holds hlooked rfl (by simp [keys]) fun _ _ => hb

theorem hasKey_told {q : Profile} (h : (hasKey user q).Told log b) :
    (q.twoFactorEnabled = true ∧ ∃ r, log = [⟨.countSecurityKeys user, r⟩] ∧
      (b = true ↔ ∃ count, r = .ok count ∧ 0 < count)) ∨
    (q.twoFactorEnabled = false ∧ log = [] ∧ b = false) := by
  unfold hasKey at h
  split at h
  · next on =>
    obtain ⟨r, rest, rfl, goes⟩ := h.of_call
    cases r with
    | ok count =>
      obtain ⟨rfl, rfl⟩ := goes.of_done
      exact .inl ⟨on, _, rfl, by simp⟩
    | error fault =>
      obtain ⟨rfl, rfl⟩ := goes.of_done
      exact .inl ⟨on, _, rfl, by simp⟩
  · next off =>
    obtain ⟨rfl, rfl⟩ := h.of_done
    exact .inr ⟨by simpa using off, rfl, rfl⟩

/-- The keys are counted once the profile shows that they matter. -/
theorem fits_hasSecurityKey
    (h : (onProfile s.user.id (profileFound? s.user.id before) (hasKey s.user.id)).Told log
      (b, memo')) :
    Visit.Fits s before ⟨.flag .hasSecurityKey, b, log⟩ ∧
      memo' = profileFound? s.user.id (before ++ log) := by
  obtain ⟨looked, rest, rfl, hlooked, hvalue⟩ := onProfile_told h
  refine fits_on_profile rfl rfl (fun _ => Iff.rfl) hlooked ?_ ?_ ?_
  · rcases hvalue with ⟨q, -, hq⟩ | ⟨-, rfl, -⟩
    · rcases hasKey_told hq with ⟨-, r, rfl, -⟩ | ⟨-, rfl, -⟩ <;> rfl
    · rfl
  · rcases hvalue with ⟨q, rfl, hq⟩ | ⟨none, rfl, -⟩
    · rcases hasKey_told hq with ⟨on, r, rfl, -⟩ | ⟨off, rfl, -⟩
      · simp [needsKeys, on]
      · simp [needsKeys, off]
    · rcases memo' with _ | _ | q
      · rfl
      · rfl
      · exact absurd rfl (none q)
  · intro st gives
    rcases hvalue with ⟨q, rfl, hq⟩ | ⟨none, rfl, rfl⟩
    · rcases hasKey_told hq with ⟨on, r, rfl, hb⟩ | ⟨off, rfl, rfl⟩
      · have answered : r = st.securityKeys s.user.id := gives _ List.mem_cons_self
        simp [hb, on, answered]
      · simp [off]
    · simp [none]

theorem fits_measured {metric : UserMetric} {comparison : Comparison} {value : UInt64}
    (needs : needsProfile (.threshold metric comparison value) = false)
    (measured : measured? (.threshold metric comparison value) = some metric)
    (counts : ∀ st n, metric.Counts st s n ↔ st.measure s.user.id metric = .ok n)
    (h : (Procedure.call (.measure s.user.id metric) fun answer =>
      match answer with
      | .ok actual => .done (comparison.holds actual value, profileFound? s.user.id before)
      | .error _ => .done (false, profileFound? s.user.id before)).Told log (b, memo')) :
    Visit.Fits s before ⟨.threshold metric comparison value, b, log⟩ ∧
      memo' = profileFound? s.user.id (before ++ log) := by
  obtain ⟨r, rest, rfl, goes⟩ := h.of_call
  have hrest : rest = [] ∧ memo' = profileFound? s.user.id before ∧
      (b = true ↔ ∃ actual, r = .ok actual ∧ comparison.Allows actual value) := by
    cases r with
    | ok actual =>
      obtain ⟨rfl, rfl, rfl⟩ := goes.of_pair
      exact ⟨rfl, rfl, by simp [comparison_holds]⟩
    | error fault =>
      obtain ⟨rfl, rfl, rfl⟩ := goes.of_pair
      exact ⟨rfl, rfl, by simp⟩
  obtain ⟨rfl, rfl, hb⟩ := hrest
  refine ⟨⟨?_, fun st _ gives => ?_⟩, ?_⟩
  · simp [needs, measured, needsKeys]
  · have answered : r = st.measure s.user.id metric := gives _ List.mem_cons_self
    rw [hb, answered]
    exact exists_congr fun n => and_congr_left fun _ => (counts st n).symm
  · rw [profileFound?_append]
    exact (Option.or_none).symm

/-- Whatever a leaf asks and is told, its visit fits. -/
theorem evaluate_fits
    (h : (p.evaluate s (profileFound? s.user.id before)).Told log (b, memo')) :
    Visit.Fits s before ⟨p, b, log⟩ ∧ memo' = profileFound? s.user.id (before ++ log) := by
  cases p with
  | roleAssignedTo role => exact fits_at_hand rfl (fun _ => rfl) rfl (fun _ => by simp [Holds]) h
  | age subject bound seconds =>
    cases subject with
    | accountCreated =>
      exact fits_at_hand rfl (fun _ => rfl) rfl (fun _ => by
        simp [Holds, AgeSubject.since?, ageBound_holds]) h
    | profileUpdated =>
      unfold evaluate at h
      cases hu : s.user.updatedAt with
      | none =>
        rw [hu] at h
        exact fits_at_hand rfl (fun _ => rfl) rfl (fun _ => by
          simp [Holds, AgeSubject.since?, hu]) h
      | some t =>
        rw [hu] at h
        exact fits_at_hand rfl (fun _ => rfl) rfl (fun _ => by
          simp [Holds, AgeSubject.since?, hu, ageBound_holds]) h
  | flag f =>
    cases f with
    | isLocal => exact fits_at_hand rfl (fun _ => rfl) rfl (fun _ => by
        simp [Holds, UserFlag.Holds, User.isLocal]) h
    | isRemote => exact fits_at_hand rfl (fun _ => rfl) rfl (fun _ => by
        simp [Holds, UserFlag.Holds, User.isRemote, Option.isSome_iff_ne_none]) h
    | isBot => exact fits_at_hand rfl (fun _ => rfl) rfl (fun _ => Iff.rfl) h
    | isSuspended => exact fits_at_hand rfl (fun _ => rfl) rfl (fun _ => Iff.rfl) h
    | isCat => exact fits_at_hand rfl (fun _ => rfl) rfl (fun _ => Iff.rfl) h
    | hasSecurityKey => exact fits_hasSecurityKey h
    | hasTwoFactorAuth => exact fits_of_profile rfl (fun _ => rfl) rfl (fun _ => Iff.rfl) h
    | hasEmailVerified => exact fits_of_profile rfl (fun _ => rfl) rfl (fun _ => Iff.rfl) h
    | hasPasswordLessLogin => exact fits_of_profile rfl (fun _ => rfl) rfl (fun _ => Iff.rfl) h
    | birthday =>
      refine fits_of_profile rfl (fun _ => rfl) rfl (fun st => ?_) h
      simp only [Holds, UserFlag.Holds, isBirthday_iff]
  | threshold metric comparison value =>
    cases metric with
    | followers => exact fits_at_hand rfl (fun _ => rfl) rfl (fun _ => by
        simp [Holds, UserMetric.Counts, comparison_holds]) h
    | following => exact fits_at_hand rfl (fun _ => rfl) rfl (fun _ => by
        simp [Holds, UserMetric.Counts, comparison_holds]) h
    | notes => exact fits_at_hand rfl (fun _ => rfl) rfl (fun _ => by
        simp [Holds, UserMetric.Counts, comparison_holds]) h
    | loginDays =>
      refine fits_of_profile rfl (fun _ => rfl) rfl (fun st => ?_) h
      simp only [Holds, UserMetric.Counts, Statistics.OfProfile, comparison_holds, loginDays_eq]
      constructor
      · rintro ⟨_, ⟨q, hq, rfl⟩, allowed⟩
        exact ⟨q, hq, allowed⟩
      · rintro ⟨q, hq, allowed⟩
        exact ⟨_, ⟨q, hq, rfl⟩, allowed⟩
    | _ => exact fits_measured rfl rfl (fun _ _ => Iff.rfl) h

end Predicate

inductive Walk : Condition → List Visit → Bool → Prop
  | leaf (v : Visit) : Walk (.leaf v.predicate) [v] v.value
  | negation {c : Condition} {vs : List Visit} {b : Bool} (inner : Walk c vs b) :
      Walk (.negation c) vs (!b)
  | all_through : Walk (.all []) [] true
  | all_stop {c : Condition} {rest : List Condition} {vs : List Visit} (first : Walk c vs false) :
      Walk (.all (c :: rest)) vs false
  | all_on {c : Condition} {rest : List Condition} {vs ws : List Visit} {b : Bool}
      (first : Walk c vs true) (further : Walk (.all rest) ws b) :
      Walk (.all (c :: rest)) (vs ++ ws) b
  | any_through : Walk (.any []) [] false
  | any_stop {c : Condition} {rest : List Condition} {vs : List Visit} (first : Walk c vs true) :
      Walk (.any (c :: rest)) vs true
  | any_on {c : Condition} {rest : List Condition} {vs ws : List Visit} {b : Bool}
      (first : Walk c vs false) (further : Walk (.any rest) ws b) :
      Walk (.any (c :: rest)) (vs ++ ws) b

def Tour (s : Subject) : List Exchange → List Visit → Prop
  | _, [] => True
  | before, v :: rest => v.Fits s before ∧ Tour s (before ++ v.asked) rest

theorem tour_append {vs ws : List Visit} :
    Tour s before (vs ++ ws) ↔ Tour s before vs ∧ Tour s (before ++ vs.flatMap (·.asked)) ws := by
  induction vs generalizing before with
  | nil => simp [Tour]
  | cons v rest ih => simp [Tour, ih, and_assoc]

/-- How an evaluation gets from what was asked before to its value: by a walk on which every
visit fits, and with the profile kept if it was found. -/
structure Tours (s : Subject) (c : Condition) (before log : List Exchange) (b : Bool)
    (memo' : ProfileMemo) (visits : List Visit) : Prop where
  walk : Walk c visits b
  log_eq : log = visits.flatMap (·.asked)
  tour : Tour s before visits
  memo_eq : memo' = profileFound? s.user.id (before ++ log)

section

variable {c d : Condition} {first later : List Exchange} {b' : Bool} {vs ws : List Visit}

/-- A tour that goes on where another one has ended. -/
theorem Tours.onward (h : Tours s c before first b memo vs)
    (h' : Tours s d (before ++ first) later b' memo' ws) :
    first ++ later = (vs ++ ws).flatMap (·.asked) ∧ Tour s before (vs ++ ws) ∧
      memo' = profileFound? s.user.id (before ++ (first ++ later)) := by
  refine ⟨?_, tour_append.mpr ⟨h.tour, ?_⟩, ?_⟩
  · rw [List.flatMap_append, ← h.log_eq, ← h'.log_eq]
  · rw [← h.log_eq]
    exact h'.tour
  · rw [← List.append_assoc]
    exact h'.memo_eq

end

namespace Condition

mutual

theorem evaluateNode_tours (s : Subject) : ∀ (c : Condition) {before log : List Exchange}
    {b : Bool} {memo' : ProfileMemo},
    (evaluateNode s c (profileFound? s.user.id before)).Told log (b, memo') →
    ∃ visits, Tours s c before log b memo' visits
  | .all children, _, _, _, _, h => by
    unfold evaluateNode at h
    exact evaluateAll_tours s children h
  | .any children, _, _, _, _, h => by
    unfold evaluateNode at h
    exact evaluateAny_tours s children h
  | .negation child, _, _, _, _, h => by
    unfold evaluateNode at h
    obtain ⟨⟨b, memo⟩, first, rest, hchild, hdone, rfl⟩ := h.of_bind
    obtain ⟨rfl, rfl, rfl⟩ := hdone.of_pair
    obtain ⟨visits, tours⟩ := evaluateNode_tours s child hchild
    rw [List.append_nil]
    exact ⟨visits, .negation tours.walk, tours.log_eq, tours.tour, tours.memo_eq⟩
  | .leaf p, before, log, b, memo', h => by
    unfold evaluateNode at h
    obtain ⟨fits, hmemo⟩ := p.evaluate_fits h
    exact ⟨[⟨p, b, log⟩], .leaf ⟨p, b, log⟩, by simp, ⟨fits, trivial⟩, hmemo⟩

theorem evaluateAll_tours (s : Subject) : ∀ (cs : List Condition) {before log : List Exchange}
    {b : Bool} {memo' : ProfileMemo},
    (evaluateAll s cs (profileFound? s.user.id before)).Told log (b, memo') →
    ∃ visits, Tours s (.all cs) before log b memo' visits
  | [], before, _, _, _, h => by
    unfold evaluateAll at h
    obtain ⟨rfl, rfl, rfl⟩ := h.of_pair
    exact ⟨[], .all_through, rfl, trivial, by rw [List.append_nil]⟩
  | c :: cs, before, _, _, _, h => by
    unfold evaluateAll at h
    obtain ⟨⟨value, memo⟩, first, rest, hc, hrest, rfl⟩ := h.of_bind
    obtain ⟨visits, tours⟩ := evaluateNode_tours s c hc
    cases value with
    | false =>
      obtain ⟨rfl, rfl, rfl⟩ := Procedure.Told.of_pair hrest
      rw [List.append_nil]
      exact ⟨visits, .all_stop tours.walk, tours.log_eq, tours.tour, tours.memo_eq⟩
    | true =>
      obtain rfl := tours.memo_eq
      obtain ⟨later, onward⟩ := evaluateAll_tours s cs hrest
      obtain ⟨hlog, htour, hmemo⟩ := tours.onward onward
      exact ⟨visits ++ later, .all_on tours.walk onward.walk, hlog, htour, hmemo⟩

theorem evaluateAny_tours (s : Subject) : ∀ (cs : List Condition) {before log : List Exchange}
    {b : Bool} {memo' : ProfileMemo},
    (evaluateAny s cs (profileFound? s.user.id before)).Told log (b, memo') →
    ∃ visits, Tours s (.any cs) before log b memo' visits
  | [], before, _, _, _, h => by
    unfold evaluateAny at h
    obtain ⟨rfl, rfl, rfl⟩ := h.of_pair
    exact ⟨[], .any_through, rfl, trivial, by rw [List.append_nil]⟩
  | c :: cs, before, _, _, _, h => by
    unfold evaluateAny at h
    obtain ⟨⟨value, memo⟩, first, rest, hc, hrest, rfl⟩ := h.of_bind
    obtain ⟨visits, tours⟩ := evaluateNode_tours s c hc
    cases value with
    | true =>
      obtain ⟨rfl, rfl, rfl⟩ := Procedure.Told.of_pair hrest
      rw [List.append_nil]
      exact ⟨visits, .any_stop tours.walk, tours.log_eq, tours.tour, tours.memo_eq⟩
    | false =>
      obtain rfl := tours.memo_eq
      obtain ⟨later, onward⟩ := evaluateAny_tours s cs hrest
      obtain ⟨hlog, htour, hmemo⟩ := tours.onward onward
      exact ⟨visits ++ later, .any_on tours.walk onward.walk, hlog, htour, hmemo⟩

end

end Condition

/-- The profile is looked up first, and only as long as it was not found. -/
theorem Visit.Fits.of_lookup {v : Visit} (h : v.Fits s before) {e : Exchange}
    (he : e ∈ v.asked) (hcall : e.call = .findProfile s.user.id) :
    profileFound? s.user.id before = none := by
  have hmem : .findProfile s.user.id ∈ v.asked.map (·.call) := List.mem_map.mpr ⟨e, he, hcall⟩
  rw [h.calls] at hmem
  by_contra found
  simp [found] at hmem

theorem Visit.Fits.later_calls {v : Visit} (h : v.Fits s before) :
    v.asked.Pairwise fun _ f => f.call ≠ .findProfile s.user.id := by
  have hcalls : (v.asked.map (·.call)).Pairwise fun _ c => c ≠ .findProfile s.user.id := by
    rw [h.calls]
    split <;> split <;> cases v.predicate.measured? <;> simp
  exact List.pairwise_map.mp hcalls

theorem tour_lookup {visits : List Visit} (h : Tour s before visits) {e : Exchange}
    (he : e ∈ visits.flatMap (·.asked)) (hcall : e.call = .findProfile s.user.id) :
    profileFound? s.user.id before = none := by
  induction visits generalizing before with
  | nil => simp at he
  | cons v rest ih =>
    rw [List.flatMap_cons] at he
    rcases List.mem_append.mp he with he | he
    · exact h.1.of_lookup he hcall
    · have later := ih h.2 he
      rw [profileFound?_append, Option.or_eq_none_iff] at later
      exact later.1

/-- A profile that was found is never looked up again. -/
theorem tour_pairwise {visits : List Visit} (h : Tour s before visits) :
    (visits.flatMap (·.asked)).Pairwise fun e f =>
      (e.profile? s.user.id).isSome = true → f.call ≠ .findProfile s.user.id := by
  induction visits generalizing before with
  | nil => exact .nil
  | cons v rest ih =>
    rw [List.flatMap_cons, List.pairwise_append]
    have first : v.asked.Pairwise fun e f =>
        (e.profile? s.user.id).isSome = true → f.call ≠ .findProfile s.user.id := by
      refine h.1.later_calls.imp ?_
      intro e f hf _
      exact hf
    refine ⟨first, ih h.2, fun e he f hf found hcall => ?_⟩
    have missing := tour_lookup h.2 hf hcall
    rw [profileFound?_append, Option.or_eq_none_iff, profileFound?,
      profileFound?, List.findSome?_eq_none_iff, List.findSome?_eq_none_iff] at missing
    simp [missing.2 e he] at found

theorem Condition.evaluate_told {c : Condition} (h : (c.evaluate s).Told log b) :
    ∃ memo visits, Tours s c [] log b memo visits := by
  obtain ⟨⟨value, memo⟩, first, rest, hnode, hdone, rfl⟩ := h.of_bind
  obtain ⟨rfl, rfl⟩ := hdone.of_done
  change (evaluateNode s c (profileFound? s.user.id [])).Told first (b, memo) at hnode
  obtain ⟨visits, tours⟩ := evaluateNode_tours s c hnode
  rw [List.append_nil]
  exact ⟨memo, visits, tours⟩

/-- Whatever is answered, what an evaluation asks comes from the leaves on a walk through the
condition, in their order: each leaf asks what it needs after what was asked before, and once
the profile was found it is not looked up again. -/
theorem Condition.evaluate_asks {σ : Type} (answer : (c : Call) → σ → c.Answer × σ) (s : Subject)
    (c : Condition) (x : σ) :
    ∃ visits, Walk c visits ((c.evaluate s).runOn answer x).1 ∧
      (c.evaluate s).exchanges answer x = visits.flatMap (·.asked) ∧
      Tour s [] visits ∧
      ((c.evaluate s).exchanges answer x).Pairwise fun e f =>
        (e.profile? s.user.id).isSome = true → f.call ≠ .findProfile s.user.id := by
  obtain ⟨memo, visits, tours⟩ := evaluate_told (told_of_runOn answer (c.evaluate s) x)
  exact ⟨visits, tours.walk, tours.log_eq, tours.tour, tours.log_eq ▸ tour_pairwise tours.tour⟩

example :
    let user : User :=
      ⟨⟨.generated 0⟩, "u", none, false, false, false, false, default, none, 0, 0, 0⟩
    let c : Condition := .all [.negation (.leaf (.flag .hasTwoFactorAuth)),
      .leaf (.flag .hasTwoFactorAuth), .leaf (.flag .hasSecurityKey)]
    let answer : (c : Call) → Nat → c.Answer × Nat
      | .findProfile _, 0 => (.error .emptyBatch, 1)
      | .findProfile _, n => (.ok (some ⟨true, false, false, none, []⟩), n)
      | c, n => ((World.answer () c (.startingAt default 0)).1, n)
    ((c.evaluate ⟨user, [], default⟩).exchanges answer 0).map (·.call) =
      [.findProfile user.id, .findProfile user.id, .countSecurityKeys user.id] := by
  rfl

end Entitlement
