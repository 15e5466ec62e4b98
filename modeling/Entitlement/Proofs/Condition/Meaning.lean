import Mathlib.Data.Finset.Dedup
import Mathlib.Data.Finset.Card
import Entitlement.Condition.Evaluation

/-!
# What conditions mean

The statistics of users are a fixed function of the question, which may fail. A condition
holds or does not hold by them: its leaves say something of the user, of the profile where
there is one, or of a number that can be had, and above the leaves stand conjunction,
disjunction and negation. Neither the order of children nor that of the assigned roles
plays a part.
-/

set_option autoImplicit false

namespace Entitlement

structure Statistics where
  user : UserId → Except Fault (Option User)
  profile : UserId → Except Fault (Option Profile)
  securityKeys : UserId → Except Fault UInt64
  measure : UserId → UserMetric → Except Fault UInt64

def Statistics.OfProfile (st : Statistics) (user : UserId) (property : Profile → Prop) : Prop :=
  ∃ p, st.profile user = .ok (some p) ∧ property p

def Profile.IsBirthday (p : Profile) (today : Date) : Prop :=
  ∃ birthday, p.birthday = some birthday ∧
    birthday.civil.month = today.civil.month ∧ birthday.civil.day = today.civil.day

def UserFlag.Holds (st : Statistics) (s : Subject) : UserFlag → Prop
  | .isLocal => s.user.host = none
  | .isRemote => s.user.host ≠ none
  | .isBot => s.user.isBot = true
  | .isSuspended => s.user.isSuspended = true
  | .isCat => s.user.isCat = true
  | .hasSecurityKey => st.OfProfile s.user.id fun p => p.twoFactorEnabled = true ∧
      ∃ count, st.securityKeys s.user.id = .ok count ∧ 0 < count
  | .hasTwoFactorAuth => st.OfProfile s.user.id fun p => p.twoFactorEnabled = true
  | .hasEmailVerified => st.OfProfile s.user.id fun p => p.emailVerified = true
  | .hasPasswordLessLogin => st.OfProfile s.user.id fun p => p.usePasswordLessLogin = true
  | .birthday => st.OfProfile s.user.id fun p => p.IsBirthday s.now.date

def AgeSubject.since? (user : User) : AgeSubject → Option Instant
  | .accountCreated => some user.createdAt
  | .profileUpdated => user.updatedAt

def AgeBound.Allows (bound : AgeBound) (since now : Instant) (seconds : UInt64) : Prop :=
  match bound with
  | .lessThan => (since.nanosUntil now).tdiv 1000000 < seconds.toNat * 1000
  | .moreThan => seconds.toNat * 1000 < (since.nanosUntil now).tdiv 1000000

def UserMetric.Counts (st : Statistics) (s : Subject) : UserMetric → UInt64 → Prop
  | .followers, n => n = s.user.followersCount
  | .following, n => n = s.user.followingCount
  | .notes, n => n = s.user.notesCount
  | .loginDays, n =>
    st.OfProfile s.user.id fun p => n = UInt64.ofNat p.loggedInDates.toFinset.card
  | metric, n => st.measure s.user.id metric = .ok n

def Comparison.Allows (actual threshold : UInt64) : Comparison → Prop
  | .lessThanOrEq => actual ≤ threshold
  | .moreThanOrEq => threshold ≤ actual

def Predicate.Holds (st : Statistics) (s : Subject) : Predicate → Prop
  | .roleAssignedTo role => role ∈ s.roles
  | .flag f => f.Holds st s
  | .age subject bound seconds =>
    ∃ since, subject.since? s.user = some since ∧ bound.Allows since s.now seconds
  | .threshold metric comparison value =>
    ∃ actual, metric.Counts st s actual ∧ comparison.Allows actual value

theorem comparison_holds {comparison : Comparison} {actual threshold : UInt64} :
    comparison.holds actual threshold = true ↔ comparison.Allows actual threshold := by
  cases comparison <;> simp [Comparison.holds, Comparison.Allows]

theorem ageBound_holds {bound : AgeBound} {since now : Instant} {seconds : UInt64} :
    bound.holds since now seconds = true ↔ bound.Allows since now seconds := by
  cases bound <;> exact decide_eq_true_iff

theorem isBirthday_iff {p : Profile} {today : Date} :
    p.isBirthday today = true ↔ p.IsBirthday today := by
  cases h : p.birthday <;> simp [Profile.isBirthday, Profile.IsBirthday, h, Date.sameDayOfYear]

theorem nodup_eraseDups {α : Type} [DecidableEq α] : ∀ l : List α, l.eraseDups.Nodup
  | [] => .nil
  | a :: l => by
    rw [List.eraseDups_cons]
    exact List.nodup_cons.mpr ⟨by simp, nodup_eraseDups _⟩
termination_by l => l.length
decreasing_by exact Nat.lt_succ_of_le (List.length_filter_le _ _)

theorem loginDays_eq (p : Profile) :
    p.loginDays = UInt64.ofNat p.loggedInDates.toFinset.card := by
  rw [Profile.loginDays, ← List.toFinset_card_of_nodup (nodup_eraseDups _)]
  congr 2
  ext d
  simp

namespace Condition

def Holds (st : Statistics) (s : Subject) : Condition → Prop
  | .all children => ∀ c, ∀ _ : c ∈ children, c.Holds st s
  | .any children => ∃ c, ∃ _ : c ∈ children, c.Holds st s
  | .negation child => ¬ child.Holds st s
  | .leaf p => p.Holds st s

variable {st : Statistics} {s t : Subject} {c d : Condition} {children : List Condition}

@[simp] theorem holds_all : (all children).Holds st s ↔ ∀ c ∈ children, c.Holds st s := by
  rw [Holds]

@[simp] theorem holds_any : (any children).Holds st s ↔ ∃ c ∈ children, c.Holds st s := by
  rw [Holds]
  simp only [exists_prop]

@[simp] theorem holds_negation : (negation c).Holds st s ↔ ¬ c.Holds st s := by
  rw [Holds]

@[simp] theorem holds_leaf {p : Predicate} : (leaf p).Holds st s ↔ p.Holds st s := by
  rw [Holds]

theorem holds_congr {st' : Statistics} (h : ∀ p : Predicate, p.Holds st s ↔ p.Holds st' t)
    (c : Condition) : c.Holds st s ↔ c.Holds st' t := by
  induction c using Holds.induct with
  | case1 children ih =>
    rw [holds_all, holds_all]
    exact forall₂_congr fun c hc => ih c hc
  | case2 children ih =>
    rw [holds_any, holds_any]
    exact exists_congr fun c => and_congr_right fun hc => ih c hc
  | case3 child ih => rw [holds_negation, holds_negation, ih]
  | case4 p => rw [holds_leaf, holds_leaf, h p]

inductive Rearranged : Condition → Condition → Prop
  | refl (c : Condition) : Rearranged c c
  | all {cs ds : List Condition} (perm : cs.Perm ds) : Rearranged (.all cs) (.all ds)
  | any {cs ds : List Condition} (perm : cs.Perm ds) : Rearranged (.any cs) (.any ds)
  | within_all {before after : List Condition} {c d : Condition} (inner : Rearranged c d) :
      Rearranged (.all (before ++ c :: after)) (.all (before ++ d :: after))
  | within_any {before after : List Condition} {c d : Condition} (inner : Rearranged c d) :
      Rearranged (.any (before ++ c :: after)) (.any (before ++ d :: after))
  | within_negation {c d : Condition} (inner : Rearranged c d) :
      Rearranged (.negation c) (.negation d)
  | trans {c d e : Condition} (first : Rearranged c d) (second : Rearranged d e) :
      Rearranged c e

theorem Rearranged.holds (h : c.Rearranged d) : c.Holds st s ↔ d.Holds st s := by
  induction h with
  | refl c => rfl
  | all perm => simp only [holds_all, perm.mem_iff]
  | any perm => simp only [holds_any, perm.mem_iff]
  | within_all _ ih => simp only [holds_all, List.forall_mem_append, List.forall_mem_cons, ih]
  | within_any _ ih =>
    simp only [holds_any, List.mem_append, List.mem_cons, or_and_right, exists_or,
      exists_eq_left, ih]
  | within_negation _ ih => rw [holds_negation, holds_negation, ih]
  | trans _ _ first second => exact first.trans second

end Condition

end Entitlement
