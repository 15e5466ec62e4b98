import Mathlib.Algebra.Group.Nat.Defs
import Mathlib.Algebra.Ring.Int.Defs
import Entitlement.Proofs.Condition.Meaning
import Entitlement.Proofs.Instant

/-!
# The age of instants

The time that has passed since an instant is cut to whole milliseconds, towards zero,
before it is compared with a threshold. The cut shows in two places only: less than a
millisecond past the threshold nothing counts as older yet, and less than a millisecond
ahead of now nothing counts as younger than no time at all.
-/

set_option autoImplicit false

namespace Entitlement

namespace Instant

structure Proper (t : Instant) : Prop where
  date : t.date.isRepresentable = true
  nanos : t.nanos < 2 * nanosPerSecond

def secondsBefore (t : Instant) (n : Nat) : Instant := ⟨t.second - n, t.nanos⟩

variable {since now s t : Instant} {n : Int}

theorem toNanos_secondsBefore (t : Instant) (n : Nat) :
    (t.secondsBefore n).toNanos = t.toNanos - n * nanosPerSecond := by
  simp only [toNanos, secondsBefore, nanosPerSecond]
  omega

theorem lt_iff_toNanos (hs : s.isLeap = false) (ht : t.isLeap = false) :
    s < t ↔ s.toNanos < t.toNanos := by
  have fs : s.nanos < nanosPerSecond := Nat.lt_of_not_le (of_decide_eq_false hs)
  have ft : t.nanos < nanosPerSecond := Nat.lt_of_not_le (of_decide_eq_false ht)
  show s.second < t.second ∨ (s.second = t.second ∧ s.nanos < t.nanos) ↔ _
  simp only [toNanos, nanosPerSecond] at *
  omega

/-- Without leap seconds the time between two instants is the difference of their readings. -/
theorem nanosUntil_eq (hs : since.isLeap = false) (hn : now.isLeap = false) :
    since.nanosUntil now = now.toNanos - since.toNanos := by
  simp [nanosUntil, hs, hn]

theorem second_bounds (h : t.Proper) :
    -8334601228800 ≤ t.second ∧ t.second ≤ 8210266876799 := by
  have first : (Date.ofCivil Date.leastYear 1 1).dayNumber = -96465292 := by decide
  have last : (Date.ofCivil Date.greatestYear 12 31).dayNumber = 95026236 := by decide
  have day := h.date
  simp only [Date.isRepresentable, date, secondsPerDay, first, last, Bool.and_eq_true,
    decide_eq_true_eq] at day
  omega

/-- Two dates of the calendar are not so far apart that 64 bits of milliseconds overflow. -/
theorem natAbs_nanosUntil_le (hs : since.Proper) (hn : now.Proper) :
    (since.nanosUntil now).natAbs ≤ (2 ^ 63 - 1) * 1000000 := by
  have bs := second_bounds hs
  have bn := second_bounds hn
  have fs := hs.nanos
  have fn := hn.nanos
  simp only [nanosUntil, toNanos, nanosPerSecond] at *
  split
  · omega
  · split <;> omega

theorem elapsedMillis_eq (since now : Instant) : since.elapsedMillis now =
    since.nanosUntil now / 1000000 +
      if 0 ≤ since.nanosUntil now ∨ 1000000 ∣ since.nanosUntil now then 0 else 1 :=
  Int.tdiv_eq_ediv

/-- Cutting towards zero takes what lies less than a millisecond below zero up to zero. -/
theorem elapsedMillis_lt_iff (hn : 0 ≤ n) : since.elapsedMillis now < n ↔
    since.nanosUntil now < n * 1000000 ∧ ¬ (n = 0 ∧ -1000000 < since.nanosUntil now) := by
  rw [elapsedMillis_eq]
  split <;> omega

theorem lt_elapsedMillis_iff (hn : 0 ≤ n) :
    n < since.elapsedMillis now ↔ n * 1000000 + 1000000 ≤ since.nanosUntil now := by
  rw [elapsedMillis_eq]
  split <;> omega

theorem elapsedMillis_bounds (hs : since.Proper) (hn : now.Proper) :
    -2 ^ 63 ≤ since.elapsedMillis now ∧ since.elapsedMillis now < 2 ^ 63 := by
  have far := natAbs_nanosUntil_le hs hn
  rw [elapsedMillis_eq]
  split <;> omega

end Instant

namespace AgeBound

open Instant

variable {since now : Instant} {seconds : UInt64}

def Meets (bound : AgeBound) (elapsed : Int) (seconds : UInt64) : Prop :=
  match bound with
  | .lessThan => elapsed < seconds.toNat * nanosPerSecond
  | .moreThan => seconds.toNat * nanosPerSecond < elapsed

/-- The bound is met, by less than whole milliseconds can show. -/
def Blurs (bound : AgeBound) (elapsed : Int) (seconds : UInt64) : Prop :=
  match bound with
  | .lessThan => seconds = 0 ∧ -1000000 < elapsed ∧ elapsed < 0
  | .moreThan => seconds.toNat * nanosPerSecond < elapsed ∧
      elapsed < seconds.toNat * nanosPerSecond + 1000000

theorem eq_zero_iff_toNat : seconds = 0 ↔ seconds.toNat = 0 := by
  rw [← UInt64.toNat_inj, UInt64.toNat_zero]

theorem holds_iff_meets (bound : AgeBound) : bound.holds since now seconds = true ↔
    bound.Meets (since.nanosUntil now) seconds ∧ ¬ bound.Blurs (since.nanosUntil now) seconds := by
  have whole : (0 : Int) ≤ seconds.toNat * 1000 := by omega
  cases bound with
  | lessThan =>
    show decide (since.elapsedMillis now < seconds.toNat * 1000) = true ↔ _
    rw [decide_eq_true_iff, elapsedMillis_lt_iff whole]
    simp only [Meets, Blurs, nanosPerSecond, eq_zero_iff_toNat]
    omega
  | moreThan =>
    show decide (seconds.toNat * 1000 < since.elapsedMillis now) = true ↔ _
    rw [decide_eq_true_iff, lt_elapsedMillis_iff whole]
    simp only [Meets, Blurs, nanosPerSecond]
    omega

theorem not_meets_both (elapsed : Int) (seconds : UInt64) :
    ¬ (lessThan.Meets elapsed seconds ∧ moreThan.Meets elapsed seconds) := by
  simp only [Meets]
  omega

/-- Neither bound is seen to be met if exactly the seconds have passed, or if one is blurred. -/
theorem neither_iff (elapsed : Int) (seconds : UInt64) :
    (∀ bound : AgeBound, ¬ (bound.Meets elapsed seconds ∧ ¬ bound.Blurs elapsed seconds)) ↔
      elapsed = seconds.toNat * nanosPerSecond ∨
        ∃ bound : AgeBound, bound.Blurs elapsed seconds := by
  have each (p : AgeBound → Prop) : (∀ bound, p bound) ↔ p .lessThan ∧ p .moreThan :=
    ⟨fun h => ⟨h _, h _⟩, fun h bound => by cases bound <;> simp only [h.1, h.2]⟩
  rw [each, ← not_forall_not, each]
  simp only [Meets, Blurs, nanosPerSecond, eq_zero_iff_toNat]
  omega

/-- Outside leap seconds an instant is younger if it comes after the threshold. -/
theorem meets_lessThan_iff (hs : since.isLeap = false) (hn : now.isLeap = false) :
    lessThan.Meets (since.nanosUntil now) seconds ↔
      now.secondsBefore seconds.toNat < since := by
  rw [lt_iff_toNanos (s := now.secondsBefore seconds.toNat) hn hs, toNanos_secondsBefore,
    nanosUntil_eq hs hn, Meets]
  omega

theorem meets_moreThan_iff (hs : since.isLeap = false) (hn : now.isLeap = false) :
    moreThan.Meets (since.nanosUntil now) seconds ↔
      since < now.secondsBefore seconds.toNat := by
  rw [lt_iff_toNanos (t := now.secondsBefore seconds.toNat) hs hn, toNanos_secondsBefore,
    nanosUntil_eq hs hn, Meets]
  omega

end AgeBound

namespace Condition

variable {s : Subject} {subject : AgeSubject} {since : Instant}

theorem evaluate_age (h : subject.since? s.user = some since) (bound : AgeBound)
    (seconds : UInt64) :
    (leaf (.age subject bound seconds)).evaluate s = .done (bound.holds since s.now seconds) := by
  cases subject with
  | accountCreated =>
    obtain rfl : s.user.createdAt = since := Option.some.inj h
    rfl
  | profileUpdated =>
    have h : s.user.updatedAt = some since := h
    simp only [evaluate, evaluateNode, Predicate.evaluate, h]
    rfl

/-- A leaf about age holds if its bound is met, but for what whole milliseconds cannot show.
Never do both bounds hold, and one does unless exactly the threshold has passed or the
milliseconds blur it. Outside leap seconds meeting a bound is a matter of the order of
instants. The numbers on the way fit: the difference and its milliseconds into 64 bits, the
threshold into 128. -/
theorem evaluate_age_iff (h : subject.since? s.user = some since) (seconds : UInt64) :
    let elapsed := since.nanosUntil s.now
    let threshold := s.now.secondsBefore seconds.toNat
    ∃ value : AgeBound → Bool,
      (∀ bound, (leaf (.age subject bound seconds)).evaluate s = .done (value bound) ∧
        (value bound = true ↔ bound.Meets elapsed seconds ∧ ¬ bound.Blurs elapsed seconds)) ∧
      ¬ (value .lessThan = true ∧ value .moreThan = true) ∧
      ((∀ bound, value bound = false) ↔ elapsed = seconds.toNat * Instant.nanosPerSecond ∨
        ∃ bound : AgeBound, bound.Blurs elapsed seconds) ∧
      (since.isLeap = false → s.now.isLeap = false →
        (AgeBound.lessThan.Meets elapsed seconds ↔ threshold < since) ∧
        (AgeBound.moreThan.Meets elapsed seconds ↔ since < threshold)) ∧
      (since.Proper → s.now.Proper →
        elapsed.natAbs ≤ (2 ^ 63 - 1) * 1000000 ∧
        -2 ^ 63 ≤ since.elapsedMillis s.now ∧ since.elapsedMillis s.now < 2 ^ 63 ∧
        seconds.toNat * 1000 < 2 ^ 127) := by
  intro elapsed threshold
  have exactly : ∀ bound : AgeBound, bound.holds since s.now seconds = true ↔
      bound.Meets elapsed seconds ∧ ¬ bound.Blurs elapsed seconds := AgeBound.holds_iff_meets
  refine ⟨fun bound => bound.holds since s.now seconds,
    fun bound => ⟨evaluate_age h bound seconds, exactly bound⟩, ?_, ?_, ?_, ?_⟩
  · rw [exactly, exactly]
    exact fun h => AgeBound.not_meets_both elapsed seconds ⟨h.1.1, h.2.1⟩
  · simp only [← Bool.not_eq_true, exactly]
    exact AgeBound.neither_iff elapsed seconds
  · intro hs hn
    exact ⟨AgeBound.meets_lessThan_iff hs hn, AgeBound.meets_moreThan_iff hs hn⟩
  · intro hs hn
    obtain ⟨least, most⟩ := Instant.elapsedMillis_bounds hs hn
    have wide := seconds.toNat_lt
    exact ⟨Instant.natAbs_nanosUntil_le hs hn, least, most, by omega⟩

/-- An account made five minutes and four tenths of a millisecond before noon. -/
theorem evaluate_age_iff_at_noon :
    let since : Instant := ⟨1773489299, 999600000⟩
    let user : User :=
      ⟨⟨.generated 0⟩, "u", none, false, false, false, false, since, none, 0, 0, 0⟩
    let s : Subject := ⟨user, [], ⟨1773489600, 0⟩⟩
    AgeSubject.accountCreated.since? s.user = some since ∧ since.Proper ∧ s.now.Proper ∧
      since < s.now.secondsBefore 300 ∧ ¬ s.now.secondsBefore 300 < since ∧
      AgeBound.moreThan.Blurs (since.nanosUntil s.now) 300 ∧
      ∃ value : AgeBound → Bool, value .lessThan = false ∧ value .moreThan = false ∧
        ∀ bound, (leaf (.age .accountCreated bound 300)).evaluate s = .done (value bound) := by
  intro since user s
  have proper : since.Proper ∧ s.now.Proper := ⟨⟨by decide, by decide⟩, ⟨by decide, by decide⟩⟩
  have blurred : AgeBound.moreThan.Blurs (since.nanosUntil s.now) 300 := by
    show _ ∧ _
    decide
  have known : AgeSubject.accountCreated.since? s.user = some since := rfl
  obtain ⟨value, given, -, neither, order, -⟩ := evaluate_age_iff known 300
  obtain ⟨younger, older⟩ := order rfl rfl
  have off := neither.mpr (.inr ⟨_, blurred⟩)
  have before := older.mp blurred.1
  refine ⟨known, proper.1, proper.2, before, fun after => ?_, blurred, value, off _, off _,
    fun bound => (given bound).1⟩
  exact AgeBound.not_meets_both _ 300 ⟨younger.mpr after, blurred.1⟩

/-- An account older than five minutes by less than a millisecond does not pass as older. -/
theorem barely_older_not_seen :
    ¬ ∀ (s : Subject) (since : Instant) (seconds : UInt64),
      AgeSubject.accountCreated.since? s.user = some since → since.Proper → s.now.Proper →
      ((leaf (.age .accountCreated .moreThan seconds)).evaluate s = .done true ↔
        since < s.now.secondsBefore seconds.toNat) := by
  intro exactly
  let user : User := ⟨⟨.generated 0⟩, "u", none, false, false, false, false,
    ⟨1773489299, 999600000⟩, none, 0, 0, 0⟩
  have seen := (exactly ⟨user, [], ⟨1773489600, 0⟩⟩ ⟨1773489299, 999600000⟩ 300 rfl
    ⟨by decide, by decide⟩ ⟨by decide, by decide⟩).mpr (by decide)
  rw [evaluate_age rfl] at seen
  exact absurd (Procedure.done.inj seen) (by decide)

end Condition

end Entitlement
