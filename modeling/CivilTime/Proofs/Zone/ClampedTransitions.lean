import CivilTime.Proofs.Calendar.Years
import CivilTime.Proofs.Zone.Rules
import CivilTime.Proofs.Zone.Tables

/-!
# Transitions past the ends of the range

A transition outside of the range is put at the end of the range that it lies behind, and what is
added after that can lead back into the range. So the transitions of a rule lie between an earliest
and a latest count, and an instant is compared with the exact transition unless it is in front of
the one or not in front of the other. That is so for no instant of the years that are representable
as a whole, as the two counts are within weeks of the ends.
-/
namespace CivilTime

/-- The count of the span from `low` to `high` nearest to `n`. -/
def clampTo (low high n : Int) : Int := max low (min high n)

theorem clamp_eq_clampTo (n : Int) : clamp n = clampTo minNanos maxNanos n := by
  rw [clamp, clampTo, min_comm]

theorem clampTo_add (low high n shift : Int) :
    clampTo low high n + shift = clampTo (low + shift) (high + shift) (n + shift) := by
  unfold clampTo
  omega

/-- Clamped a second time, a count is clamped to the part of the span in the range. -/
theorem clamp_clampTo (low high n : Int) :
    clamp (clampTo low high n) = clampTo (clamp low) (clamp high) n := by
  have mono : Monotone clamp := fun _ _ => clamp_mono
  have least := (clamp_representable low).1
  have greatest := (clamp_representable high).2
  rw [clampTo, mono.map_max, mono.map_min, clampTo]
  -- The ends are in the range already, so only the count in the middle is left to clamp.
  generalize clamp low = low at least ⊢
  generalize clamp high = high at greatest ⊢
  unfold clamp
  omega

/-- What is added to a clamped count moves the span along, within the range. -/
theorem clamp_clampTo_add (low high n shift : Int) :
    clamp (clampTo low high n + shift)
      = clampTo (clamp (low + shift)) (clamp (high + shift)) (n + shift) := by
  rw [clampTo_add, clamp_clampTo]

/-- The comparison with a clamped count is the one with the exact count, unless it goes by an end of
the span. -/
theorem lt_clampTo_agrees_iff {low high : Int} (ordered : low ≤ high) (m n : Int) :
    (n < clampTo low high m ↔ n < m) ↔ ¬ (m ≤ n ∧ n < low) ∧ ¬ (high ≤ n ∧ n < m) := by
  rw [clampTo, lt_max_iff, lt_min_iff]
  omega

theorem clamp_minNanos_add {shift : Int} (short : shift ≤ 4 * nsPerWeek) :
    clamp (minNanos + shift) = minNanos + max 0 shift := by
  simp only [clamp, minNanos, maxNanos, nsPerWeek, nsPerDay, nsPerHour, nsPerMinute, nsPerSecond]
    at short ⊢
  omega

theorem clamp_maxNanos_add {shift : Int} (short : -(4 * nsPerWeek) ≤ shift) :
    clamp (maxNanos + shift) = maxNanos + min 0 shift := by
  simp only [clamp, minNanos, maxNanos, nsPerWeek, nsPerDay, nsPerHour, nsPerMinute, nsPerSecond]
    at short ⊢
  omega

/-- The years that are representable as a whole are weeks away from the ends of the range. -/
theorem weeks_within_range {n : Int} (lower : 1678 ≤ (yearOf n).number)
    (upper : (yearOf n).number ≤ 2261) :
    minNanos + 4 * nsPerWeek ≤ n ∧ n < maxNanos - 4 * nsPerWeek := by
  have begun := le_yearOf_iff.mp lower
  have ended := yearOf_lt_iff.mp (Int.lt_add_one_of_le upper)
  have least : minNanos + 4 * nsPerWeek ≤ (Year.of 1678).firstDay * nsPerDay := by decide
  have greatest : (Year.of (2261 + 1)).firstDay * nsPerDay ≤ maxNanos - 4 * nsPerWeek := by decide
  exact ⟨Int.le_trans least begun, Int.lt_of_lt_of_le ended greatest⟩

namespace Zone.AnnualRule

variable {rule : AnnualRule}

/-- The local time of the transition in a year, by the offset before it, in or out of the range. -/
def exactLocal (rule : AnnualRule) (year : Year) : Int :=
  rule.day year * nsPerDay + rule.time * nsPerSecond + rule.wallShift

/-- The count of the transition in a year, in or out of the range. -/
def exactUtc (rule : AnnualRule) (year : Year) : Int := rule.exactLocal year - rule.before

/-- How far past the start of the range the local time is put of a transition in front of it. -/
def localRise (rule : AnnualRule) : Int := max 0 (max 0 (rule.time * nsPerSecond) + rule.wallShift)

/-- How far past the end of the range, backward, the local time is put of a transition behind it. -/
def localFall (rule : AnnualRule) : Int := min 0 (min 0 (rule.time * nsPerSecond) + rule.wallShift)

/-- How far past the start of the range a transition in front of it is put. -/
def utcRise (rule : AnnualRule) : Int := max 0 (rule.localRise - rule.before)

/-- How far past the end of the range, backward, a transition behind it is put. -/
def utcFall (rule : AnnualRule) : Int := min 0 (rule.localFall - rule.before)

/-- Offsets and the time of day are of a week at most, in either direction. -/
structure WithinWeek (rule : AnnualRule) : Prop where
  before : -604800 ≤ rule.offsetBefore ∧ rule.offsetBefore ≤ 604800
  after : -604800 ≤ rule.offsetAfter ∧ rule.offsetAfter ≤ 604800
  standard : -604800 ≤ rule.standardOffset ∧ rule.standardOffset ≤ 604800
  time : -604800 ≤ rule.time ∧ rule.time ≤ 604800

namespace WithinWeek

theorem before_bounds (week : rule.WithinWeek) :
    -nsPerWeek ≤ rule.before ∧ rule.before ≤ nsPerWeek := by
  have before := week.before
  simp only [AnnualRule.before, nsPerWeek, nsPerDay, nsPerHour, nsPerMinute, nsPerSecond]
  omega

theorem time_bounds (week : rule.WithinWeek) :
    -nsPerWeek ≤ rule.time * nsPerSecond ∧ rule.time * nsPerSecond ≤ nsPerWeek := by
  have time := week.time
  simp only [nsPerWeek, nsPerDay, nsPerHour, nsPerMinute, nsPerSecond]
  omega

theorem wallShift_bounds (week : rule.WithinWeek) :
    -(2 * nsPerWeek) ≤ rule.wallShift ∧ rule.wallShift ≤ 2 * nsPerWeek :=
  wallShift_within week.before week.standard

theorem local_bounds (week : rule.WithinWeek) :
    (0 ≤ rule.localRise ∧ rule.localRise ≤ 3 * nsPerWeek) ∧
      -(3 * nsPerWeek) ≤ rule.localFall ∧ rule.localFall ≤ 0 := by
  have time := week.time_bounds
  have shift := week.wallShift_bounds
  unfold localRise localFall
  omega

theorem utc_bounds (week : rule.WithinWeek) :
    (0 ≤ rule.utcRise ∧ rule.utcRise ≤ 4 * nsPerWeek) ∧
      -(4 * nsPerWeek) ≤ rule.utcFall ∧ rule.utcFall ≤ 0 := by
  have before := week.before_bounds
  have locals := week.local_bounds
  unfold utcRise utcFall
  omega

/-- The time of day and the shift to the wall clock are added one after the other. -/
theorem localTransition_eq (week : rule.WithinWeek) (year : Year) :
    rule.localTransition year
      = clampTo (minNanos + rule.localRise) (maxNanos + rule.localFall) (rule.exactLocal year) := by
  have time := week.time_bounds
  have shift := week.wallShift_bounds
  rw [localTransition, clamp_eq_clampTo (rule.day year * nsPerDay), clamp_clampTo_add,
    clamp_clampTo_add, clamp_minNanos_add (by omega), clamp_maxNanos_add (by omega), Int.add_assoc,
    Int.add_assoc, clamp_minNanos_add (by omega), clamp_maxNanos_add (by omega)]
  rfl

theorem utcTransition_eq (week : rule.WithinWeek) (year : Year) :
    rule.utcTransition year
      = clampTo (minNanos + rule.utcRise) (maxNanos + rule.utcFall) (rule.exactUtc year) := by
  have before := week.before_bounds
  have locals := week.local_bounds
  rw [utcTransition, week.localTransition_eq, Int.sub_eq_add_neg, clamp_clampTo_add, Int.add_assoc,
    Int.add_assoc, clamp_minNanos_add (by omega), clamp_maxNanos_add (by omega)]
  rfl

end WithinWeek

/-- An instant is compared with the exact transition, on either clock, unless it is in front of the
earliest count that a transition is put at or not in front of the latest one. -/
theorem comparison_exact_iff {rule : AnnualRule} (week : rule.WithinWeek) (n : Int) :
    let year := yearOf n
    ((n < rule.localTransition year ↔ n < rule.exactLocal year) ↔
      ¬ (rule.exactLocal year ≤ n ∧ n < minNanos + rule.localRise) ∧
      ¬ (maxNanos + rule.localFall ≤ n ∧ n < rule.exactLocal year)) ∧
    ((n < rule.utcTransition year ↔ n < rule.exactUtc year) ↔
      ¬ (rule.exactUtc year ≤ n ∧ n < minNanos + rule.utcRise) ∧
      ¬ (maxNanos + rule.utcFall ≤ n ∧ n < rule.exactUtc year)) ∧
    (1678 ≤ year.number → year.number ≤ 2261 →
      (n < rule.localTransition year ↔ n < rule.exactLocal year) ∧
      (n < rule.utcTransition year ↔ n < rule.exactUtc year)) := by
  intro year
  have locals := week.local_bounds
  have instants := week.utc_bounds
  have short : 8 * nsPerWeek ≤ maxNanos - minNanos := by decide
  have localSpan : minNanos + rule.localRise ≤ maxNanos + rule.localFall := by omega
  have utcSpan : minNanos + rule.utcRise ≤ maxNanos + rule.utcFall := by omega
  have localAgrees := lt_clampTo_agrees_iff localSpan (rule.exactLocal year) n
  have utcAgrees := lt_clampTo_agrees_iff utcSpan (rule.exactUtc year) n
  rw [← week.localTransition_eq] at localAgrees
  rw [← week.utcTransition_eq] at utcAgrees
  refine ⟨localAgrees, utcAgrees, fun lower upper => ?_⟩
  obtain ⟨started, ended⟩ := weeks_within_range lower upper
  rw [localAgrees, utcAgrees]
  omega

/-- Clocks go forward on the last Sunday of March at two. -/
def lastSundayOfMarch : AnnualRule where
  offsetBefore := 3600
  offsetAfter := 7200
  standardOffset := 3600
  month := 3
  monthDay := -1
  weekday := some 7
  time := 7200
  endOfDay := false
  clock := .wall

/-- Clocks go back on the last Sunday of October at three. -/
def lastSundayOfOctober : AnnualRule where
  offsetBefore := 7200
  offsetAfter := 3600
  standardOffset := 3600
  month := 10
  monthDay := -1
  weekday := some 7
  time := 10800
  endOfDay := false
  clock := .wall

theorem withinWeek_lastSundayOfOctober : lastSundayOfOctober.WithinWeek := by
  constructor <;> decide

/-- Three hours before the range ends, the October after its end is still ahead on both clocks. -/
theorem comparison_exact_in_last_hours :
    let n := maxNanos - 3 * nsPerHour
    lastSundayOfOctober.WithinWeek ∧
    (n < lastSundayOfOctober.localTransition (yearOf n) ↔
      n < lastSundayOfOctober.exactLocal (yearOf n)) ∧
    (n < lastSundayOfOctober.utcTransition (yearOf n) ↔
      n < lastSundayOfOctober.exactUtc (yearOf n)) := by
  intro n
  obtain ⟨localAgrees, utcAgrees, -⟩ := comparison_exact_iff withinWeek_lastSundayOfOctober n
  exact ⟨withinWeek_lastSundayOfOctober, localAgrees.mpr (by decide), utcAgrees.mpr (by decide)⟩

/-- In the last hour of the range clocks have just gone forward, but the October after its end is put
two hours before it on the clock of Greenwich, and taken to be over. Read as a local time, the same
count is in front of it. -/
theorem clamped_october_is_over :
    let n := maxNanos - nsPerHour
    lastSundayOfOctober.validate = .ok () ∧ lastSundayOfOctober.WithinWeek ∧ Representable n ∧
    n < lastSundayOfOctober.exactUtc (yearOf n) ∧
    ¬ n < lastSundayOfOctober.utcTransition (yearOf n) ∧
    maxNanos < lastSundayOfOctober.exactLocal (yearOf maxNanos) ∧
    ¬ maxNanos < lastSundayOfOctober.localTransition (yearOf maxNanos) ∧
    ∃ timeline, Timeline.ofDescription (.table ⟨[], [3600],
        [lastSundayOfMarch, lastSundayOfOctober]⟩) = .ok timeline ∧
      timeline.offsetAtUtc n = lastSundayOfOctober.after ∧
      timeline.offsetAtLocal n = lastSundayOfOctober.before := by
  exact ⟨rfl, withinWeek_lastSundayOfOctober, by decide, by decide, by decide, by decide,
    by decide, _, rfl, by decide, by decide⟩

end Zone.AnnualRule
end CivilTime
