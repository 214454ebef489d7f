import CivilTime.Proofs.Tzif.ZoneStrings
import CivilTime.Proofs.Zone.LatestTransitions

/-!
# Order of recurring rules

The rules of a zone string are ordered by the day of a common year that they name before they move
to a weekday. Weekdays, leap days and times of up to a week move a transition by up to two weeks from
there, so rules may be out of order where these days are less than four weeks apart. Whether they ever
are is seen from 28 years: the days of a year depend on its length and on the weekday of January 1st
only.
-/
namespace CivilTime

open Zone (AnnualRule)

/-! ### Calendars of years -/

/-- Both years have the same length, and their days are on the same weekdays. -/
structure SameCalendar (left right : Int) : Prop where
  leap : isLeapYear left = isLeapYear right
  weekday : (Year.of left).firstDay % 7 = (Year.of right).firstDay % 7

/-- The years 2000 to 2027 have all calendars. -/
theorem exists_sameCalendar (number : Int) :
    ∃ other, 2000 ≤ other ∧ other ≤ 2027 ∧ SameCalendar other number := by
  have all : ∀ (leap : Bool) (weekday : Fin 7), ∃ count : Fin 28,
      isLeapYear (2000 + count) = leap ∧ (Year.of (2000 + count)).firstDay % 7 = weekday := by
    decide
  obtain ⟨count, leap, weekday⟩ := all (isLeapYear number)
    ⟨((Year.of number).firstDay % 7).toNat, by omega⟩
  refine ⟨2000 + count, by omega, by omega, leap, ?_⟩
  simp only at weekday
  omega

/-- Whole weeks move the weekday that is next along. -/
theorem nextOrSameWeekday_add {weeks : Int} (whole : weeks % 7 = 0) (day : Int)
    (weekday : Option Nat) :
    weekday.elim (day + weeks) (nextOrSameWeekday (day + weeks))
      = weekday.elim day (nextOrSameWeekday day) + weeks := by
  cases weekday with
  | none => rfl
  | some weekday =>
    simp only [Option.elim, nextOrSameWeekday, weekdayOfDay]
    omega

theorem previousOrSameWeekday_add {weeks : Int} (whole : weeks % 7 = 0) (day : Int)
    (weekday : Option Nat) :
    weekday.elim (day + weeks) (previousOrSameWeekday (day + weeks))
      = weekday.elim day (previousOrSameWeekday day) + weeks := by
  cases weekday with
  | none => rfl
  | some weekday =>
    simp only [Option.elim, previousOrSameWeekday, weekdayOfDay]
    omega

namespace Zone

namespace AnnualRule

variable {left right : Int}

/-- A rule names the same day of years of the same calendar. -/
theorem day_of_sameCalendar (rule : AnnualRule) (same : SameCalendar left right) :
    rule.day (Year.of left)
      = rule.day (Year.of right) + ((Year.of left).firstDay - (Year.of right).firstDay) := by
  have weeks : ((Year.of left).firstDay - (Year.of right).firstDay) % 7 = 0 := by
    have weekday := same.weekday
    omega
  have leap : (Year.of left).leap = (Year.of right).leap := same.leap
  have rolled (day : Int) : rollingDay (Year.of left).number rule.month day
      = rollingDay (Year.of right).number rule.month day
        + ((Year.of left).firstDay - (Year.of right).firstDay) := by
    change (Year.of left).firstDay + daysBeforeMonth (Year.of left).leap rule.month + day - 1
      = (Year.of right).firstDay + daysBeforeMonth (Year.of right).leap rule.month + day - 1 + _
    rw [leap]
    omega
  -- The first days are whole weeks apart, which the moves to a weekday keep.
  simp only [day, leap, rolled, nextOrSameWeekday_add weeks, previousOrSameWeekday_add weeks]
  split_ifs <;> omega

/-- The transition is at a day and a time of at most a week, which no clamp moves. -/
structure Unclamped (rule : AnnualRule) : Prop where
  time : -(7 * 86400) ≤ rule.time ∧ rule.time ≤ 7 * 86400
  transition : ∀ number, 1680 ≤ number → number ≤ 2260 →
    rule.localTransition (Year.of number)
      = rule.day (Year.of number) * nsPerDay + rule.time * nsPerSecond

/-- The first of two rules has its transition no later than the second one in a year. -/
def InOrder (early late : AnnualRule) (number : Int) : Prop :=
  early.localTransition (Year.of number) ≤ late.localTransition (Year.of number)

namespace Unclamped

variable {rule early late : AnnualRule}

theorem near (unclamped : rule.Unclamped) {number : Int} (lower : 1680 ≤ number)
    (upper : number ≤ 2260) :
    rule.approximate number - 14 * nsPerDay ≤ rule.localTransition (Year.of number) ∧
      rule.localTransition (Year.of number) ≤ rule.approximate number + 14 * nsPerDay := by
  have days := rule.day_near number
  have time := unclamped.time
  rw [unclamped.transition number lower upper, approximate]
  simp only [nsPerDay, nsPerHour, nsPerMinute, nsPerSecond]
  omega

/-- Rules are in order in a year if they are in another one of the same calendar. -/
theorem inOrder_of_sameCalendar (first : early.Unclamped) (second : late.Unclamped)
    (same : SameCalendar left right) (leftRange : 1680 ≤ left ∧ left ≤ 2260)
    (rightRange : 1680 ≤ right ∧ right ≤ 2260) (ordered : InOrder early late left) :
    InOrder early late right := by
  have earlyDay := early.day_of_sameCalendar same
  have lateDay := late.day_of_sameCalendar same
  rw [InOrder, first.transition left leftRange.1 leftRange.2,
    second.transition left leftRange.1 leftRange.2] at ordered
  rw [InOrder, first.transition right rightRange.1 rightRange.2,
    second.transition right rightRange.1 rightRange.2]
  simp only [nsPerDay, nsPerHour, nsPerMinute, nsPerSecond] at ordered ⊢
  omega

/-- The years 2000 to 2027 tell whether rules are in order. -/
theorem inOrder_iff (first : early.Unclamped) (second : late.Unclamped) :
    (∀ number, 1680 ≤ number → number ≤ 2260 → InOrder early late number) ↔
      ∀ number, 2000 ≤ number → number ≤ 2027 → InOrder early late number := by
  constructor
  · exact fun ordered number lower upper => ordered number (by omega) (by omega)
  · intro ordered number lower upper
    obtain ⟨other, begun, ended, same⟩ := exists_sameCalendar number
    exact first.inOrder_of_sameCalendar second same (by omega) ⟨lower, upper⟩
      (ordered other begun ended)

/-- Two rules are at least the distance of their approximate days apart, less four weeks. -/
theorem apart (first : early.Unclamped) (second : late.Unclamped) {number : Int}
    (lower : 1680 ≤ number) (upper : number ≤ 2260) :
    early.localTransition (Year.of number)
        + (late.approximateYearDay - early.approximateYearDay - 28) * nsPerDay
      ≤ late.localTransition (Year.of number) := by
  have ended := (first.near lower upper).2
  have begun := (second.near lower upper).1
  unfold approximate at ended begun
  simp only [nsPerDay, nsPerHour, nsPerMinute, nsPerSecond] at ended begun ⊢
  omega

end Unclamped

end AnnualRule

end Zone

/-! ### Rules of zone strings -/

namespace Tzif

theorem SwitchDate.Valid.unclamped {date : SwitchDate} (valid : date.Valid)
    {before after standard : Int} {rule : AnnualRule}
    (built : date.rule before after standard = .ok rule) : rule.Unclamped := by
  obtain ⟨parts, named, checked, falls⟩ := SwitchDay.ruleDay_names valid.day
  have time := valid.time
  have same := SwitchDate.rule_eq_ok named checked
    (by simp only [secondsPerDay] at time; omega) before after standard
  rw [built] at same
  cases same
  constructor
  · change _ ≤ (if (date.time == secondsPerDay) = true then 0 else date.time) ∧
      (if (date.time == secondsPerDay) = true then 0 else date.time) ≤ _
    simp only [secondsPerDay] at time ⊢
    split_ifs <;> omega
  · intro number lower upper
    have bounds := ((falls number _).mpr rfl).bounds valid.day
    -- What a rule says about its day and time adds up to the day and time of the date.
    rw [parts.day_rule_add_time]
    exact RuleDay.localTransition_rule before after standard (by omega) (by omega) bounds.1 bounds.2
      time

namespace PosixZone

variable {zone : PosixZone} {rules : List AnnualRule}

/-- Daylight saving time gives two rules in the order of their approximate days. -/
theorem Valid.rules_unclamped (valid : zone.Valid) (saving : zone.daylight.isSome)
    (ruled : zone.rules = .ok rules) :
    ∃ early late : AnnualRule, rules = [early, late] ∧
      early.approximateYearDay ≤ late.approximateYearDay ∧ early.Unclamped ∧ late.Unclamped := by
  obtain ⟨daylight, present⟩ := Option.isSome_iff_exists.mp saving
  obtain ⟨start, finish⟩ := valid daylight present
  obtain ⟨_, _, first, second, started, finished, order⟩ := rules_of_daylight present ruled
  -- Daylight saving time begins first or ends first in the year.
  obtain ⟨ordered, rfl⟩ | ⟨ordered, rfl⟩ := order
  · exact ⟨first, second, rfl, ordered, start.unclamped started, finish.unclamped finished⟩
  · exact ⟨second, first, rfl, Int.le_of_lt ordered, finish.unclamped finished,
      start.unclamped started⟩

/-- The rules of a zone come in the order of their approximate days, whose distance is never wrong by
more than four weeks. They are in the order of the calendar in every year if they are in the years
2000 to 2027. -/
theorem rules_inOrder_iff (valid : zone.Valid) (saving : zone.daylight.isSome)
    (ruled : zone.rules = .ok rules) :
    ∃ early late : AnnualRule, rules = [early, late] ∧
      early.approximateYearDay ≤ late.approximateYearDay ∧
      (∀ number, 1680 ≤ number → number ≤ 2260 →
        early.localTransition (Year.of number)
            + (late.approximateYearDay - early.approximateYearDay - 28) * nsPerDay
          ≤ late.localTransition (Year.of number)) ∧
      ((∀ number, 1680 ≤ number → number ≤ 2260 → early.InOrder late number) ↔
        ∀ number, 2000 ≤ number → number ≤ 2027 → early.InOrder late number) := by
  obtain ⟨early, late, rfl, ordered, first, second⟩ := valid.rules_unclamped saving ruled
  exact ⟨early, late, rfl, ordered, fun _ => first.apart second, first.inOrder_iff second⟩

/-- March and November are in order. -/
theorem rules_inOrder_of_march_and_november :
    ∃ early late : AnnualRule,
      ofText? "EST5EDT,M3.2.0,M11.1.0" = some Zone.marchToNovember ∧
        Zone.marchToNovember.rules = .ok [early, late] ∧
        ∀ number, 1680 ≤ number → number ≤ 2260 → early.InOrder late number := by
  have found : ofText? "EST5EDT,M3.2.0,M11.1.0" = some Zone.marchToNovember := by decide +kernel
  have ruled : Zone.marchToNovember.rules
      = .ok [Zone.secondSundayOfMarch, Zone.firstSundayOfNovember] := by rfl
  obtain ⟨early, late, same, -, apart, -⟩ := rules_inOrder_iff (valid_of_ofText? found) rfl ruled
  refine ⟨early, late, found, same ▸ ruled, fun number lower upper => ?_⟩
  have order := apart number lower upper
  cases same
  have days : Zone.firstSundayOfNovember.approximateYearDay
      - Zone.secondSundayOfMarch.approximateYearDay - 28 = 210 := by decide
  rw [days] at order
  simp only [nsPerDay, nsPerHour, nsPerMinute, nsPerSecond] at order
  rw [AnnualRule.InOrder]
  omega

/-- Whatever a text is, 28 years tell whether the rules read of it are in order. -/
theorem rules_of_text_inOrder_iff {text : String} (found : ofText? text = some zone)
    (saving : zone.daylight.isSome) (ruled : zone.rules = .ok rules) :
    ∃ early late : AnnualRule, rules = [early, late] ∧
      ((∀ number, 1680 ≤ number → number ≤ 2260 → early.InOrder late number) ↔
        ∀ number, 2000 ≤ number → number ≤ 2027 → early.InOrder late number) := by
  obtain ⟨early, late, rfl, -, first, second⟩ :=
    (valid_of_ofText? found).rules_unclamped saving ruled
  exact ⟨early, late, rfl, first.inOrder_iff second⟩

/-- From two in the morning after the first Sunday of March to the start of March 2nd. -/
def startsLate : PosixZone where
  offset := 10800
  daylight := some
    { offset := 7200
      start := ⟨.weekdayOfMonth 3 1 0, 93600⟩
      finish := ⟨.commonDay 61, 0⟩ }

/-- The first Sunday of March is no earlier than March 1st, so with two hours and a day it is past the
start of March 2nd in every year. Its rule comes first nonetheless, for March 1st comes first. -/
theorem rules_reversed :
    ofText? "XXX3YYY,M3.1.0/26,J61/0" = some startsLate ∧ startsLate.Valid ∧
      ∃ early late : AnnualRule, startsLate.rules = .ok [early, late] ∧
        ∀ number, 1680 ≤ number → number ≤ 2260 → ¬ early.InOrder late number := by
  have found : ofText? "XXX3YYY,M3.1.0/26,J61/0" = some startsLate := by decide +kernel
  let sunday : RuleDay := ⟨3, 1, some 7⟩
  let second : RuleDay := ⟨3, 2, none⟩
  refine ⟨found, valid_of_ofText? found, sunday.rule 93600 (-10800) (-7200) (-10800),
    second.rule 0 (-7200) (-10800) (-10800), by rfl, ?_⟩
  intro number lower upper
  have leap : 59 ≤ daysBeforeMonth (isLeapYear number) 3 ∧
      daysBeforeMonth (isLeapYear number) 3 ≤ 60 := by cases isLeapYear number <;> decide
  let march := (Year.of number).firstDay + daysBeforeMonth (isLeapYear number) 3
  have weekday : sunday.epochDay (Year.of number) = (some 7).elim march (nextOrSameWeekday march) :=
    RuleDay.epochDay_of_pos (by decide) march (Int.add_sub_cancel _ _)
  have near := Zone.nextOrSameWeekday_bounds march (some 7)
  have next : second.epochDay (Year.of number) = march + 1 :=
    RuleDay.epochDay_of_pos (by decide) (march + 1) (by simp only [second, march]; omega)
  have started := sunday.localTransition_rule (-10800) (-7200) (-10800) (show 1678 ≤ number by omega)
    (by omega) (by omega) (by omega)
    (show -(7 * secondsPerDay) ≤ 93600 ∧ 93600 ≤ 7 * secondsPerDay by decide)
  have finished := second.localTransition_rule (-7200) (-10800) (-10800)
    (show 1678 ≤ number by omega) (by omega) (by omega) (by omega)
    (show -(7 * secondsPerDay) ≤ 0 ∧ 0 ≤ 7 * secondsPerDay by decide)
  rw [AnnualRule.InOrder, started, finished]
  simp only [nsPerDay, nsPerHour, nsPerMinute, nsPerSecond]
  omega

end PosixZone

end Tzif

end CivilTime
