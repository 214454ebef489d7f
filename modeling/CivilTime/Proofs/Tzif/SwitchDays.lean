import CivilTime.Proofs.Calendar.DayCounts
import CivilTime.Proofs.Zone.Rules
import CivilTime.Tzif.Description

/-!
# Days of zone strings

A day of a zone string is named by counting: weekdays of a month, days of a year without February
29th, or all days of a year. An annual rule names it by a day of a month that rolls over and a
weekday to move to. Both name the same epoch day in every year, and at the times of day that zone
strings have, the transition of the rule is that day at that time.
-/
namespace CivilTime

open Zone (AnnualRule)

namespace Tzif

namespace SwitchDay

/-- The numbers are in the ranges of their form. -/
def Valid : SwitchDay → Prop
  | weekdayOfMonth month week weekday =>
    (1 ≤ month ∧ month ≤ 12) ∧ (1 ≤ week ∧ week ≤ 5) ∧ weekday ≤ 6
  | commonDay count => 1 ≤ count ∧ count ≤ 365
  | yearDay count => count ≤ 365

instance : (day : SwitchDay) → Decidable day.Valid
  | weekdayOfMonth month week weekday =>
    inferInstanceAs (Decidable ((1 ≤ month ∧ month ≤ 12) ∧ (1 ≤ week ∧ week ≤ 5) ∧ weekday ≤ 6))
  | commonDay count => inferInstanceAs (Decidable (1 ≤ count ∧ count ≤ 365))
  | yearDay count => inferInstanceAs (Decidable (count ≤ 365))

/-- The epoch day that a zone string names in a year, by counting days. -/
def FallsOn (number : Int) : SwitchDay → Int → Prop
  -- Weekdays are counted from Sunday = 0.
  | weekdayOfMonth month week weekday, day =>
    Date.InMonth number month day ∧ weekdayOfDay day % 7 = weekday ∧
      if week = 5 then
        ∀ other, Date.InMonth number month other → weekdayOfDay other % 7 = weekday → other ≤ day
      else
        ((Finset.Icc (Year.of number).firstDay day).filter fun other =>
          Date.InMonth number month other ∧ weekdayOfDay other % 7 = weekday).card = week
  | commonDay count, day =>
    (Year.ofDay day).number = number ∧ ¬ Date.IsLeapDay day ∧
      ((Finset.Icc (Year.of number).firstDay day).filter fun other =>
        ¬ Date.IsLeapDay other).card = count
  | yearDay count, day => day = (Year.of number).firstDay + count

end SwitchDay

/-! ### Days of rules -/

namespace RuleDay

/-- The epoch day that the parts of a rule name in a year. -/
def epochDay (parts : RuleDay) (year : Year) : Int :=
  if parts.monthDay < 0 then
    let last := rollingDay year.number parts.month
      (daysInMonth year.leap parts.month + 1 + parts.monthDay)
    parts.weekday.elim last (previousOrSameWeekday last)
  else
    let first := rollingDay year.number parts.month parts.monthDay
    parts.weekday.elim first (nextOrSameWeekday first)

/-- The parts pass the checks of a rule. -/
structure Valid (parts : RuleDay) : Prop where
  month : 1 ≤ parts.month ∧ parts.month ≤ 12
  monthDay : 0 < parts.monthDay ∨ parts.monthDay = -1
  weekday : ∀ weekday ∈ parts.weekday, 1 ≤ weekday ∧ weekday ≤ 7

theorem epochDay_of_pos {parts : RuleDay} (ahead : 0 < parts.monthDay) {number : Int} (first : Int)
    (base : (Year.of number).firstDay + daysBeforeMonth (isLeapYear number) parts.month
      + parts.monthDay - 1 = first) :
    parts.epochDay (Year.of number) = parts.weekday.elim first (nextOrSameWeekday first) := by
  subst base
  rw [epochDay, if_neg (by omega)]
  rfl

theorem epochDay_of_neg {parts : RuleDay} (back : parts.monthDay < 0) {number : Int} (last : Int)
    (base : (Year.of number).firstDay + daysBeforeMonth (isLeapYear number) (parts.month + 1)
      + parts.monthDay = last) :
    parts.epochDay (Year.of number) = parts.weekday.elim last (previousOrSameWeekday last) := by
  have rolled : rollingDay number parts.month
      (daysInMonth (isLeapYear number) parts.month + 1 + parts.monthDay) = last := by
    have next := daysBeforeMonth_succ (isLeapYear number) parts.month
    simp only [rollingDay, Year.of] at base ⊢
    omega
  rw [epochDay, if_pos back]
  change parts.weekday.elim (rollingDay number _ _) (previousOrSameWeekday (rollingDay number _ _))
    = _
  rw [show rollingDay number parts.month
    (daysInMonth (Year.of number).leap parts.month + 1 + parts.monthDay) = last from rolled]

end RuleDay

namespace SwitchDay

/-- A week of a month other than the last one starts a multiple of seven days after the first. -/
theorem fallsOn_week_iff {number day : Int} {month week weekday : Nat}
    (months : 1 ≤ month ∧ month ≤ 12) (weeks : 1 ≤ week ∧ week ≤ 4) (weekdays : weekday ≤ 6) :
    (weekdayOfMonth month week weekday).FallsOn number day ↔
      nextOrSameWeekday
        ((Year.of number).firstDay + daysBeforeMonth (isLeapYear number) month + 7 * (week - 1))
        (if weekday = 0 then 7 else weekday) = day := by
  have long := daysInMonth_ge (isLeapYear number) months
  have next := daysBeforeMonth_succ (isLeapYear number) month
  have inMonth (other : Int) := Date.inMonth_iff number other months
  have alike (other : Int) : weekdayOfDay other % 7 = weekday ↔
      weekdayOfDay other = if weekday = 0 then 7 else weekday := by
    unfold weekdayOfDay
    split_ifs <;> omega
  -- Among the days of the year up to a day of the month, the weekdays of the month are counted.
  have counted (inside : Date.InMonth number month day)
      (same : weekdayOfDay day = if weekday = 0 then 7 else weekday) :
      ((Finset.Icc (Year.of number).firstDay day).filter fun other =>
        Date.InMonth number month other ∧ weekdayOfDay other % 7 = weekday)
      = (Finset.Icc ((Year.of number).firstDay + daysBeforeMonth (isLeapYear number) month)
          day).filter fun other => weekdayOfDay other = weekdayOfDay day := by
    ext other
    have bounds := (inMonth day).mp inside
    rw [Finset.mem_filter, Finset.mem_filter, Finset.mem_Icc, Finset.mem_Icc, inMonth, alike, same]
    omega
  rw [nextOrSameWeekday_eq_iff (by split_ifs <;> omega), FallsOn, if_neg (by omega), alike]
  constructor
  · rintro ⟨inside, same, count⟩
    have bounds := (inMonth day).mp inside
    rw [counted inside same, card_weekdays bounds.1] at count
    omega
  · rintro ⟨started, ended, same⟩
    have inside : Date.InMonth number month day := (inMonth day).mpr ⟨by omega, by omega⟩
    refine ⟨inside, same, ?_⟩
    rw [counted inside same, card_weekdays ((inMonth day).mp inside).1]
    omega

/-- The last weekday of a month lies in its last seven days. -/
theorem fallsOn_lastWeek_iff {number day : Int} {month weekday : Nat}
    (months : 1 ≤ month ∧ month ≤ 12) (weekdays : weekday ≤ 6) :
    (weekdayOfMonth month 5 weekday).FallsOn number day ↔
      previousOrSameWeekday
        ((Year.of number).firstDay + daysBeforeMonth (isLeapYear number) (month + 1) - 1)
        (if weekday = 0 then 7 else weekday) = day := by
  have long := daysInMonth_ge (isLeapYear number) months
  have next := daysBeforeMonth_succ (isLeapYear number) month
  have inMonth (other : Int) := Date.inMonth_iff number other months
  rw [previousOrSameWeekday_eq_iff (by split_ifs <;> omega), FallsOn, if_pos rfl, inMonth]
  constructor
  · rintro ⟨bounds, same, last⟩
    -- A week later the same weekday is no day of the month.
    have later := last (day + 7)
    rw [inMonth] at later
    unfold weekdayOfDay at same later ⊢
    split_ifs <;> omega
  · rintro ⟨started, ended, same⟩
    refine ⟨by omega, by unfold weekdayOfDay at same ⊢; split_ifs at same <;> omega, ?_⟩
    intro other inside alike
    have bounds := (inMonth other).mp inside
    unfold weekdayOfDay at same alike
    split_ifs at same <;> omega

/-- The leap day moves the days of a common year after it. -/
theorem fallsOn_commonDay_iff {number day : Int} {count : Nat} (range : 1 ≤ count ∧ count ≤ 365) :
    (commonDay count).FallsOn number day ↔
      (Year.of number).firstDay + (count - 1)
        + (if isLeapYear number = true ∧ 60 ≤ count then 1 else 0) = day := by
  have next := Year.firstDay_succ number
  have inYear_iff : (Year.ofDay day).number = number ↔
      (Year.of number).firstDay ≤ day ∧ day < (Year.of number).firstDay + yearLength number := by
    rw [← next]
    exact Year.numberOfDay_eq_iff
  rw [FallsOn]
  constructor
  · rintro ⟨inYear, common, counted⟩
    have bounds := inYear_iff.mp inYear
    rw [card_commonDays inYear] at counted
    rw [Date.isLeapDay_iff inYear] at common
    cases leap : isLeapYear number <;> simp [leap] at counted common ⊢
    · omega
    · split_ifs at counted ⊢ <;> omega
  · intro same
    have inYear : (Year.ofDay day).number = number := by
      rw [inYear_iff, yearLength]
      cases leap : isLeapYear number <;> simp [leap] at same ⊢
      · omega
      · split_ifs at same <;> omega
    rw [card_commonDays inYear, Date.isLeapDay_iff inYear]
    refine ⟨inYear, ?_⟩
    cases leap : isLeapYear number <;> simp [leap] at same ⊢
    · omega
    · split_ifs at same ⊢ <;> omega

/-- The parts of a rule exist for every valid day and name the epoch day that it falls on. -/
theorem ruleDay_names {switch : SwitchDay} (valid : switch.Valid) :
    ∃ parts, switch.ruleDay = .ok parts ∧ parts.Valid ∧
      ∀ number day, switch.FallsOn number day ↔ parts.epochDay (Year.of number) = day := by
  cases switch with
  | weekdayOfMonth month week weekday =>
    obtain ⟨months, weeks, weekdays⟩ := valid
    have isoWeekday : ∀ found ∈ some (if weekday = 0 then 7 else weekday),
        1 ≤ found ∧ found ≤ 7 := by
      rintro _ ⟨⟩
      split_ifs <;> omega
    rw [ruleDay, if_neg (by omega), if_neg (by omega), if_neg (by omega)]
    by_cases last : week = 5
    · subst last
      refine ⟨_, rfl, ⟨months, .inr rfl, isoWeekday⟩, fun number day => ?_⟩
      rw [fallsOn_lastWeek_iff months weekdays, RuleDay.epochDay_of_neg (by simp) _ rfl]
      rfl
    · rw [if_neg last]
      refine ⟨_, rfl, ⟨months, .inl (by simp only; omega), isoWeekday⟩, fun number day => ?_⟩
      rw [fallsOn_week_iff months (by omega) weekdays,
        RuleDay.epochDay_of_pos (by simp only; omega)
          ((Year.of number).firstDay + daysBeforeMonth (isLeapYear number) month + 7 * (week - 1))
          (by simp only; omega)]
      rfl
  | commonDay count =>
    have range : 1 ≤ count ∧ count ≤ 365 := valid
    have whole : daysBeforeMonth false 13 = 365 := by decide
    have within : count - 1 < daysBeforeMonth false 13 := by omega
    obtain ⟨started, ended⟩ := monthOfYearDay_bounds within
    have months := monthOfYearDay_range within
    rw [ruleDay, if_neg (by omega)]
    refine ⟨_, rfl, ⟨months, .inl (by simp only; omega), nofun⟩, fun number day => ?_⟩
    have moved := daysBeforeMonth_of_leap (isLeapYear number) (monthOfYearDay false (count - 1))
    have late : 2 < monthOfYearDay false (count - 1) ↔ 60 ≤ count := by
      have march : daysBeforeMonth false 3 = 59 := by decide
      constructor
      · intro after
        have := daysBeforeMonth_mono false (show 3 ≤ monthOfYearDay false (count - 1) from after)
        omega
      · intro passed
        by_contra before
        have := daysBeforeMonth_mono false
          (show monthOfYearDay false (count - 1) + 1 ≤ 3 by omega)
        omega
    rw [fallsOn_commonDay_iff range, RuleDay.epochDay_of_pos (by simp only; omega)
      ((Year.of number).firstDay + (count - 1)
        + (if isLeapYear number = true ∧ 60 ≤ count then 1 else 0))]
    · rfl
    · simp only [late] at moved
      simp only
      cases leap : isLeapYear number <;> simp [leap] at moved ⊢
      · omega
      · split_ifs at moved ⊢ <;> omega
  | yearDay count =>
    refine ⟨_, rfl, ⟨by simp, .inl (by simp only; omega), nofun⟩, fun number day => ?_⟩
    have january : daysBeforeMonth (isLeapYear number) 1 = 0 := rfl
    rw [FallsOn, RuleDay.epochDay_of_pos (by simp only; omega) ((Year.of number).firstDay + count)
      (by simp only; omega)]
    exact eq_comm

/-- Only the last day of the year, counted with the leap day, may lie past a common year. -/
theorem FallsOn.bounds {switch : SwitchDay} {number day : Int} (valid : switch.Valid)
    (falls : switch.FallsOn number day) :
    (Year.of number).firstDay ≤ day ∧ day ≤ (Year.of number).firstDay + 365 := by
  have inYear (found : (Year.ofDay day).number = number) :
      (Year.of number).firstDay ≤ day ∧ day ≤ (Year.of number).firstDay + 365 := by
    have bounds := Year.numberOfDay_eq_iff.mp found
    have next := Year.firstDay_succ number
    have length : yearLength number ≤ 366 := by
      unfold yearLength
      split <;> decide
    omega
  cases switch with
  | weekdayOfMonth month week weekday => exact inYear falls.1.1
  | commonDay count => exact inYear falls.1
  | yearDay count =>
    have last : count ≤ 365 := valid
    have same : day = (Year.of number).firstDay + count := falls
    omega

end SwitchDay

/-! ### Transitions of rules -/

/-- The rule of a date whose day has these parts. -/
def RuleDay.rule (parts : RuleDay) (time before after standard : Int) : AnnualRule where
  offsetBefore := before
  offsetAfter := after
  standardOffset := standard
  month := parts.month
  monthDay := parts.monthDay
  weekday := parts.weekday
  time := if time == secondsPerDay then 0 else time
  endOfDay := time == secondsPerDay
  clock := .wall

theorem RuleDay.Valid.validate_rule {parts : RuleDay} (valid : parts.Valid)
    (time before after standard : Int) :
    (parts.rule time before after standard).validate = .ok () := by
  have monthDay := valid.monthDay
  refine AnnualRule.validate_eq_ok_iff.mpr ⟨valid.month, ?_, valid.weekday, ?_⟩
  · change parts.monthDay ≠ 0 ∧ -28 ≤ parts.monthDay
    omega
  · exact fun endOfDay => if_pos endOfDay

theorem SwitchDate.rule_eq_ok {date : SwitchDate} {parts : RuleDay}
    (named : date.day.ruleDay = .ok parts) (valid : parts.Valid)
    (short : -2147483648 ≤ date.time ∧ date.time ≤ 2147483647) (before after standard : Int) :
    date.rule before after standard = .ok (parts.rule date.time before after standard) := by
  have checked := valid.validate_rule date.time before after standard
  have fits : ¬ ((!date.time == secondsPerDay) = true ∧
      ¬ (-2147483648 ≤ date.time ∧ date.time ≤ 2147483647)) := fun late => late.2 short
  simp only [SwitchDate.rule, named, bind, Except.bind, if_neg fits]
  change (parts.rule date.time before after standard).validate >>= _ = _
  rw [checked]
  rfl

/-- The end of a day is the start of the next one. -/
theorem RuleDay.day_rule (parts : RuleDay) (time before after standard : Int) (year : Year) :
    (parts.rule time before after standard).day year
      = parts.epochDay year + if time = secondsPerDay then 1 else 0 := by
  by_cases endOfDay : time = secondsPerDay
  · simp [AnnualRule.day, RuleDay.rule, RuleDay.epochDay, endOfDay]
  · simp [AnnualRule.day, RuleDay.rule, RuleDay.epochDay, endOfDay]

/-- A flagged end of the day is one day more and no time of day. -/
theorem RuleDay.day_rule_add_time (parts : RuleDay) (time before after standard : Int) (year : Year) :
    (parts.rule time before after standard).day year * nsPerDay
        + (parts.rule time before after standard).time * nsPerSecond
      = parts.epochDay year * nsPerDay + time * nsPerSecond := by
  have clock : (parts.rule time before after standard).time
      = if time = secondsPerDay then 0 else time := by simp [RuleDay.rule]
  rw [day_rule, clock]
  simp only [secondsPerDay, nsPerDay, nsPerHour, nsPerMinute, nsPerSecond]
  split_ifs <;> omega

/-- The transition of a rule in a year, by the epoch day that its parts name. -/
theorem RuleDay.localTransition_rule {parts : RuleDay} {number time : Int}
    (before after standard : Int) (lower : 1678 ≤ number) (upper : number ≤ 2261)
    (low : (Year.of number).firstDay ≤ parts.epochDay (Year.of number))
    (high : parts.epochDay (Year.of number) ≤ (Year.of number).firstDay + 365)
    (short : -(7 * secondsPerDay) ≤ time ∧ time ≤ 7 * secondsPerDay) :
    (parts.rule time before after standard).localTransition (Year.of number)
      = parts.epochDay (Year.of number) * nsPerDay + time * nsPerSecond := by
  have day := parts.day_rule time before after standard (Year.of number)
  simp only [secondsPerDay] at day short
  have near : parts.epochDay (Year.of number)
        ≤ (parts.rule time before after standard).day (Year.of number) ∧
      (parts.rule time before after standard).day (Year.of number)
        ≤ parts.epochDay (Year.of number) + 1 := by
    rw [day]
    split_ifs <;> omega
  have sum := parts.day_rule_add_time time before after standard (Year.of number)
  have dayFits := representable_near_year
    ((parts.rule time before after standard).day (Year.of number)) 0 lower upper (by omega)
    (by omega) (by decide)
  have clockFits := representable_near_year (parts.epochDay (Year.of number)) (time * nsPerSecond)
    lower upper low (by omega) (by simp only [nsPerDay, nsPerHour, nsPerMinute, nsPerSecond]; omega)
  rw [Int.add_zero] at dayFits
  rw [AnnualRule.localTransition_of_wall rfl dayFits (by rwa [sum]), sum]

/-- A date keeps its meaning as a rule: the rule is valid, and in every year its transition is the
epoch day that the date falls on, at the time of the date. -/
theorem SwitchDate.rule_keeps_date {date : SwitchDate} (valid : date.day.Valid)
    (short : -(7 * secondsPerDay) ≤ date.time ∧ date.time ≤ 7 * secondsPerDay)
    (before after standard : Int) :
    ∃ rule, date.rule before after standard = .ok rule ∧ rule.validate = .ok () ∧
      ∀ number, 1680 ≤ number → number ≤ 2260 →
        ∃ day, (∀ other, date.day.FallsOn number other ↔ other = day) ∧
          rule.localTransition (Year.of number) = day * nsPerDay + date.time * nsPerSecond := by
  obtain ⟨parts, named, checked, falls⟩ := SwitchDay.ruleDay_names valid
  refine ⟨parts.rule date.time before after standard,
    rule_eq_ok named checked (by simp only [secondsPerDay] at short; omega) before after standard,
    checked.validate_rule date.time before after standard, ?_⟩
  intro number lower upper
  have bounds := ((falls number _).mpr rfl).bounds valid
  refine ⟨parts.epochDay (Year.of number), fun other => (falls number other).trans eq_comm, ?_⟩
  exact RuleDay.localTransition_rule before after standard (by omega) (by omega) bounds.1 bounds.2
    short

/-- The end of the last Thursday of February was the end of the leap day of 2024. -/
theorem SwitchDate.rule_keeps_leap_day :
    ∃ rule, (⟨.weekdayOfMonth 2 5 4, 86400⟩ : SwitchDate).rule (-18000) (-14400) (-18000) = .ok rule ∧
      rule.validate = .ok () ∧
      rule.localTransition (Year.of 2024) = 19782 * nsPerDay + 86400 * nsPerSecond := by
  obtain ⟨rule, built, checked, kept⟩ := @SwitchDate.rule_keeps_date
    ⟨.weekdayOfMonth 2 5 4, 86400⟩ (by decide) (by decide) (-18000) (-14400) (-18000)
  obtain ⟨day, falls, transition⟩ := kept 2024 (by decide) (by decide)
  have last : (SwitchDay.weekdayOfMonth 2 5 4).FallsOn 2024 19782 :=
    (SwitchDay.fallsOn_lastWeek_iff (by decide) (by decide)).mpr (by decide)
  have same := (falls 19782).mp last
  subst same
  exact ⟨rule, built, checked, transition⟩

end Tzif
end CivilTime
