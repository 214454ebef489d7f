import CivilTime.Proofs.Tzif.SwitchDays
import CivilTime.Proofs.Zone.RecurringRules

/-!
# Latest transitions of recurring rules

An instant is looked up in the transitions of its own year on the UTC clock. This finds the offset
that the latest transition left, as long as the transitions of every year lie in that year on the
UTC clock too and come in the order of the rules. Ahead of Greenwich a transition at the start of
January 1st happens in the year before on the UTC clock, and what is left of that year is looked up
as if it had not happened.
-/
namespace CivilTime

open Zone (AnnualRule)

namespace Tzif

theorem SwitchDate.rule_offsets {date : SwitchDate} {before after standard : Int}
    {rule : AnnualRule} (built : date.rule before after standard = .ok rule) :
    rule.offsetBefore = before ∧ rule.offsetAfter = after := by
  obtain ⟨parts, -, built⟩ := bind_eq_ok_iff.mp built
  simp only at built
  split at built
  · cases built
  · obtain ⟨-, -, built⟩ := bind_eq_ok_iff.mp built
    cases built
    exact ⟨rfl, rfl⟩

/-- Daylight saving time gives the rules of its two dates, first the one whose approximate day of the
year is not after that of the other one. -/
theorem PosixZone.rules_of_daylight {zone : PosixZone} {daylight : DaylightSaving}
    (found : zone.daylight = some daylight) {rules : List AnnualRule} (ruled : zone.rules = .ok rules) :
    ∃ standard saving start finish,
      daylight.start.rule standard saving standard = .ok start ∧
        daylight.finish.rule saving standard standard = .ok finish ∧
        (start.approximateYearDay ≤ finish.approximateYearDay ∧ rules = [start, finish] ∨
          finish.approximateYearDay < start.approximateYearDay ∧ rules = [finish, start]) := by
  simp only [PosixZone.rules, found] at ruled
  obtain ⟨standard, -, ruled⟩ := bind_eq_ok_iff.mp ruled
  obtain ⟨saving, -, ruled⟩ := bind_eq_ok_iff.mp ruled
  obtain ⟨start, startBuilt, ruled⟩ := bind_eq_ok_iff.mp ruled
  obtain ⟨finish, finishBuilt, ruled⟩ := bind_eq_ok_iff.mp ruled
  refine ⟨standard, saving, start, finish, startBuilt, finishBuilt, ?_⟩
  split at ruled
  next ordered =>
    cases ruled
    exact .inl ⟨ordered, rfl⟩
  next reversed =>
    cases ruled
    exact .inr ⟨Int.not_le.mp reversed, rfl⟩

/-- Daylight saving time gives two rules, each leaving the offset that the other starts from. -/
theorem PosixZone.rules_eq_pair {zone : PosixZone} (saving : zone.daylight.isSome)
    {rules : List AnnualRule} (ruled : zone.rules = .ok rules) :
    ∃ early late : AnnualRule, rules = [early, late] ∧
      early.offsetAfter = late.offsetBefore ∧ late.offsetAfter = early.offsetBefore := by
  obtain ⟨daylight, found⟩ := Option.isSome_iff_exists.mp saving
  obtain ⟨_, _, start, finish, startBuilt, finishBuilt, order⟩ := rules_of_daylight found ruled
  obtain ⟨startBefore, startAfter⟩ := SwitchDate.rule_offsets startBuilt
  obtain ⟨finishBefore, finishAfter⟩ := SwitchDate.rule_offsets finishBuilt
  obtain ⟨-, rfl⟩ | ⟨-, rfl⟩ := order
  · exact ⟨start, finish, rfl, startAfter.trans finishBefore.symm, finishAfter.trans startBefore.symm⟩
  · exact ⟨finish, start, rfl, finishAfter.trans startBefore.symm, startAfter.trans finishBefore.symm⟩

end Tzif

namespace Zone

/-- The transition of a rule in a year is the latest one at or before an instant, over all rules and
all years that are representable as a whole. -/
structure LatestTransition (rules : List AnnualRule) (n : Int) (rule : AnnualRule) (number : Int) :
    Prop where
  member : rule ∈ rules
  year : 1678 ≤ number ∧ number ≤ 2261
  reached : rule.utcTransition (Year.of number) ≤ n
  latest : ∀ other ∈ rules, ∀ year, 1678 ≤ year → year ≤ 2261 →
    other.utcTransition (Year.of year) ≤ n →
      other.utcTransition (Year.of year) ≤ rule.utcTransition (Year.of number)

/-- The transitions of each year lie in that year on the UTC clock and come in the order of the
rules. -/
structure KeepYears (rules : List AnnualRule) : Prop where
  inYear : ∀ rule ∈ rules, ∀ number, 1678 ≤ number → number ≤ 2261 →
    (yearOf (rule.utcTransition (Year.of number))).number = number
  ordered : ∀ number, 1678 ≤ number → number ≤ 2261 →
    (rules.map fun rule => rule.utcTransition (Year.of number)).Pairwise (· < ·)

namespace KeepYears

variable {rules : List AnnualRule}

theorem year_le (keep : KeepYears rules) {rule : AnnualRule} (member : rule ∈ rules) {number n : Int}
    (lower : 1678 ≤ number) (upper : number ≤ 2261)
    (reached : rule.utcTransition (Year.of number) ≤ n) : number ≤ (yearOf n).number := by
  have own := keep.inYear rule member number lower upper
  rw [← own]
  exact yearOf_mono reached

/-- A transition is the latest one if it is the last of its year that an instant has reached, and
the instant has reached none of the years after it. -/
theorem latestTransition (keep : KeepYears rules) {rule : AnnualRule} (member : rule ∈ rules)
    {number n : Int} (lower : 1678 ≤ number) (upper : number ≤ 2261)
    (reached : rule.utcTransition (Year.of number) ≤ n)
    (last : ∀ other ∈ rules, other.utcTransition (Year.of number) ≤ n →
      other.utcTransition (Year.of number) ≤ rule.utcTransition (Year.of number))
    (next : ∀ other ∈ rules, ∀ year, number < year → year ≤ (yearOf n).number → year ≤ 2261 →
      n < other.utcTransition (Year.of year)) : LatestTransition rules n rule number where
  member := member
  year := ⟨lower, upper⟩
  reached := reached
  latest := by
    intro other side year begun ended passed
    have inTime := keep.year_le side begun ended passed
    rcases Int.lt_trichotomy year number with past | same | future
    · have own := keep.inYear rule member number lower upper
      have others := keep.inYear other side year begun ended
      exact Int.le_of_lt (lt_of_yearOf_lt (by omega))
    · subst same
      exact last other side passed
    · have ahead := next other side year future inTime ended
      omega

section Pair

variable {early late : AnnualRule} {n : Int}

theorem ordered_pair (keep : KeepYears [early, late]) (number : Int) (lower : 1678 ≤ number)
    (upper : number ≤ 2261) :
    early.utcTransition (Year.of number) < late.utcTransition (Year.of number) := by
  have pair := keep.ordered number lower upper
  simpa using pair

/-- Before both transitions of its year, an instant has reached the last one of the year before. -/
theorem latest_before (keep : KeepYears [early, late]) (lower : 1679 ≤ (yearOf n).number)
    (upper : (yearOf n).number ≤ 2261) (ahead : n < early.utcTransition (yearOf n)) :
    LatestTransition [early, late] n late ((yearOf n).number - 1) := by
  have order := keep.ordered_pair (yearOf n).number (by omega) upper
  have before := keep.ordered_pair ((yearOf n).number - 1) (by omega) (by omega)
  have own := keep.inYear late (by simp) ((yearOf n).number - 1) (by omega) (by omega)
  refine keep.latestTransition (by simp) (by omega) (by omega)
    (Int.le_of_lt (lt_of_yearOf_lt (by omega))) ?_ ?_
  · intro other side _
    rcases List.mem_pair.mp side with rfl | rfl
    · exact Int.le_of_lt before
    · exact Int.le_refl _
  · intro other side year begun ended _
    have same : year = (yearOf n).number := by omega
    subst same
    rcases List.mem_pair.mp side with rfl | rfl
    · exact ahead
    · exact Int.lt_trans ahead order

/-- No later year has begun for an instant of the year itself. -/
theorem latest_within (keep : KeepYears [early, late]) (lower : 1678 ≤ (yearOf n).number)
    (upper : (yearOf n).number ≤ 2261) {rule : AnnualRule} (member : rule ∈ [early, late])
    (reached : rule.utcTransition (yearOf n) ≤ n)
    (last : rule = early → n < late.utcTransition (yearOf n)) :
    LatestTransition [early, late] n rule (yearOf n).number := by
  have order := keep.ordered_pair _ lower upper
  refine keep.latestTransition member lower upper reached ?_ fun _ _ _ begun ended _ => by omega
  intro other side passed
  rcases List.mem_pair.mp member with rfl | rfl
  · rcases List.mem_pair.mp side with rfl | rfl
    · exact Int.le_refl _
    · exact absurd passed (Int.not_le.mpr (last rfl))
  · rcases List.mem_pair.mp side with rfl | rfl
    · exact Int.le_of_lt order
    · exact Int.le_refl _

theorem offsetAtUtc_eq (keep : KeepYears [early, late]) (back : late.after = early.before)
    (link : early.after = late.before) {h : History} (recurring : h.rules = [early, late])
    (recent : h.transitions = []) (lower : 1679 ≤ (yearOf n).number)
    (upper : (yearOf n).number ≤ 2261) :
    ∃ rule number, LatestTransition [early, late] n rule number ∧
      h.offsetAtUtc n = rule.after := by
  rw [h.offsetAtUtc_pair recurring recent (representable_of_year (by omega) upper)]
  split_ifs with ahead between
  · exact ⟨late, _, keep.latest_before lower upper ahead, back.symm⟩
  · exact ⟨early, _, keep.latest_within (by omega) upper (by simp) (Int.not_lt.mp ahead)
      fun _ => between, link.symm⟩
  · refine ⟨late, _, keep.latest_within (by omega) upper (by simp) (Int.not_lt.mp between) ?_, rfl⟩
    rintro rfl
    exact absurd (keep.ordered_pair (yearOf n).number (by omega) upper) (Int.lt_irrefl _)

end Pair

end KeepYears

/-- Where transitions keep to their years, the offset of an instant is the one that the latest
transition left. -/
theorem Timeline.offsetAtUtc_follows_latest {zone : Tzif.PosixZone} {rules : List AnnualRule}
    {offset n : Int} {timeline : Timeline} (saving : zone.daylight.isSome)
    (ruled : zone.rules = .ok rules)
    (built : ofDescription (.table ⟨[], [offset], rules⟩) = .ok timeline) (keep : KeepYears rules)
    (lower : 1680 ≤ (yearOf n).number) (upper : (yearOf n).number ≤ 2260) :
    ∃ rule number, LatestTransition rules n rule number ∧ timeline.offsetAtUtc n = rule.after := by
  obtain ⟨early, late, rfl, link, back⟩ := Tzif.PosixZone.rules_eq_pair saving ruled
  obtain ⟨-, rfl⟩ := ofDescription_table_eq_ok built (by simp)
  exact keep.offsetAtUtc_eq (n := n) (h := TransitionTable.history ⟨[], [offset], [early, late]⟩)
    (congrArg (· * nsPerSecond) back) (congrArg (· * nsPerSecond) link) rfl rfl (by omega) (by omega)

theorem AnnualRule.Seasonal.utcTransition_near {rule : AnnualRule} (seasonal : rule.Seasonal)
    {number : Int} (lower : 1678 ≤ number) (upper : number ≤ 2261) :
    rule.approximate number - 11 * nsPerDay ≤ rule.utcTransition (Year.of number) ∧
      rule.utcTransition (Year.of number) ≤ rule.approximate number + 11 * nsPerDay := by
  have near := seasonal.localTransition_near lower upper
  have before := seasonal.before
  have inYear := (seasonal.staysIn lower upper).instant
  have fits : Representable (rule.window (Year.of number)).instant :=
    representable_of_year (by omega) (by omega)
  have exact : rule.utcTransition (Year.of number)
      = rule.localTransition (Year.of number) - rule.before := clamp_of_representable fits
  rw [exact, AnnualRule.before]
  simp only [nsPerDay, nsPerHour, nsPerMinute, nsPerSecond] at near ⊢
  omega

/-- Rules of seasons at least 24 days apart keep to their years. -/
theorem KeepYears.of_seasons {early late : AnnualRule} (first : early.Seasonal)
    (second : late.Seasonal) (gap : early.approximateYearDay + 24 ≤ late.approximateYearDay) :
    KeepYears [early, late] where
  inYear := by
    intro rule member number lower upper
    rcases List.mem_pair.mp member with rfl | rfl
    · have near := first.utcTransition_near lower upper
      exact first.yearOf_near (by omega) (by omega)
    · have near := second.utcTransition_near lower upper
      exact second.yearOf_near (by omega) (by omega)
  ordered := by
    intro number lower upper
    have ended := (first.utcTransition_near lower upper).2
    have begun := (second.utcTransition_near lower upper).1
    unfold AnnualRule.approximate at ended begun
    simp only [nsPerDay, nsPerHour, nsPerMinute, nsPerSecond] at ended begun
    simp
    omega

/-- Daylight saving time from the second Sunday of March to the first one of November, five hours
behind Greenwich. -/
def marchToNovember : Tzif.PosixZone where
  offset := 18000
  daylight := some
    { offset := 14400
      start := ⟨.weekdayOfMonth 3 2 0, 7200⟩
      finish := ⟨.weekdayOfMonth 11 1 0, 7200⟩ }

/-- On New Year of 2024 the transition of November 2023 is the latest one. -/
theorem Timeline.offsetAtUtc_follows_november :
    ∃ timeline, ofDescription (.table ⟨[], [-18000],
        [secondSundayOfMarch, firstSundayOfNovember]⟩) = .ok timeline ∧
      ∃ rule number, LatestTransition [secondSundayOfMarch, firstSundayOfNovember]
        (1704067200 * nsPerSecond) rule number ∧
        timeline.offsetAtUtc (1704067200 * nsPerSecond) = rule.after := by
  have ruled : marchToNovember.rules = .ok [secondSundayOfMarch, firstSundayOfNovember] := by rfl
  have keep : KeepYears [secondSundayOfMarch, firstSundayOfNovember] := by
    apply KeepYears.of_seasons <;> first | decide | constructor <;> decide
  refine ⟨_, rfl, ?_⟩
  have saving : marchToNovember.daylight.isSome := rfl
  exact Timeline.offsetAtUtc_follows_latest saving ruled rfl keep (by decide) (by decide)

/-- Ten hours ahead of Greenwich, and eleven from the first of January to the first of July. -/
def newYearToJuly : Tzif.PosixZone where
  offset := -36000
  daylight := some { offset := -39600, start := ⟨.commonDay 1, 0⟩, finish := ⟨.commonDay 182, 0⟩ }

/-- The transition of a rule for the midnight that begins a month, on the UTC clock. -/
theorem utcTransition_firstOfMonth {month : Nat} {number before : Int}
    (inYear : daysBeforeMonth (isLeapYear number) month ≤ 365) (after standard : Int)
    (near : -86400 ≤ before ∧ before ≤ 86400) (lower : 1678 ≤ number) (upper : number ≤ 2261) :
    ((⟨month, 1, none⟩ : Tzif.RuleDay).rule 0 before after standard).utcTransition (Year.of number)
      = ((Year.of number).firstDay + daysBeforeMonth (isLeapYear number) month) * nsPerDay
        - before * nsPerSecond := by
  let parts : Tzif.RuleDay := ⟨month, 1, none⟩
  have day : parts.epochDay (Year.of number)
      = (Year.of number).firstDay + daysBeforeMonth (isLeapYear number) month := by
    rw [Tzif.RuleDay.epochDay_of_pos (by simp only [parts]; omega)
      ((Year.of number).firstDay + daysBeforeMonth (isLeapYear number) month)
      (by simp only [parts]; omega)]
    rfl
  have localTime := parts.localTransition_rule before after standard lower upper (by omega)
    (by omega) (show -(7 * Tzif.secondsPerDay) ≤ 0 ∧ 0 ≤ 7 * Tzif.secondsPerDay by decide)
  have fits := representable_near_year
    ((Year.of number).firstDay + daysBeforeMonth (isLeapYear number) month)
    (-(before * nsPerSecond)) lower upper (by omega) (by omega)
    (by simp only [nsPerDay, nsPerHour, nsPerMinute, nsPerSecond]; omega)
  rw [AnnualRule.utcTransition, localTime, day, Int.zero_mul, Int.add_zero]
  exact clamp_of_representable fits

/-- Days less than a year apart from the starts of two years tell the years apart. -/
theorem eq_of_near_firstDay {number year : Int}
    (near : -365 < (Year.of number).firstDay - (Year.of year).firstDay ∧
      (Year.of number).firstDay - (Year.of year).firstDay < 365) : number = year := by
  have later {a b : Int} (before : a < b) :
      (Year.of a).firstDay + 365 ≤ (Year.of b).firstDay := by
    have next := Year.firstDay_succ a
    have ordered := Year.firstDay_le_iff.mpr (Int.add_one_le_of_lt before)
    simp only [yearLength] at next
    split at next <;> omega
  rcases Int.lt_trichotomy number year with before | same | behind
  · have apart := later before
    omega
  · exact same
  · have apart := later behind
    omega

/-- The first transition of 2024 is on December 31st of 2023 on the UTC clock, and the look-up of an
instant of that day by its own year misses it. Looked up by the local time that clocks show then, it
is not missed. -/
theorem Timeline.offsetAtUtc_misses_new_year :
    ∃ (early late : AnnualRule) (timeline : Timeline),
      newYearToJuly.rules = .ok [early, late] ∧
      ofDescription (.table ⟨[], [36000], [early, late]⟩) = .ok timeline ∧
      (∀ rule ∈ [early, late], ∀ other ∈ [early, late], ∀ number year,
        1678 ≤ number → number ≤ 2261 → 1678 ≤ year → year ≤ 2261 →
        rule.utcTransition (Year.of number) = other.utcTransition (Year.of year) →
          rule = other ∧ number = year) ∧
      LatestTransition [early, late] (1704052800 * nsPerSecond) early 2024 ∧
      timeline.offsetAtUtc (1704052800 * nsPerSecond) ≠ early.after ∧
      timeline.offsetAtLocal (1704052800 * nsPerSecond + early.after) = early.after := by
  let early := (⟨1, 1, none⟩ : Tzif.RuleDay).rule 0 36000 39600 36000
  let late := (⟨7, 1, none⟩ : Tzif.RuleDay).rule 0 39600 36000 36000
  have july (leap : Bool) : 181 ≤ daysBeforeMonth leap 7 ∧ daysBeforeMonth leap 7 ≤ 182 := by
    cases leap <;> decide
  have starts (number : Int) (lower : 1678 ≤ number) (upper : number ≤ 2261) :
      early.utcTransition (Year.of number)
        = (Year.of number).firstDay * nsPerDay - 36000 * nsPerSecond := by
    have january : daysBeforeMonth (isLeapYear number) 1 = 0 := rfl
    have inYear : daysBeforeMonth (isLeapYear number) 1 ≤ 365 := Nat.zero_le 365
    have first := utcTransition_firstOfMonth inYear 39600 36000
      (show (-86400 : Int) ≤ 36000 ∧ (36000 : Int) ≤ 86400 by decide) lower upper
    simpa [january] using first
  have ends (number : Int) (lower : 1678 ≤ number) (upper : number ≤ 2261) :
      late.utcTransition (Year.of number)
        = ((Year.of number).firstDay + daysBeforeMonth (isLeapYear number) 7) * nsPerDay
          - 39600 * nsPerSecond :=
    utcTransition_firstOfMonth (Nat.le_trans (july _).2 (by decide)) 36000 36000
      (show (-86400 : Int) ≤ 39600 ∧ (39600 : Int) ≤ 86400 by decide) lower upper
  have first : (Year.of 2024).firstDay = 19723 := by decide
  refine ⟨early, late, _, rfl, rfl, ?_, ⟨by simp, by decide, ?_, ?_⟩, by decide, by decide⟩
  -- The two rules switch at different hours of the day on the UTC clock.
  · intro rule member other side number year lower upper begun ended same
    have summer := july (isLeapYear number)
    have other := july (isLeapYear year)
    rcases List.mem_pair.mp member with rfl | rfl <;> rcases List.mem_pair.mp side with rfl | rfl
    · rw [starts number lower upper, starts year begun ended] at same
      simp only [nsPerDay, nsPerHour, nsPerMinute, nsPerSecond] at same
      exact ⟨rfl, eq_of_near_firstDay (by omega)⟩
    · rw [starts number lower upper, ends year begun ended] at same
      simp only [nsPerDay, nsPerHour, nsPerMinute, nsPerSecond] at same
      omega
    · rw [ends number lower upper, starts year begun ended] at same
      simp only [nsPerDay, nsPerHour, nsPerMinute, nsPerSecond] at same
      omega
    · rw [ends number lower upper, ends year begun ended] at same
      simp only [nsPerDay, nsPerHour, nsPerMinute, nsPerSecond] at same
      exact ⟨rfl, eq_of_near_firstDay (by omega)⟩
  · rw [starts 2024 (by decide) (by decide), first]
    decide
  · intro other side year begun ended reached
    rw [starts 2024 (by decide) (by decide), first]
    have summer := july (isLeapYear year)
    rcases List.mem_pair.mp side with rfl | rfl
    · rw [starts year begun ended] at reached ⊢
      simp only [nsPerDay, nsPerHour, nsPerMinute, nsPerSecond] at reached ⊢
      omega
    · rw [ends year begun ended] at reached ⊢
      simp only [nsPerDay, nsPerHour, nsPerMinute, nsPerSecond] at reached ⊢
      omega

end Zone
end CivilTime
