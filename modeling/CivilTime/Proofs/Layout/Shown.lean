import CivilTime.Proofs.Layout.Items

/-!
# What fields give back

Fields that hold what items show of an instant give back those parts of it, and the least value of
every other part. Items that show all parts give back the instant.
-/
namespace CivilTime

/-- The value of a field that the items show, or else `least`. -/
def shownNumber (items : List Item) (n : Int) (field : NumberField) (least : Nat) : Nat :=
  if Shows items (.number field) then field.value n else least

/-- The hour that the items show. Without the half of the day, hours of half a day are those of the
morning; the half of the day alone stands for its first hour. -/
def shownHour (items : List Item) (n : Int) : Nat :=
  match lastCycle items with
  | some cycle => if cycle.length = 24 ∨ Shows items .halfOfDay then hourOf n else hourOf n % 12
  | none => if Shows items .halfOfDay ∧ 12 ≤ hourOf n then 12 else 0

/-- The date and time that items with a year show of an instant. -/
def DateTime.shown (items : List Item) (n : Int) : DateTime where
  year := (yearOf n).number
  month := shownNumber items n .month 1
  day := shownNumber items n .day 1
  hour := shownHour items n
  minute := shownNumber items n .minute 0
  second := shownNumber items n .second 0
  nanosecond := shownNumber items n .millisecond 0 * 1000000
    + shownNumber items n .microsecond 0 * 1000 + shownNumber items n .nanosecond 0

/-- The items show every part of the date and the time, the hour in full. -/
structure Complete (items : List Item) : Prop where
  year : Shows items .year
  number : ∀ field, Shows items (.number field)
  hour : ∃ cycle, lastCycle items = some cycle ∧ (cycle.length = 24 ∨ Shows items .halfOfDay)

section Bounds

variable {items : List Item} {n : Int} {field : NumberField} {least greatest : Nat}

theorem least_le_shownNumber (lower : least ≤ field.value n) :
    least ≤ shownNumber items n field least := by
  unfold shownNumber
  split
  · exact lower
  · exact Nat.le_refl least

theorem shownNumber_le (lower : least ≤ greatest) (upper : field.value n ≤ greatest) :
    shownNumber items n field least ≤ greatest := by
  unfold shownNumber
  split
  · exact upper
  · exact lower

theorem one_le_shown_day (items : List Item) (n : Int) : 1 ≤ shownNumber items n .day 1 := by
  apply least_le_shownNumber
  rw [NumberField.value, DateTime.dayOfMonth_eq]
  exact (DateTime.isCivil_ofInstant n).one_le_day

/-- The day is one of the month shown, also where January stands for a month that is not. -/
theorem shown_day_le (items : List Item) (n : Int) :
    shownNumber items n .day 1
      ≤ daysInMonth (isLeapYear (yearOf n).number) (shownNumber items n .month 1) := by
  have civil := DateTime.isCivil_ofInstant n
  have day : NumberField.day.value n = (DateTime.ofInstant n).day := DateTime.dayOfMonth_eq n
  by_cases month : Shows items (.number .month)
  · have shown : shownNumber items n .month 1 = NumberField.month.value n := if_pos month
    rw [shown]
    apply shownNumber_le _ (day ▸ civil.day_le)
    exact Nat.le_trans civil.one_le_day civil.day_le
  · have shown : shownNumber items n .month 1 = 1 := if_neg month
    have january : daysInMonth (isLeapYear (yearOf n).number) 1 = 31 := by
      cases isLeapYear (yearOf n).number <;> rfl
    rw [shown, january]
    apply shownNumber_le (by decide)
    rw [day]
    exact Nat.le_trans civil.day_le (daysInMonth_le _ _)

theorem shownHour_le (items : List Item) (n : Int) : shownHour items n ≤ 23 := by
  have hour : hourOf n ≤ 23 := (DateTime.isCivil_ofInstant n).hour_le
  unfold shownHour
  split
  · split <;> omega
  · split <;> omega

theorem shown_subsecond_le (items : List Item) (n : Int) :
    shownNumber items n .millisecond 0 ≤ 999 ∧ shownNumber items n .microsecond 0 ≤ 999 ∧
      shownNumber items n .nanosecond 0 ≤ 999 := by
  obtain ⟨millis, micros, nanos⟩ := DateTime.subsecond_lt n
  exact ⟨shownNumber_le (by decide) (Nat.le_of_lt_succ millis),
    shownNumber_le (by decide) (Nat.le_of_lt_succ micros),
    shownNumber_le (by decide) (Nat.le_of_lt_succ nanos)⟩

theorem DateTime.isCivil_shown (items : List Item) (n : Int) : (DateTime.shown items n).IsCivil := by
  have civil := isCivil_ofInstant n
  constructor
  case one_le_month => exact least_le_shownNumber civil.one_le_month
  case month_le => exact shownNumber_le (by decide) civil.month_le
  case one_le_day => exact one_le_shown_day items n
  case day_le => exact shown_day_le items n
  case hour_le => exact shownHour_le items n
  case minute_le => exact shownNumber_le (by decide) civil.minute_le
  case second_le => exact shownNumber_le (by decide) civil.second_le
  case nanosecond_lt =>
    have subsecond := shown_subsecond_le items n
    simp only [shown]
    omega

/-- A month and a day make up the date. -/
theorem DateTime.date_shown (month : Shows items (.number .month))
    (day : Shows items (.number .day)) : (shown items n).date = (ofInstant n).date := by
  simp only [shown, shownNumber, if_pos month, if_pos day, NumberField.value, dayOfMonth_eq, date]
  rfl

theorem DateTime.shown_of_complete (complete : Complete items) (n : Int) :
    DateTime.shown items n = ofInstant n := by
  obtain ⟨cycle, last, full⟩ := complete.hour
  simp only [shown, shownNumber, shownHour, complete.number, if_true, last, if_pos full,
    NumberField.value, dayOfMonth_eq, nanosOfSecond_eq]
  rfl

end Bounds

namespace Fields.Hold

variable {fields : Fields} {n : Int} {items : List Item}

theorem yearNumber_eq (h : fields.Hold n items) (fourDigits : FourDigitYear n)
    (shown : Shows items .year) : fields.yearNumber = .ok (yearOf n).number := by
  obtain ⟨lower, upper⟩ := fourDigits
  have held := h.year
  rw [if_pos shown, Option.map_eq_some_iff] at held
  obtain ⟨read, found, value⟩ := held
  have inRange : IsYear (yearOf n).number := by
    simp only [IsYear, minYear, maxYear]
    omega
  simp [Fields.yearNumber, found, h.era, value, inRange]

theorem part_shown (h : fields.Hold n items) {field : NumberField} {least greatest : Nat}
    (lower : least ≤ shownNumber items n field least)
    (upper : shownNumber items n field least ≤ greatest) :
    fields.part field least greatest = .ok (shownNumber items n field least) := by
  have held := h.number field
  unfold shownNumber at lower upper ⊢
  split at held
  · next shown =>
    obtain ⟨read, found, value⟩ := Option.map_eq_some_iff.mp held
    simp only [if_pos shown] at lower upper ⊢
    simp [Fields.part, found, value, lower, upper]
  · next hidden =>
    rw [if_neg hidden, Fields.part, Option.map_eq_none_iff.mp held]

/-- The hour of the day is the one of the cycle, moved to the second half of the day where the
label says so and the cycle leaves it open. -/
theorem hourOfDay_shown (h : fields.Hold n items) : fields.hourOfDay = .ok (shownHour items n) := by
  have hour : hourOf n ≤ 23 := (DateTime.isCivil_ofInstant n).hour_le
  have held := h.hour
  have pm := h.pm
  cases last : lastCycle items with
  | none =>
    rw [last, Option.map_none, Option.map_eq_none_iff] at held
    have alone : (fields.pm = some true) ↔ (Shows items .halfOfDay ∧ 12 ≤ hourOf n) := by
      rw [pm]
      by_cases shown : Shows items .halfOfDay <;> simp [shown]
    simp only [Fields.hourOfDay, held, shownHour, last, alone]
  | some cycle =>
    rw [last, Option.map_some, Option.map_eq_some_iff] at held
    obtain ⟨⟨other, read⟩, found, same⟩ := held
    obtain ⟨equal, value⟩ := Prod.mk.inj same
    rw [show other = cycle from equal] at found
    -- The number read is the hour within the cycle, and the label, if read, the half of the day.
    have moved : (if (fields.pm == some true
          && (cycle.length == 12 || decide (read.value < 12))) = true
        then read.value + 12 else read.value) = shownHour items n := by
      simp only [shownHour, last]
      rw [value, pm]
      rcases cycle.length_eq with half | whole
      · have split : hourOf n % 12 = if 12 ≤ hourOf n then hourOf n - 12 else hourOf n := by
          split <;> omega
        by_cases shown : Shows items .halfOfDay
        · by_cases afternoon : 12 ≤ hourOf n <;> simp [half, shown, afternoon, split]
        · simp [half, shown]
      -- A label cannot move an hour of the whole day that is past noon already.
      · have same : hourOf n % 24 = hourOf n := by omega
        by_cases shown : Shows items .halfOfDay
        · by_cases afternoon : 12 ≤ hourOf n <;> simp [whole, shown, afternoon, same]
        · simp [whole, shown, same]
    have inDay : (0 : Int) ≤ shownHour items n ∧ (shownHour items n : Int) ≤ 23 := by
      have := shownHour_le items n
      omega
    simp only [Fields.hourOfDay, found, moved, if_pos inDay, Int.toNat_natCast]

theorem dateTime_shown (h : fields.Hold n items) (fourDigits : FourDigitYear n)
    (year : Shows items .year) : fields.dateTime = .ok (DateTime.shown items n) := by
  have civil := DateTime.isCivil_shown items n
  have subsecond := shown_subsecond_le items n
  have year := h.yearNumber_eq fourDigits year
  have month := h.part_shown civil.one_le_month civil.month_le
  have day := h.part_shown (one_le_shown_day items n) (shown_day_le items n)
  have minute := h.part_shown (Nat.zero_le _) civil.minute_le
  have second := h.part_shown (Nat.zero_le _) civil.second_le
  have millisecond := h.part_shown (Nat.zero_le _) subsecond.1
  have microsecond := h.part_shown (Nat.zero_le _) subsecond.2.1
  have nanosecond := h.part_shown (Nat.zero_le _) subsecond.2.2
  simp only [Fields.dateTime, year, month, day, h.hourOfDay_shown, minute, second, millisecond,
    microsecond, nanosecond, bind, Except.bind, pure, Except.pure, DateTime.shown]

/-- With or without a zone the local time is the instant, as `Z` is the only zone written. -/
theorem instant_shown (h : fields.Hold n items) (instant : IsInstant n) (year : Shows items .year)
    (start : Nat) :
    ∃ position, fields.instant start = locate position (DateTime.shown items n).toInstant := by
  refine ⟨(fields.year.map (·.position)).getD start, ?_⟩
  simp only [Fields.instant, h.dateTime_shown instant.fourDigitYear year, bind, Except.bind]
  cases composed : (DateTime.shown items n).toInstant with
  | error e => rfl
  | ok m =>
    have fits : IsInstant m := by
      obtain ⟨-, fits, rfl⟩ := DateTime.toInstant_eq_ok_iff.mp composed
      exact fits
    cases found : fields.zone with
    | none => rfl
    | some zone =>
      have utc : zone.value = .offset 0 := by
        have held := h.zone
        rw [found] at held
        split at held
        · exact Option.some.inj held
        · cases held
      simp [locate, Except.mapError, utc, offsetAt, fits, pure, Except.pure]

end Fields.Hold
end CivilTime
