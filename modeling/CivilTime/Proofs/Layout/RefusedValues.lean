import CivilTime.Proofs.Layout.Exactness
import CivilTime.Proofs.Layout.Readers

/-!
# Values that are refused

Once a text is read, the fields are checked one after the other, then the local time that they give,
then the instant. Each error refuses the value that is held in one slot, for what that value is, and
takes the place that it was read from. A local time is refused for its year.
-/
namespace CivilTime

namespace Fields

/-- The bounds of a number, which for the day are those of the month. -/
inductive Limits (fields : Fields) : NumberField → Nat → Nat → Prop
  | month : Limits fields .month 1 12
  | day {year : Int} {month : Nat} (inRange : fields.yearNumber = .ok year)
      (inYear : fields.part .month 1 12 = .ok month) :
      Limits fields .day 1 (daysInMonth (isLeapYear year) month)
  | minute : Limits fields .minute 0 59
  | second : Limits fields .second 0 59
  | fraction {field : NumberField} (part : field ∈ [.millisecond, .microsecond, .nanosecond]) :
      Limits fields field 0 999

/-- What is held in the slot, from this position, is refused for this cause. -/
inductive Refuses (fields : Fields) : Slot → Cause → Nat → Prop
  | year {read : Located Int} (held : fields.year = some read)
      (outside : ¬ IsYear (if fields.beforeCommonEra then 1 - read.value else read.value)) :
      Refuses fields .year (.outOfRange .year) read.position
  | number {field : NumberField} {read : Located Int} {least greatest : Nat}
      (held : fields.number field = some read) (limits : fields.Limits field least greatest)
      (outside : ¬ ((least : Int) ≤ read.value ∧ read.value ≤ greatest)) :
      Refuses fields (.number field) (.outOfRange field.quantity) read.position
  /-- The hour, moved behind noon by its label. -/
  | hour {cycle : HourCycle} {read : Located Int} {hour : Int}
      (held : fields.hour = some (cycle, read))
      (moved : hour = if fields.pm = some true ∧ (cycle.length = 12 ∨ read.value < 12)
        then read.value + 12 else read.value)
      (outside : ¬ (0 ≤ hour ∧ hour ≤ 23)) : Refuses fields .hour (.outOfRange .hour) read.position
  /-- The year of a date and time that is no instant. -/
  | localTime {read : Located Int} {t : DateTime} (held : fields.year = some read)
      (given : fields.dateTime = .ok t) (outside : ¬ IsInstant t.count) :
      Refuses fields .year .instantOutOfRange read.position
  /-- The zone whose offset moves an instant out of the range. -/
  | zone {zone : Located ZoneReading} {t : DateTime} {localTime : Int}
      (held : fields.zone = some zone) (given : fields.dateTime = .ok t)
      (composed : t.toInstant = .ok localTime)
      (outside : ¬ IsInstant (localTime - offsetAt zone.value localTime t.year)) :
      Refuses fields .zone (.outOfRange .instant) zone.position

theorem Refuses.position?_eq {fields : Fields} {slot : Slot} {cause : Cause} {position : Nat}
    (refused : fields.Refuses slot cause position) : fields.position? slot = some position := by
  cases refused with
  | year held => rw [position?, held, Option.map_some]
  | number held => rw [position?, held, Option.map_some]
  | hour held => rw [position?, held, Option.map_some]
  | localTime held => rw [position?, held, Option.map_some]
  | zone held => rw [position?, held, Option.map_some]

theorem Refuses.kind_ne {fields : Fields} {slot : Slot} {cause : Cause} {position : Nat}
    (refused : fields.Refuses slot cause position) : cause.kind ≠ .trailingInput := by
  cases refused <;> exact nofun

/-- The error refuses what the fields hold in some slot. -/
def BlamesSlot (fields : Fields) (e : TimeError) : Prop :=
  ∃ slot cause position, fields.Refuses slot cause position ∧ e = ⟨cause, some position⟩

variable {fields : Fields} {e : TimeError}

theorem yearNumber_error (failed : fields.yearNumber = .error e) : fields.BlamesSlot e := by
  unfold yearNumber at failed
  split at failed
  next => cases failed
  next read held =>
    simp only at failed
    generalize shown : (if fields.beforeCommonEra then 1 - read.value else read.value) = year
      at failed
    split at failed
    next => cases failed
    next outside =>
      cases failed
      exact ⟨.year, _, read.position, .year held (shown ▸ outside), rfl⟩

theorem part_error {field : NumberField} {least greatest : Nat}
    (limits : fields.Limits field least greatest)
    (failed : fields.part field least greatest = .error e) : fields.BlamesSlot e := by
  unfold part at failed
  split at failed
  next => cases failed
  next read held =>
    split at failed
    next => cases failed
    next outside =>
      cases failed
      exact ⟨.number field, _, read.position, .number held limits outside, rfl⟩

theorem hourOfDay_error (failed : fields.hourOfDay = .error e) : fields.BlamesSlot e := by
  unfold hourOfDay at failed
  split at failed
  next => cases failed
  next cycle read held =>
    simp only at failed
    generalize moved : (if (fields.pm == some true &&
      (cycle.length == 12 || decide (read.value < 12))) = true
        then read.value + 12 else read.value) = hour at failed
    split at failed
    next => cases failed
    next outside =>
      cases failed
      have behindNoon : hour = if fields.pm = some true ∧ (cycle.length = 12 ∨ read.value < 12)
          then read.value + 12 else read.value := by simp [← moved]
      exact ⟨.hour, _, read.position, .hour held behindNoon outside, rfl⟩

theorem dateTime_error (failed : fields.dateTime = .error e) : fields.BlamesSlot e := by
  -- The parts are checked one after the other, so one check fails behind others that succeeded.
  rcases bind_eq_error_iff.mp failed with failed | ⟨year, inRange, failed⟩
  · exact yearNumber_error failed
  rcases bind_eq_error_iff.mp failed with failed | ⟨month, inYear, failed⟩
  · exact part_error .month failed
  rcases bind_eq_error_iff.mp failed with failed | ⟨day, -, failed⟩
  · exact part_error (.day inRange inYear) failed
  rcases bind_eq_error_iff.mp failed with failed | ⟨hour, -, failed⟩
  · exact hourOfDay_error failed
  rcases bind_eq_error_iff.mp failed with failed | ⟨minute, -, failed⟩
  · exact part_error .minute failed
  rcases bind_eq_error_iff.mp failed with failed | ⟨second, -, failed⟩
  · exact part_error .second failed
  rcases bind_eq_error_iff.mp failed with failed | ⟨millisecond, -, failed⟩
  · exact part_error (.fraction (by decide)) failed
  rcases bind_eq_error_iff.mp failed with failed | ⟨microsecond, -, failed⟩
  · exact part_error (.fraction (by decide)) failed
  rcases bind_eq_error_iff.mp failed with failed | ⟨nanosecond, -, failed⟩
  · exact part_error (.fraction (by decide)) failed
  · cases failed

theorem part_bounds {field : NumberField} {least greatest value : Nat} (bounds : least ≤ greatest)
    (read : fields.part field least greatest = .ok value) : least ≤ value ∧ value ≤ greatest := by
  unfold part at read
  split at read
  next =>
    cases read
    exact ⟨Nat.le_refl _, bounds⟩
  next found _ =>
    split at read
    next inside =>
      cases read
      omega
    next => cases read

theorem hourOfDay_le {hour : Nat} (read : fields.hourOfDay = .ok hour) : hour ≤ 23 := by
  unfold hourOfDay at read
  split at read
  next =>
    cases read
    split <;> decide
  next cycle found _ =>
    simp only at read
    generalize (if (fields.pm == some true &&
      (cycle.length == 12 || decide (found.value < 12))) = true
        then found.value + 12 else found.value) = moved at read
    split at read
    next inDay =>
      cases read
      exact Int.toNat_le.mpr inDay.2
    next => cases read

/-- The checks let only the parts of a civil date and time through. -/
theorem isCivil_dateTime {t : DateTime} (read : fields.dateTime = .ok t) : t.IsCivil := by
  obtain ⟨-, month, day, hour, minute, second, millis, micros, nanos, millisRead, microsRead,
    nanosRead, sum⟩ := dateTime_eq_ok read
  have inYear := part_bounds (by decide) month
  have some : 1 ≤ daysInMonth (isLeapYear t.year) t.month :=
    Nat.le_trans (by decide) (daysInMonth_ge _ inYear)
  have inMonth := part_bounds some day
  have inHour := part_bounds (by decide) minute
  have inMinute := part_bounds (by decide) second
  have subsecond := part_bounds (by decide) millisRead
  have submilli := part_bounds (by decide) microsRead
  have submicro := part_bounds (by decide) nanosRead
  constructor
  · exact inYear.1
  · exact inYear.2
  · exact inMonth.1
  · exact inMonth.2
  · exact hourOfDay_le hour
  · exact inHour.2
  · exact inMinute.2
  · omega

/-- Civil parts are refused for their year alone, so a year must have been read. -/
theorem year_of_outside {t : DateTime} (read : fields.dateTime = .ok t)
    (outside : ¬ IsInstant t.count) : ∃ found, fields.year = some found := by
  cases held : fields.year with
  | some found => exact ⟨found, rfl⟩
  | none =>
    have civil := isCivil_dateTime read
    have epoch : t.year = 1970 := by
      have year := (dateTime_eq_ok read).1
      simp only [yearNumber, held] at year
      exact (Except.ok.inj year).symm
    -- The instants of 1970 are all in range, and none is negative.
    have year : (yearOf t.count).number = 1970 := by
      have same := congrArg DateTime.year civil.ofInstant_count
      exact same.trans epoch
    have begun : (Year.of 1970).firstDay * nsPerDay ≤ t.count :=
      le_yearOf_iff.mp (Int.le_of_eq year.symm)
    have start : minNanos < (Year.of 1970).firstDay * nsPerDay := by decide
    have inRange := representable_of_year (n := t.count) (by omega) (by omega)
    exact absurd (isInstant_iff.mpr ⟨inRange, by omega⟩) outside

theorem instant_error {start : Nat} (failed : fields.instant start = .error e) :
    fields.BlamesSlot e := by
  rcases bind_eq_error_iff.mp failed with failed | ⟨t, read, failed⟩
  · exact dateTime_error failed
  rcases bind_eq_error_iff.mp failed with failed | ⟨localTime, located, failed⟩
  -- The parts are civil by now, so composition can only refuse the count.
  · obtain ⟨found, refused, rfl⟩ := locate_eq_error_iff.mp failed
    rw [(isCivil_dateTime read).toInstant_eq, asInstant] at refused
    split at refused
    next => cases refused
    next outside =>
      cases refused
      obtain ⟨year, held⟩ := year_of_outside read outside
      refine ⟨.year, _, year.position, .localTime held read outside, ?_⟩
      simp only [held, Option.map_some, Option.getD_some, TimeError.located]
  · split at failed
    next => cases failed
    next zone held =>
      simp only at failed
      split at failed
      next => cases failed
      next outside =>
        cases failed
        exact ⟨.zone, _, zone.position, .zone held read (locate_eq_ok_iff.mp located) outside, rfl⟩

end Fields
end CivilTime
