import CivilTime.Calendar.Rounding
import CivilTime.Proofs.Calendar.Units
import CivilTime.Proofs.Instants

/-!
# Rounding to units

Rounding down computes the start of the interval that holds the instant, by four algorithms with one
result. Rounding up computes the end of that interval, for weeks, months and years from the date and
for the other units from the start. On that way the start itself has to fit in 64 bits, so in the
first day of the range a unit can be refused although its end is an instant. The end of the day has
an operation of its own that goes by the date and refuses nothing more than it has to.
-/
namespace CivilTime

variable {n : Int}

/-! ### Units of one length other than the week -/

section Multiples

variable {unit : FixedUnit}

theorem FixedUnit.origin_of_ne_week (other : unit ≠ .week) : unit.origin = 0 := by
  cases unit with
  | week => exact absurd rfl other
  | _ => rfl

theorem floorTo_multiple (other : unit ≠ .week) :
    floorTo n (.fixed unit) = floorToMultiple n unit.length := by
  cases unit with
  | week => exact absurd rfl other
  | _ => rfl

theorem ceilTo_multiple (other : unit ≠ .week) :
    ceilTo n (.fixed unit) = ceilToMultiple n unit.length := by
  cases unit with
  | week => exact absurd rfl other
  | _ => rfl

theorem FixedUnit.length_le_day (other : unit ≠ .week) : unit.length ≤ nsPerDay := by
  cases unit with
  | week => exact absurd rfl other
  | _ => decide

theorem start_multiple (other : unit ≠ .week) :
    (TimeUnit.fixed unit).start ((TimeUnit.fixed unit).number n) = n - n % unit.length := by
  have parts := Int.ediv_mul_add_emod n unit.length
  rw [TimeUnit.start, TimeUnit.number, unit.origin_of_ne_week other, Int.sub_zero]
  omega

theorem lastOf_fixed :
    (TimeUnit.fixed unit).lastOf n
      = (TimeUnit.fixed unit).start ((TimeUnit.fixed unit).number n) + (unit.length - 1) := by
  rw [TimeUnit.lastOf, TimeUnit.start, TimeUnit.start, Int.add_mul]
  omega

end Multiples

/-! ### Rounding down -/

/-- The Monday that the weekday leads back to is the one that starts the week. -/
theorem monday_eq_start (n : Int) :
    previousOrSameWeekday (epochDay n) 1 * nsPerDay
      = (TimeUnit.fixed .week).start ((TimeUnit.fixed .week).number n) := by
  simp only [previousOrSameWeekday, weekdayOfDay, epochDay, TimeUnit.start, TimeUnit.number,
    FixedUnit.length, FixedUnit.origin, nsPerWeek, nsPerDay, nsPerHour, nsPerMinute, nsPerSecond]
  omega

/-- Rounding down is the check of one count, whatever the unit. -/
theorem floorTo_eq (n : Int) (unit : TimeUnit) :
    floorTo n unit = asInstant (unit.start (unit.number n)) := by
  cases unit with
  | year =>
    change asInstant ((yearOf n).firstDay * nsPerDay + 0) = asInstant ((yearOf n).firstDay * nsPerDay)
    rw [Int.add_zero]
  | month =>
    change asInstant (_ * nsPerDay + 0) = _
    rw [DateTime.toDay_firstOfMonth, Int.add_zero]
    rfl
  | fixed unit =>
    by_cases week : unit = .week
    -- Only the week does not start at multiples of its length.
    · rw [week, ← monday_eq_start]
      change asInstant (_ * nsPerDay + 0) = _
      rw [Int.add_zero]
    · rw [floorTo_multiple week, start_multiple week, floorToMultiple]

/-- Rounding down gives the greatest start of a unit up to the instant and fails if that is before
the range of instants. Hence it changes nothing a second time, and keeps the order. -/
theorem floorTo_greatest_start {n : Int} (instant : IsInstant n) (unit : TimeUnit) :
    (∃ start, IsGreatest {s | StartsUnit s unit ∧ s ≤ n} start ∧
      (minNanos < start → floorTo n unit = .ok start) ∧
      (start ≤ minNanos → FailsOutOfRange (floorTo n unit))) ∧
    (∀ s, floorTo n unit = .ok s → floorTo s unit = .ok s) ∧
    ∀ m, IsInstant m → n ≤ m →
      ∀ s t, floorTo n unit = .ok s → floorTo m unit = .ok t → s ≤ t := by
  have connection := unit.start_number_connection
  refine ⟨⟨_, unit.isGreatest_start n, ?_, ?_⟩, ?_, ?_⟩
  · intro above
    rw [floorTo_eq, asInstant_eq_ok_iff]
    exact ⟨⟨above, Int.le_trans (connection.l_u_le n) instant.2⟩, rfl⟩
  · intro below
    rw [floorTo_eq]
    exact failsOutOfRange_asInstant fun start => Int.not_lt.mpr below start.1
  · intro s floored
    rw [floorTo_eq, asInstant_eq_ok_iff] at floored ⊢
    obtain ⟨start, rfl⟩ := floored
    rw [connection.l_u_l_eq_l]
    exact ⟨start, rfl⟩
  · intro m _ ordered s t left right
    rw [floorTo_eq, asInstant_eq_ok_iff] at left right
    rw [← left.2, ← right.2]
    exact connection.monotone_l (connection.monotone_u ordered)

/-- The week of the first instant starts too early. The first Monday of the range starts a week, is
its own start, and is before the Monday of the week that the epoch is in. -/
theorem floorTo_greatest_start_near_range :
    IsInstant (minNanos + 1) ∧ FailsOutOfRange (floorTo (minNanos + 1) (.fixed .week)) ∧
      IsInstant (-9222854399999999999) ∧ IsInstant 0 ∧ (-9222854399999999999 : Int) ≤ 0 ∧
      floorTo (-9222854399999999999) (.fixed .week) = .ok (-9222854400000000000) ∧
      floorTo (-9222854400000000000) (.fixed .week) = .ok (-9222854400000000000) ∧
      floorTo 0 (.fixed .week) = .ok (-259200000000000) ∧
      (-9222854400000000000 : Int) ≤ -259200000000000 := by
  have first : IsInstant (minNanos + 1) := by decide
  have monday : IsInstant (-9222854399999999999) := by decide
  have epoch : IsInstant 0 := by decide
  have ordered : (-9222854399999999999 : Int) ≤ 0 := by decide
  have floored : floorTo (-9222854399999999999) (.fixed .week) = .ok (-9222854400000000000) := rfl
  have origin : floorTo 0 (.fixed .week) = .ok (-259200000000000) := rfl
  obtain ⟨⟨start, greatest, -, refused⟩, -⟩ := floorTo_greatest_start first (.fixed .week)
  obtain ⟨-, again, mono⟩ := floorTo_greatest_start monday (.fixed .week)
  have early : start = -9223459200000000000 := greatest.unique (TimeUnit.isGreatest_start _ _)
  exact ⟨first, refused (by rw [early]; decide), monday, epoch, ordered, floored, again _ floored,
    origin, mono 0 epoch ordered _ _ floored origin⟩

/-! ### Rounding up -/

/-- The operation gives the last nanosecond of the unit that holds the count, which is followed by
the next start of a unit. If it is no instant, the operation fails with an error of the range
kind. -/
def RoundsUp (n : Int) (unit : TimeUnit) (result : Except TimeError Int) : Prop :=
  ∃ last, IsLeast {s | StartsUnit s unit ∧ n < s} (last + 1) ∧ GivesExactly result last

theorem roundsUp_iff {unit : TimeUnit} {result : Except TimeError Int} :
    RoundsUp n unit result ↔ GivesExactly result (unit.lastOf n) := by
  have next := unit.isLeast_start n
  constructor
  · rintro ⟨last, least, exact⟩
    have same : last = unit.lastOf n := by
      rw [TimeUnit.lastOf, ← least.unique next, Int.add_sub_cancel]
    rwa [← same]
  · intro exact
    refine ⟨_, ?_, exact⟩
    rwa [TimeUnit.lastOf, Int.sub_add_cancel]

theorem RoundsUp.of_eq {unit : TimeUnit} {result : Except TimeError Int}
    (same : result = asInstant (unit.lastOf n)) : RoundsUp n unit result := by
  rw [roundsUp_iff, same]
  exact .asInstant _

theorem ceilYear_eq (instant : IsInstant n) : ceilYear n = asInstant (TimeUnit.year.lastOf n) := by
  have bounds := instant.yearOf_bounds
  rw [ceilYear, endOfYear, if_pos (by unfold maxYear; omega)]
  rfl

theorem ceilMonth_eq (n : Int) : ceilMonth n = asInstant (TimeUnit.month.lastOf n) := by
  have civil := DateTime.isCivil_ofInstant n
  have first := DateTime.toDay_firstOfMonth n
  have length : lengthOfMonth (DateTime.ofInstant n).monthNumber
      = daysInMonth (Date.ofDay (epochDay n)).year.leap (Date.ofDay (epochDay n)).month := by
    rw [lengthOfMonth, civil.monthNumber_div, civil.monthNumber_mod]
    rfl
  rw [Date.toDay] at first
  rw [ceilMonth, instantOfDay, TimeUnit.lastOf, TimeUnit.start, TimeUnit.number,
    firstDayOfMonth_succ, ← first, length, Date.toDay]
  simp only [nsPerDay, nsPerHour, nsPerMinute, nsPerSecond]
  congr 1
  omega

theorem ceilWeek_eq (n : Int) : ceilWeek n = asInstant ((TimeUnit.fixed .week).lastOf n) := by
  rw [ceilWeek, instantOfDay, lastOf_fixed, ← monday_eq_start, Int.add_mul]
  congr 1
  simp only [FixedUnit.length, nsPerWeek]
  omega

theorem ceilDay_eq (n : Int) : ceilDay n = asInstant ((TimeUnit.fixed .day).lastOf n) := by
  have start := start_multiple (n := n) (show FixedUnit.day ≠ .week from nofun)
  rw [ceilDay, instantOfDay, lastOf_fixed, start]
  congr 1
  simp only [epochDay, FixedUnit.length, nsPerDay, nsPerHour, nsPerMinute, nsPerSecond]
  omega

/-- The end of the unit is computed from the date, or from a start that fits in 64 bits. -/
def ReachesEnd (n : Int) (unit : TimeUnit) : Prop :=
  unit ∈ [.year, .month, .fixed .week] ∨ minNanos ≤ unit.start (unit.number n)

section Ends

variable {unit : TimeUnit}

theorem ceilTo_of_reaches (instant : IsInstant n) (reaches : ReachesEnd n unit) :
    ceilTo n unit = asInstant (unit.lastOf n) := by
  cases unit with
  | year => exact ceilYear_eq instant
  | month => exact ceilMonth_eq n
  | fixed unit =>
    by_cases week : unit = .week
    · rw [week]
      exact ceilWeek_eq n
    · have fits : minNanos ≤ (TimeUnit.fixed unit).start ((TimeUnit.fixed unit).number n) := by
        simpa [ReachesEnd, week] using reaches
      have reached := (TimeUnit.fixed unit).start_number_connection.l_u_le n
      rw [lastOf_fixed, start_multiple week] at *
      rw [ceilTo_multiple week, ceilToMultiple,
        if_pos ⟨fits, Int.le_trans reached instant.2⟩]

/-- Where the start is too early, the unit has one length of at most a day, so it ends in the first
day of the range. -/
theorem ceilTo_of_not_reaches (instant : IsInstant n) (early : ¬ ReachesEnd n unit) :
    ceilTo n unit = fail .instantOutOfRange ∧ IsInstant (unit.lastOf n) ∧
      n < minNanos + nsPerDay := by
  rw [ReachesEnd, not_or, Int.not_le] at early
  obtain ⟨multiple, before⟩ := early
  cases unit with
  | year => simp at multiple
  | month => simp at multiple
  | fixed unit =>
    have other : unit ≠ .week := by
      rintro rfl
      simp at multiple
    have short := unit.length_le_day other
    have within := Int.emod_lt_of_pos n unit.length_pos
    have lower := instant.1
    rw [start_multiple other] at before
    have unfit : ¬ Representable (n - n % unit.length) := fun start => Int.not_le.mpr before start.1
    -- The end is less than a day behind a start below the range, and not before the instant.
    rw [lastOf_fixed, start_multiple other, ceilTo_multiple other, ceilToMultiple, if_neg unfit]
    refine ⟨rfl, ?_⟩
    unfold IsInstant minNanos maxNanos at *
    simp only [nsPerDay, nsPerHour, nsPerMinute, nsPerSecond] at *
    exact ⟨⟨by omega, by omega⟩, by omega⟩

theorem roundsUp_ceilTo_iff (instant : IsInstant n) :
    RoundsUp n unit (ceilTo n unit) ↔ ReachesEnd n unit := by
  constructor
  · intro exact
    by_contra early
    obtain ⟨failed, last, -⟩ := ceilTo_of_not_reaches instant early
    have given := (roundsUp_iff.mp exact).count last
    rw [failed] at given
    cases given
  · intro reaches
    exact .of_eq (ceilTo_of_reaches instant reaches)

end Ends

/-- Rounding up gives the last nanosecond of the unit, unless the unit is one of a single length
that starts before the range. Then it is refused although that nanosecond is an instant, which
happens in the first day of the range only. Rounding up to the ends of days, months and years by
themselves is always exact, and agrees with the general operation but for these days. -/
theorem ceilTo_exact_iff {n : Int} (instant : IsInstant n) (unit : TimeUnit) :
    (RoundsUp n unit (ceilTo n unit) ↔ ReachesEnd n unit) ∧
    (¬ RoundsUp n unit (ceilTo n unit) →
      ceilTo n unit = fail .instantOutOfRange ∧ IsInstant (unit.lastOf n) ∧
        n < minNanos + nsPerDay) ∧
    (RoundsUp n (.fixed .day) (ceilDay n) ∧ RoundsUp n .month (ceilMonth n) ∧
      RoundsUp n .year (ceilYear n)) ∧
    ceilTo n .month = ceilMonth n ∧ ceilTo n .year = ceilYear n ∧
    (ceilTo n (.fixed .day) = ceilDay n ↔ ReachesEnd n (.fixed .day)) := by
  refine ⟨roundsUp_ceilTo_iff instant, ?_, ⟨.of_eq (ceilDay_eq n), .of_eq (ceilMonth_eq n),
    .of_eq (ceilYear_eq instant)⟩, rfl, rfl, ?_⟩
  · intro inexact
    rw [roundsUp_ceilTo_iff instant] at inexact
    exact ceilTo_of_not_reaches instant inexact
  · rw [ceilDay_eq]
    constructor
    · intro same
      exact (roundsUp_ceilTo_iff instant).mp (.of_eq same)
    · intro reaches
      exact ceilTo_of_reaches instant reaches

/-- The first instant is in a year that starts before the range and is still rounded up to its end,
while the general operation is not exact for the day. -/
theorem ceilTo_exact_in_first_year :
    IsInstant (minNanos + 1) ∧ RoundsUp (minNanos + 1) .year (ceilTo (minNanos + 1) .year) ∧
      RoundsUp (minNanos + 1) (.fixed .day) (ceilDay (minNanos + 1)) ∧
      ceilTo (minNanos + 1) (.fixed .day) ≠ ceilDay (minNanos + 1) := by
  have instant : IsInstant (minNanos + 1) := by decide
  have early : ¬ ReachesEnd (minNanos + 1) (.fixed .day) := by
    unfold ReachesEnd
    decide
  obtain ⟨exact, -, ⟨day, -⟩, -, -, agree⟩ := ceilTo_exact_iff instant .year
  exact ⟨instant, exact.mpr (.inl (by decide)), day, fun same => early (agree.mp same)⟩

/-- The day of the first instant ends at an instant, which the operation for days gives and the
general one refuses. -/
theorem ceilTo_refuses_first_day :
    IsInstant (minNanos + 1) ∧ ceilDay (minNanos + 1) = .ok (-9223286400000000001) ∧
      ceilTo (minNanos + 1) (.fixed .day) = fail .instantOutOfRange ∧
      ¬ RoundsUp (minNanos + 1) (.fixed .day) (ceilTo (minNanos + 1) (.fixed .day)) := by
  have refused : ceilTo (minNanos + 1) (.fixed .day) = fail .instantOutOfRange := rfl
  refine ⟨by decide, rfl, refused, fun exact => ?_⟩
  have given := (roundsUp_iff.mp exact).count (by decide)
  rw [refused] at given
  cases given

end CivilTime
