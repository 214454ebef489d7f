import CivilTime.Proofs.Calendar.Additions
import CivilTime.Proofs.Calendar.DayCounts

/-!
# Moves to a weekday

A date moves to the nearest date on a weekday, ahead or back, and an instant moves with its date and
keeps its time of day. Days are moved by themselves where rules name them, instants by adding days.
Counts at one time of day are in the order of their days, so both moves find the same date, and it
is the nearest one for the instant because it is the nearest one for the day.
-/
namespace CivilTime

/-! ### Days -/

section Days

variable {weekday : Nat}

theorem isLeast_nextOrSameWeekday (day : Int) (range : 1 ≤ weekday ∧ weekday ≤ 7) :
    IsLeast {other | day ≤ other ∧ weekdayOfDay other = weekday} (nextOrSameWeekday day weekday) := by
  obtain ⟨ahead, near, falls⟩ := (nextOrSameWeekday_eq_iff range).mp (Eq.refl _)
  refine ⟨⟨ahead, falls⟩, ?_⟩
  rintro other ⟨later, same⟩
  -- Days on one weekday are whole weeks apart.
  have alike : weekdayOfDay (nextOrSameWeekday day weekday) = weekdayOfDay other :=
    falls.trans same.symm
  unfold weekdayOfDay at alike
  omega

theorem isGreatest_previousOrSameWeekday (day : Int) (range : 1 ≤ weekday ∧ weekday ≤ 7) :
    IsGreatest {other | other ≤ day ∧ weekdayOfDay other = weekday}
      (previousOrSameWeekday day weekday) := by
  obtain ⟨near, back, falls⟩ := (previousOrSameWeekday_eq_iff range).mp (Eq.refl _)
  refine ⟨⟨back, falls⟩, ?_⟩
  rintro other ⟨earlier, same⟩
  have alike : weekdayOfDay (previousOrSameWeekday day weekday) = weekdayOfDay other :=
    falls.trans same.symm
  unfold weekdayOfDay at alike
  omega

end Days

/-! ### Counts at one time of day -/

section TimeOfDay

variable {m n : Int}

/-- The count on a day at the time of day of `n`. -/
def onDay (n day : Int) : Int := day * nsPerDay + timeOfDay n

theorem onDay_epochDay (n : Int) : onDay n (epochDay n) = n := Int.ediv_mul_add_emod n nsPerDay

theorem onDay_monotone (n : Int) : Monotone (onDay n) := by
  intro day other ordered
  simp only [onDay, nsPerDay, nsPerHour, nsPerMinute, nsPerSecond]
  omega

theorem onDay_add (n day days : Int) : onDay n (day + days) = onDay n day + days * nsPerDay := by
  rw [onDay, onDay]
  ring

@[simp]
theorem epochDay_onDay (n day : Int) : epochDay (onDay n day) = day := by
  simp only [epochDay, onDay, timeOfDay, nsPerDay, nsPerHour, nsPerMinute, nsPerSecond]
  omega

@[simp]
theorem timeOfDay_onDay (n day : Int) : timeOfDay (onDay n day) = timeOfDay n := by
  simp only [onDay, timeOfDay, nsPerDay, nsPerHour, nsPerMinute, nsPerSecond]
  omega

theorem onDay_of_timeOfDay (same : timeOfDay m = timeOfDay n) : onDay n (epochDay m) = m := by
  rw [onDay, ← same]
  exact onDay_epochDay m

/-- At one time of day, the days decide on the order. -/
theorem epochDay_le_iff (same : timeOfDay m = timeOfDay n) : epochDay m ≤ epochDay n ↔ m ≤ n := by
  constructor
  · intro ordered
    rw [← onDay_epochDay n, ← onDay_of_timeOfDay same]
    exact onDay_monotone n ordered
  · intro ordered
    exact Int.ediv_le_ediv (by decide) ordered

theorem image_onDay (n : Int) (days : Set Int) :
    onDay n '' days = {m | timeOfDay m = timeOfDay n ∧ epochDay m ∈ days} := by
  ext m
  constructor
  · rintro ⟨day, member, rfl⟩
    simpa using member
  · rintro ⟨same, member⟩
    exact ⟨epochDay m, member, onDay_of_timeOfDay same⟩

/-- The counts ahead on a weekday at one time of day, by their days. -/
theorem ahead_eq_image (n : Int) (weekday : Nat) :
    {m | n ≤ m ∧ timeOfDay m = timeOfDay n ∧ weekdayOf m = weekday}
      = onDay n '' {day | epochDay n ≤ day ∧ weekdayOfDay day = weekday} := by
  ext m
  rw [image_onDay, Set.mem_ofPred_eq, Set.mem_ofPred_eq, Set.mem_ofPred_eq, weekdayOf]
  constructor
  · rintro ⟨ahead, same, falls⟩
    exact ⟨same, (epochDay_le_iff same.symm).mpr ahead, falls⟩
  · rintro ⟨same, ahead, falls⟩
    exact ⟨(epochDay_le_iff same.symm).mp ahead, same, falls⟩

theorem back_eq_image (n : Int) (weekday : Nat) :
    {m | m ≤ n ∧ timeOfDay m = timeOfDay n ∧ weekdayOf m = weekday}
      = onDay n '' {day | day ≤ epochDay n ∧ weekdayOfDay day = weekday} := by
  ext m
  rw [image_onDay, Set.mem_ofPred_eq, Set.mem_ofPred_eq, Set.mem_ofPred_eq, weekdayOf]
  constructor
  · rintro ⟨back, same, falls⟩
    exact ⟨same, (epochDay_le_iff same).mpr back, falls⟩
  · rintro ⟨same, back, falls⟩
    exact ⟨(epochDay_le_iff same).mp back, same, falls⟩

/-- Adding days keeps the time of day. -/
theorem addDays_givesExactly {days : Int} (fits : Representable (days * nsPerDay)) :
    GivesExactly (addDays n days) (onDay n (epochDay n + days)) := by
  rw [onDay_add, onDay_epochDay, addDays, addFixed_of_span fits]
  exact .asInstant _

end TimeOfDay

/-! ### Instants -/

/-- Less than a week of days fits in 64 bits. -/
theorem representable_days {days : Int} (range : -7 < days ∧ days < 7) :
    Representable (days * nsPerDay) := by
  unfold Representable
  simp only [minNanos, maxNanos, nsPerDay, nsPerHour, nsPerMinute, nsPerSecond]
  omega

/-- A move to a weekday gives the nearest count on that weekday at the same time of day, ahead or
back, unless that is no instant. The epoch day moves to the day of the same count. -/
theorem weekday_moves_to_nearest (n : Int) {weekday : Nat} (range : 1 ≤ weekday ∧ weekday ≤ 7) :
    (∃ m, IsLeast {m | n ≤ m ∧ timeOfDay m = timeOfDay n ∧ weekdayOf m = weekday} m ∧
      GivesExactly (toNextOrSameWeekday n weekday) m ∧
      nextOrSameWeekday (epochDay n) weekday = epochDay m) ∧
    (∃ m, IsGreatest {m | m ≤ n ∧ timeOfDay m = timeOfDay n ∧ weekdayOf m = weekday} m ∧
      GivesExactly (toPreviousOrSameWeekday n weekday) m ∧
      previousOrSameWeekday (epochDay n) weekday = epochDay m) := by
  constructor
  · refine ⟨onDay n (nextOrSameWeekday (epochDay n) weekday), ?_, ?_, by simp⟩
    · rw [ahead_eq_image]
      exact (onDay_monotone n).map_isLeast (isLeast_nextOrSameWeekday (epochDay n) range)
    · exact addDays_givesExactly (representable_days (by omega))
  · refine ⟨onDay n (previousOrSameWeekday (epochDay n) weekday), ?_, ?_, by simp⟩
    · rw [back_eq_image]
      exact (onDay_monotone n).map_isGreatest (isGreatest_previousOrSameWeekday (epochDay n) range)
    · exact addDays_givesExactly (representable_days (by omega))

/-- The first instant is on a Tuesday. The Monday after it is found, and the one before it is
refused. -/
theorem weekday_moves_to_nearest_at_start :
    (1 ≤ 1 ∧ 1 ≤ 7) ∧ toNextOrSameWeekday (minNanos + 1) 1 = .ok (minNanos + 1 + 6 * nsPerDay) ∧
      FailsOutOfRange (toPreviousOrSameWeekday (minNanos + 1) 1) := by
  have range : 1 ≤ 1 ∧ 1 ≤ 7 := by decide
  obtain ⟨⟨next, least, ahead, -⟩, previous, greatest, back, -⟩ :=
    weekday_moves_to_nearest (minNanos + 1) range
  have after : next = minNanos + 1 + 6 * nsPerDay := by
    refine least.unique ⟨⟨by decide, by decide, by decide⟩, ?_⟩
    rintro m ⟨later, time, monday⟩
    simp only [timeOfDay, weekdayOf, weekdayOfDay, epochDay, minNanos, nsPerDay, nsPerHour,
      nsPerMinute, nsPerSecond] at later time monday ⊢
    omega
  have before : previous ≤ minNanos := by
    obtain ⟨earlier, -, monday⟩ := greatest.1
    have tuesday : weekdayOf (minNanos + 1) = 2 := by decide
    by_contra inside
    have same : previous = minNanos + 1 := by omega
    rw [same, tuesday] at monday
    cases monday
  rw [after] at ahead
  exact ⟨range, ahead.count (by decide), back.refusal fun instant => Int.not_lt.mpr before instant.1⟩

end CivilTime
