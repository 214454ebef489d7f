import CivilTime.Calendar.Weekday
import CivilTime.Proofs.Calendar.Dates

/-!
# Counting days

Days on one weekday are a week apart, and the days of a year without February 29th are all days but
one. So the place of a day among them is a quotient or a difference of epoch days.
-/
namespace CivilTime

/-- The days from `first` to `day` on the weekday of `day` are a week apart. -/
theorem card_weekdays {first day : Int} (ordered : first ≤ day) :
    ((Finset.Icc first day).filter fun other => weekdayOfDay other = weekdayOfDay day).card
      = ((day - first) / 7).toNat + 1 := by
  have weekly : ((Finset.Icc first day).filter fun other => weekdayOfDay other = weekdayOfDay day)
      = (Finset.range (((day - first) / 7).toNat + 1)).image fun i : Nat => day - 7 * i := by
    ext other
    rw [Finset.mem_filter, Finset.mem_Icc, Finset.mem_image]
    unfold weekdayOfDay
    constructor
    · rintro ⟨within, same⟩
      exact ⟨((day - other) / 7).toNat, Finset.mem_range.mpr (by omega), by omega⟩
    · rintro ⟨i, member, rfl⟩
      have few := Finset.mem_range.mp member
      omega
  have distinct : Function.Injective fun i : Nat => day - 7 * (i : Int) := by
    intro i j same
    simp only at same
    omega
  rw [weekly, Finset.card_image_of_injective _ distinct, Finset.card_range]

/-- The days from the first of the year to `day` that are no leap days. -/
theorem card_commonDays {number day : Int} (inYear : (Year.ofDay day).number = number) :
    ((Finset.Icc (Year.of number).firstDay day).filter fun other => ¬ Date.IsLeapDay other).card
      = (day - (Year.of number).firstDay + 1).toNat
        - if isLeapYear number = true ∧ (Year.of number).firstDay + 59 ≤ day then 1 else 0 := by
  have bounds := Year.numberOfDay_eq_iff.mp inYear
  have among : ∀ other ∈ Finset.Icc (Year.of number).firstDay day,
      Date.IsLeapDay other ↔ isLeapYear number = true ∧ other = (Year.of number).firstDay + 59 := by
    intro other member
    have within := Finset.mem_Icc.mp member
    exact Date.isLeapDay_iff (Year.numberOfDay_eq_iff.mpr (by omega))
  split_ifs with passed
  · have others : ((Finset.Icc (Year.of number).firstDay day).filter fun other =>
        ¬ Date.IsLeapDay other)
        = (Finset.Icc (Year.of number).firstDay day).erase ((Year.of number).firstDay + 59) := by
      ext other
      rw [Finset.mem_filter, Finset.mem_erase, and_comm]
      refine and_congr_left fun member => ?_
      rw [among other member]
      simp [passed.1]
    rw [others, Finset.card_erase_of_mem (Finset.mem_Icc.mpr (by omega)), Int.card_Icc]
    omega
  · have all : ((Finset.Icc (Year.of number).firstDay day).filter fun other =>
        ¬ Date.IsLeapDay other) = Finset.Icc (Year.of number).firstDay day := by
      refine Finset.filter_true_of_mem fun other member leap => passed ?_
      have found := (among other member).mp leap
      have within := Finset.mem_Icc.mp member
      exact ⟨found.1, by omega⟩
    rw [all, Int.card_Icc]
    omega

/-! ### Moving to a weekday -/

theorem nextOrSameWeekday_eq_iff {day found : Int} {weekday : Nat}
    (range : 1 ≤ weekday ∧ weekday ≤ 7) :
    nextOrSameWeekday day weekday = found ↔
      day ≤ found ∧ found < day + 7 ∧ weekdayOfDay found = weekday := by
  unfold nextOrSameWeekday weekdayOfDay
  omega

theorem previousOrSameWeekday_eq_iff {day found : Int} {weekday : Nat}
    (range : 1 ≤ weekday ∧ weekday ≤ 7) :
    previousOrSameWeekday day weekday = found ↔
      day - 7 < found ∧ found ≤ day ∧ weekdayOfDay found = weekday := by
  unfold previousOrSameWeekday weekdayOfDay
  omega

end CivilTime
