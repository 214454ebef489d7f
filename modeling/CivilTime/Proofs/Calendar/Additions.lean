import CivilTime.Proofs.Instants

/-!
# Exactness of additions

Units of one length are added as a span of nanoseconds, and the span is checked before the sum. The
check refuses nothing more where the span leads away from the epoch, or where it is short. A span
that does not itself fit in 64 bits is refused even where it would lead from one side of the epoch
to an instant on the other side.
-/
namespace CivilTime

/-- Adding gives the exact sum if that is an instant, and fails with an error of the range kind
otherwise. -/
structure AddsExactly (n : Int) (unit : FixedUnit) (amount : Int) : Prop where
  sum : IsInstant (n + amount * unit.length) →
    addUnits n (.fixed unit) amount = .ok (n + amount * unit.length)
  refusal : ¬ IsInstant (n + amount * unit.length) →
    FailsOutOfRange (addUnits n (.fixed unit) amount)

section Spans

variable {n span : Int}

/-- From an instant to another, a span that does not fit crosses the epoch. -/
theorem crosses_epoch_of_long (sum : IsInstant (n + span)) (long : ¬ Representable span) :
    n < 0 ∧ maxNanos < span ∨ 0 < n ∧ span < minNanos := by
  unfold IsInstant at sum
  unfold Representable at long
  omega

end Spans

section Additions

variable {n amount length : Int}

theorem addFixed_of_span (fits : Representable (amount * length)) :
    addFixed n amount length = asInstant (n + amount * length) := if_pos fits

theorem addFixed_of_long (long : ¬ Representable (amount * length)) :
    addFixed n amount length = fail .instantOutOfRange := if_neg long

/-- Adding is exact unless the check of the span refuses a sum that is an instant. -/
theorem addsExactly_iff {unit : FixedUnit} :
    AddsExactly n unit amount ↔
      (IsInstant (n + amount * unit.length) → Representable (amount * unit.length)) := by
  constructor
  · intro exact instant
    by_contra long
    have given := exact.sum instant
    rw [addUnits, addFixed_of_long long] at given
    cases given
  · intro short
    constructor
    case sum =>
      intro instant
      rw [addUnits, addFixed_of_span (short instant)]
      exact if_pos instant
    case refusal =>
      intro outside
      by_cases fits : Representable (amount * unit.length)
      · rw [addUnits, addFixed_of_span fits]
        exact failsOutOfRange_asInstant outside
      · rw [addUnits, addFixed_of_long fits]
        exact ⟨_, rfl, rfl⟩

/-- The sign of a span is the one of the amount. -/
theorem amount_pos_of_span {unit : FixedUnit} (long : maxNanos < amount * unit.length) :
    0 < amount := by
  have positive : 0 < amount * unit.length := Int.lt_trans (by decide) long
  exact pos_of_mul_pos_left positive (Int.le_of_lt unit.length_pos)

theorem amount_neg_of_span {unit : FixedUnit} (long : amount * unit.length < minNanos) :
    amount < 0 := by
  have negative : amount * unit.length < 0 := Int.lt_trans long (by decide)
  exact neg_of_mul_neg_left negative (Int.le_of_lt unit.length_pos)

/-- Adding is exact if the sum is no instant or the span fits in 64 bits. Otherwise the sum is
refused although it is an instant, which happens only from before the epoch forward or from behind
it backward, and not for nanoseconds. -/
theorem addUnits_exact_iff (n : Int) (unit : FixedUnit) (fits : Representable amount) :
    (AddsExactly n unit amount ↔
      (IsInstant (n + amount * unit.length) → Representable (amount * unit.length))) ∧
    (¬ AddsExactly n unit amount →
      addUnits n (.fixed unit) amount = fail .instantOutOfRange ∧ unit ≠ .nanosecond ∧
        (n < 0 ∧ 0 < amount ∨ 0 < n ∧ amount < 0)) := by
  refine ⟨addsExactly_iff, fun inexact => ?_⟩
  rw [addsExactly_iff, Classical.not_imp] at inexact
  obtain ⟨sum, long⟩ := inexact
  refine ⟨addFixed_of_long long, ?_, ?_⟩
  · rintro rfl
    rw [FixedUnit.length, Int.mul_one] at long
    exact long fits
  · rcases crosses_epoch_of_long sum long with ⟨before, forward⟩ | ⟨behind, backward⟩
    · exact .inl ⟨before, amount_pos_of_span forward⟩
    · exact .inr ⟨behind, amount_neg_of_span backward⟩

/-- From the first instant, the days whose span still fits are added exactly. -/
theorem addUnits_exact_from_start :
    Representable 106751 ∧ AddsExactly (-9223372036854775807) .day 106751 ∧
      addUnits (-9223372036854775807) (.fixed .day) 106751 = .ok (-85636854775807) := by
  have fits : Representable 106751 := by decide
  have exact : AddsExactly (-9223372036854775807) .day 106751 :=
    (addUnits_exact_iff (-9223372036854775807) .day fits).1.mpr fun _ => by decide
  exact ⟨fits, exact, exact.sum (by decide)⟩

/-- One day more is refused, although it leads to an instant of 1970. -/
theorem addUnits_refuses_long_span :
    IsInstant (-9223372036854775807) ∧ Representable 106752 ∧
      IsInstant (-9223372036854775807 + 106752 * FixedUnit.day.length) ∧
      addUnits (-9223372036854775807) (.fixed .day) 106752 = fail .instantOutOfRange ∧
      ¬ AddsExactly (-9223372036854775807) .day 106752 := by
  have sum : IsInstant (-9223372036854775807 + 106752 * FixedUnit.day.length) := by decide
  have refused :
      addUnits (-9223372036854775807) (.fixed .day) 106752 = fail .instantOutOfRange := rfl
  refine ⟨by decide, by decide, sum, refused, fun exact => ?_⟩
  have given := exact.sum sum
  rw [refused] at given
  cases given

end Additions
end CivilTime
