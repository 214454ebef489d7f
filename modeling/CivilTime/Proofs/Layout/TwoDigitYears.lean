import CivilTime.Proofs.Layout.RoundTrip

/-!
# Years of two digits

The window around a year gives each number of two digits the one year of the hundred years around it
that ends in them. Years of two digits are therefore read back as long as the instant is in the
window, and with them the instant.
-/
namespace CivilTime

namespace YearWindow

/-- The century of the base and the limit end where the window does. -/
theorem around_bounds (reference : Int) :
    (around reference).base % 100 = 0 ∧
      (around reference).base + (around reference).limit = reference + 20 ∧
      0 < (around reference).limit ∧ (around reference).limit ≤ 100 := by
  by_cases rolls : 100 < reference % 100 + 20
  · have window : around reference
        = ⟨(reference % 100 + 20) % 100, reference - reference % 100 + 100⟩ := if_pos rolls
    simp only [window]
    omega
  · have window : around reference
        = ⟨reference % 100 + 20, reference - reference % 100⟩ := if_neg rolls
    simp only [window]
    omega

/-- Two digits stand for the year of the window that ends in them. -/
theorem expand_around_eq_iff {reference : Int} (lower : IsYear (reference - 200))
    (upper : IsYear (reference + 200)) {digits : Int} (least : 0 ≤ digits) (greatest : digits ≤ 99)
    (year : Int) :
    (around reference).expand digits = year ↔
      year % 100 = digits ∧ reference - 80 ≤ year ∧ year ≤ reference + 19 := by
  have bounds := around_bounds reference
  simp only [IsYear, minYear, maxYear] at lower upper
  unfold expand
  -- Digits below the limit are of the century of the base, which no sum near it leads out of.
  split_ifs with below
  · rw [Int.bmod_eq_of_le (by omega) (by omega)]
    omega
  · rw [Int.bmod_eq_of_le (by omega) (by omega)]
    omega

end YearWindow

/-! ### Reading back -/

/-- A year of two digits that the window expands is read as the full year. -/
theorem Cursor.year_twoDigits (window : YearWindow) {digits : Nat} (small : digits < 10 ^ 2)
    (position : Nat) (rest : List Char) :
    Cursor.year ⟨position, Width.write (.fixed 2) digits ++ rest⟩ (.fixed 2) window
      = .ok (⟨window.expand digits, position⟩,
          ⟨position + (Width.write (.fixed 2) digits).length, rest⟩) := by
  have wide : Width.AtLeast 2 (.fixed 2) := Nat.le_refl 2
  have next : Width.fixed 2 = .greedy → ∀ c ∈ rest.head?, c.isDigit = false := by
    intro greedy
    cases greedy
  simp only [Cursor.year, if_neg (Width.unsigned_write (.fixed 2) digits rest),
    number_write (by decide) small (by decide) wide next, bind, Except.bind, pure, Except.pure]
  rfl

theorem writeYear_twoDigits {year : Int} (positive : 0 < year) :
    writeYear year (.fixed 2) = Width.write (.fixed 2) (year % 100).toNat := by
  have shown : year.natAbs % 100 = (year % 100).toNat := by omega
  rw [writeYear, if_pos rfl, if_neg (by omega), shown, List.nil_append]

/-- Years are of two digits, and no value of another item outgrows its width. -/
def Item.WideOrTwoDigits : Item → Prop
  | .year width => width = .fixed 2
  | item => item.Wide

instance : DecidablePred Item.WideOrTwoDigits
  | .year width => inferInstanceAs (Decidable (width = .fixed 2))
  | .era | .number _ _ | .hour _ _ | .monthName _ | .weekdayName _ | .weekday | .halfOfDay | .zone
  | .literal _ => inferInstanceAs (Decidable (Item.Wide _))

section

variable {layout : Layout} {context : ReadContext} {n : Int}

/-- Within the window a year of two digits is read back as the year of the instant. -/
theorem readsBack_twoDigits {reference : Int} (lower : IsYear (reference - 200))
    (upper : IsYear (reference + 200)) (window : context.window = .around reference)
    (instant : IsInstant n) (begun : reference - 80 ≤ (yearOf n).number)
    (ended : (yearOf n).number ≤ reference + 19) :
    ReadsBack layout context n (.year (.fixed 2)) := by
  intro rest ends fields done hold position
  have positive := instant.fourDigitYear.least
  have shown : layout.writeItem context.names "Z" n (.year (.fixed 2))
      = Width.write (.fixed 2) ((yearOf n).number % 100).toNat := by
    simp only [Layout.writeItem, instant.fourDigitYear.yearWithinEra]
    exact writeYear_twoDigits (by omega)
  have value : (YearWindow.around reference).expand ((yearOf n).number % 100).toNat
      = (yearOf n).number := by
    rw [YearWindow.expand_around_eq_iff lower upper (by omega) (by omega)]
    exact ⟨by omega, begun, ended⟩
  have small : ((yearOf n).number % 100).toNat < 10 ^ 2 := by omega
  have read := Cursor.year_twoDigits (.around reference) small position rest
  rw [value] at read
  refine ⟨_, ?_, hold.setYear (.fixed 2) ⟨(yearOf n).number, position⟩ rfl⟩
  simp only [Layout.readItem, shown, window, read, bind, Except.bind, pure, Except.pure]

end

/-- Two digits are expanded to the one year of the hundred years around the reference that ends in
them, and layouts with years of two digits restore every instant of those years. -/
theorem YearWindow.around_restores_its_hundred_years {reference : Int}
    (lower : IsYear (reference - 200)) (upper : IsYear (reference + 200)) :
    (∀ digits, 0 ≤ digits → digits ≤ 99 → ∀ year,
      (around reference).expand digits = year ↔
        year % 100 = digits ∧ reference - 80 ≤ year ∧ year ≤ reference + 19) ∧
    ∀ (layout : Layout) (context : ReadContext) (n : Int), context.Standard →
      context.window = around reference → IsInstant n →
      reference - 80 ≤ (yearOf n).number → (yearOf n).number ≤ reference + 19 →
      Complete layout.items → (∀ item ∈ layout.items, item.WideOrTwoDigits) →
      Separated (layout.writeItem context.names "Z" n) layout.items →
      layout.parse context (layout.format n context.locale "Z") = .ok n := by
  refine ⟨fun digits least greatest => expand_around_eq_iff lower upper least greatest, ?_⟩
  intro layout context n standard window instant begun ended complete wide separated
  have back : ∀ item ∈ layout.items, ReadsBack layout context n item := by
    intro item member
    cases item with
    | year width =>
      rw [show width = .fixed 2 from wide _ member]
      exact readsBack_twoDigits lower upper window instant begun ended
    | _ => exact readsBack_of_wide instant standard.legible (wide _ member)
  exact Layout.parse_format_of_readsBack back separated instant complete

/-- The last year of the window around 2181 is the only one of the next century. -/
theorem YearWindow.around_2181_restores_2200 :
    let layout : Layout :=
      { items := [.year (.fixed 2), .literal 0, .number .month (.fixed 2), .literal 0,
          .number .day (.fixed 2), .literal 1, .hour .from0To23 .greedy, .literal 2,
          .number .minute (.fixed 2), .literal 2, .number .second (.fixed 2), .literal 3,
          .number .millisecond (.fixed 3), .number .microsecond (.fixed 3),
          .number .nanosecond .greedy],
        literals := ["-", " ", ":", "."] }
    (around 2181).expand 0 = 2200 ∧ (around 2181).expand 1 = 2101 ∧
      layout.format 7263216000123456789 none "Z" = "00-03-01 0:00:00.123456789" ∧
      layout.parse { window := .around 2181 } "00-03-01 0:00:00.123456789"
        = .ok 7263216000123456789 := by
  intro layout
  obtain ⟨expanded, restored⟩ :=
    @around_restores_its_hundred_years 2181 (by decide) (by decide)
  have written : layout.format 7263216000123456789 none "Z" = "00-03-01 0:00:00.123456789" := by
    decide +kernel
  refine ⟨(expanded 0 (by decide) (by decide) 2200).mpr (by decide),
    (expanded 1 (by decide) (by decide) 2101).mpr (by decide), written, ?_⟩
  rw [← written]
  refine restored layout { window := .around 2181 } 7263216000123456789 nofun rfl (by decide)
    (by decide) (by decide) ?_ (by decide) (by decide +kernel)
  exact ⟨by decide, by intro field; cases field <;> decide, .from0To23, by decide, .inl rfl⟩

end CivilTime
