import CivilTime.Layout.Write
import CivilTime.Proofs.Layout.Reading
import CivilTime.Proofs.Locale.LongestName
import CivilTime.Proofs.Text.Digits

/-!
# Reading back what was written

What one field writes, its reader takes off the front of a text, whatever the text goes on with. A
number without a fixed width needs a continuation that starts with no digit, a name one that starts
with no ASCII letter.
-/
namespace CivilTime

/-- The width leaves room for this many digits. -/
def Width.AtLeast (digits : Nat) : Width → Prop
  | fixed count => digits ≤ count
  | greedy => True

instance (digits : Nat) : (width : Width) → Decidable (width.AtLeast digits)
  | .fixed count => inferInstanceAs (Decidable (digits ≤ count))
  | .greedy => inferInstanceAs (Decidable True)

namespace Text

theorem length_digits {n width : Nat} (positive : 0 < width) (small : n < 10 ^ width) :
    (digits n width).length = width := by
  have short := (Nat.length_toDigits_le_iff (b := 10) (n := n) (by decide) positive).mpr small
  rw [digits, List.length_leftpad]
  exact Nat.max_eq_left short

theorem length_digits_zero_le_iff {n k : Nat} (positive : 0 < k) :
    (digits n 0).length ≤ k ↔ n < 10 ^ k := by
  rw [digits, List.length_leftpad, Nat.zero_max]
  exact Nat.length_toDigits_le_iff (by decide) positive

theorem digits_ne_nil (n width : Nat) : digits n width ≠ [] := by
  have := Nat.length_toDigits_pos (b := 10) (n := n)
  intro empty
  have length := congrArg List.length empty
  rw [digits, List.length_leftpad, List.length_nil] at length
  omega

end Text

theorem Width.isDigit_of_mem_write {width : Width} {n : Nat} {c : Char} (h : c ∈ width.write n) :
    c.isDigit = true := by
  cases width <;> exact Text.isDigit_of_mem_digits h

theorem Width.digitsValue_write (width : Width) (n : Nat) :
    Text.digitsValue (width.write n) = n := by
  cases width <;> exact Text.digitsValue_digits n _

theorem Width.unsigned_write (width : Width) (n : Nat) (rest : List Char) :
    (width.write n ++ rest).head? ≠ some '-' := by
  intro minus
  cases written : width.write n with
  | nil => cases width <;> exact Text.digits_ne_nil n _ written
  | cons c cs =>
    rw [written] at minus
    have digit : c.isDigit = true :=
      Width.isDigit_of_mem_write (written ▸ List.mem_cons_self)
    rw [Option.some.inj minus] at digit
    cases digit

/-! ### Years and hours as shown -/

theorem writeYear_of_pos {year : Int} (h : 0 < year) {width : Width} (wide : width.AtLeast 4) :
    writeYear year width = width.write year.toNat := by
  have full : width ≠ .fixed 2 := by
    rintro rfl
    exact absurd wide (by decide)
  have magnitude : year.natAbs = year.toNat := by omega
  rw [writeYear, if_neg full, if_neg (by omega), magnitude, List.nil_append]

namespace HourCycle

theorem least_le_one (cycle : HourCycle) : cycle.least ≤ 1 ∧ 12 ≤ cycle.length := by
  cases cycle <;> decide

theorem length_eq (cycle : HourCycle) : cycle.length = 12 ∨ cycle.length = 24 := by
  cases cycle <;> decide

theorem ofHour_bounds (cycle : HourCycle) (hour : Nat) :
    cycle.least ≤ cycle.ofHour hour ∧ cycle.ofHour hour ≤ cycle.greatest := by
  obtain ⟨least, length⟩ := cycle.least_le_one
  have within := Nat.mod_lt hour (show 0 < cycle.length by omega)
  simp only [ofHour, greatest]
  split <;> omega

theorem greatest_lt (cycle : HourCycle) : cycle.greatest < 10 ^ 2 := by
  cases cycle <;> decide

theorem ofHour_mod (cycle : HourCycle) (hour : Nat) :
    cycle.ofHour hour % cycle.length = hour % cycle.length := by
  have least := cycle.least_le_one.1
  simp only [ofHour]
  split
  · rw [Nat.mod_self]
    omega
  · exact Nat.mod_mod hour cycle.length

end HourCycle

namespace Cursor

theorem advance_append (position : Nat) (cs rest : List Char) :
    advance ⟨position, cs ++ rest⟩ cs.length = ⟨position + cs.length, rest⟩ := by
  simp [advance]

theorem digits_write {width : Width} {n k : Nat} (positive : 0 < k) (small : n < 10 ^ k)
    (wide : width.AtLeast k) {rest : List Char}
    (next : width = .greedy → ∀ c ∈ rest.head?, c.isDigit = false) (position : Nat)
    (quantity : Quantity) :
    digits ⟨position, width.write n ++ rest⟩ width quantity
      = .ok (width.write n, ⟨position + (width.write n).length, rest⟩) := by
  have inside : ∀ c ∈ width.write n, c.isDigit = true := fun _ => Width.isDigit_of_mem_write
  cases width with
  -- A fixed width takes as many characters as were written, whatever comes next.
  | fixed count =>
    have room : k ≤ count := wide
    have length : (Width.write (.fixed count) n).length = count :=
      Text.length_digits (by omega) (Nat.lt_of_lt_of_le small (Nat.pow_le_pow_right (by decide) room))
    have taken := Text.leadingDigits_append inside rest
    rw [length] at taken
    have advanced := advance_append position (Width.write (.fixed count) n) rest
    simp only [digits, taken, length, if_true]
    rw [length] at advanced
    rw [advanced]
  -- A greedy one takes digits as far as they go, so the rest must not go on with one.
  | greedy =>
    have taken := Text.takeWhile_isDigit_append inside (next rfl)
    have filled : (Width.write .greedy n).isEmpty = false :=
      List.isEmpty_eq_false_iff.mpr (Text.digits_ne_nil n 0)
    simp only [digits, taken, filled, advance_append]
    rfl

/-- A number of up to 18 digits is read as it was written. -/
theorem number_write {width : Width} {n k : Nat} (positive : 0 < k) (small : n < 10 ^ k)
    (fits : k ≤ 18) (wide : width.AtLeast k) {rest : List Char}
    (next : width = .greedy → ∀ c ∈ rest.head?, c.isDigit = false) (position : Nat)
    (quantity : Quantity) :
    number ⟨position, width.write n ++ rest⟩ width quantity
      = .ok (⟨n, position⟩, ⟨position + (width.write n).length, rest⟩) := by
  have bound : n < 10 ^ 18 := Nat.lt_of_lt_of_le small (Nat.pow_le_pow_right (by decide) fits)
  have value (cursor : Cursor) : numberOf cursor width quantity (width.write n) = .ok (n : Int) := by
    simp only [numberOf, Width.digitsValue_write]
    cases width with
    -- Numbers of up to 18 digits neither wrap nor overflow.
    | fixed count =>
      rw [Int.bmod_eq_of_le (by omega) (by omega)]
    | greedy =>
      rw [if_pos]
      simp only [maxNanos]
      omega
  simp only [number, digits_write positive small wide next, value, bind, Except.bind, pure,
    Except.pure]

/-- A year of four digits is read as it is, whatever the window of two-digit years. -/
theorem year_write {width : Width} {year : Nat} (lower : 1000 ≤ year) (upper : year < 10 ^ 4)
    (wide : width.AtLeast 4) {rest : List Char}
    (next : width = .greedy → ∀ c ∈ rest.head?, c.isDigit = false) (window : YearWindow)
    (position : Nat) :
    Cursor.year ⟨position, width.write year ++ rest⟩ width window
      = .ok (⟨year, position⟩, ⟨position + (width.write year).length, rest⟩) := by
  -- With four digits the year is not taken for one of two.
  have fourDigits : (width == .fixed 2 ||
      (width == .greedy && position + (width.write year).length == position + 2)) = false := by
    cases width with
    | fixed count =>
      have room : 4 ≤ count := wide
      simp
      omega
    | greedy =>
      have long : ¬ (Width.write .greedy year).length ≤ 2 := by
        rw [Width.write, Text.length_digits_zero_le_iff (by decide)]
        omega
      simp
      omega
  simp only [Cursor.year, if_neg (Width.unsigned_write width year rest),
    number_write (by decide) upper (by decide) wide next, bind, Except.bind, pure, Except.pure,
    fourDigits]
  rfl

/-- An hour is read as its number within the cycle, counted from 0. -/
theorem hour_write (cycle : HourCycle) (hour : Nat) {width : Width} (wide : width.AtLeast 2)
    {rest : List Char} (next : width = .greedy → ∀ c ∈ rest.head?, c.isDigit = false)
    (position : Nat) :
    Cursor.hour ⟨position, width.write (cycle.ofHour hour) ++ rest⟩ cycle width
      = .ok (⟨(hour % cycle.length : Nat), position⟩,
          ⟨position + (width.write (cycle.ofHour hour)).length, rest⟩) := by
  obtain ⟨least, greatest⟩ := cycle.ofHour_bounds hour
  have small := Nat.lt_of_le_of_lt greatest cycle.greatest_lt
  have inCycle : (cycle.least : Int) ≤ (cycle.ofHour hour : Int) ∧
      (cycle.ofHour hour : Int) ≤ cycle.greatest := by omega
  have mod : (cycle.ofHour hour : Int) % cycle.length = (hour % cycle.length : Nat) := by
    rw [← cycle.ofHour_mod hour, Int.natCast_emod]
  simp only [Cursor.hour, number_write (by decide) small (by decide) wide next, bind, Except.bind,
    pure, Except.pure, if_pos inCycle, mod]

theorem weekday_write {weekday : Nat} (lower : 1 ≤ weekday) (upper : weekday ≤ 7)
    (position : Nat) (rest : List Char) :
    Cursor.weekday ⟨position, Width.write (.fixed 1) weekday ++ rest⟩
      = .ok ⟨position + (Width.write (.fixed 1) weekday).length, rest⟩ := by
  have small : weekday < 10 ^ 1 := by omega
  have wide : Width.AtLeast 1 (.fixed 1) := Nat.le_refl 1
  have inWeek : (1 : Int) ≤ weekday ∧ (weekday : Int) ≤ 7 := by omega
  simp only [Cursor.weekday, number_write (by decide) small (by decide) wide (nofun), bind,
    Except.bind, pure, Except.pure, if_pos inWeek]

/-- A name is read as its value where no letter follows. -/
theorem name_write {α : Type} {index : Locale.NameIndex α} {name : String} {value : α}
    (reads : index.Reads name value) {rest : List Char}
    (next : ∀ c ∈ rest.head?, c.isAlpha = false) (position : Nat) (what : Expectation) :
    Cursor.name ⟨position, name.toList ++ rest⟩ index what
      = .ok (⟨value, position⟩, ⟨position + name.toList.length, rest⟩) := by
  simp only [Cursor.name, reads rest next, Locale.NameMatch.length, Text.length_fold, advance_append]

theorem literal_write (text : String) (position : Nat) (rest : List Char) :
    literal ⟨position, text.toList ++ rest⟩ text
      = .ok ⟨position + text.toList.length, rest⟩ := by
  have starts : text.toList.isPrefixOf (text.toList ++ rest) = true := by simp
  simp only [literal, starts, if_true, ← String.length_toList, advance_append]

end Cursor
end CivilTime
