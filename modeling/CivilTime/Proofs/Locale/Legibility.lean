import CivilTime.Locale.Standard
import CivilTime.Proofs.Locale.TableIndexes

/-!
# Names that read back

The indexes of a table read a name of the table as the value that it names, wherever no ASCII letter
follows. This needs the names of one index to be delimited, which those of the standard locales are.
-/
namespace CivilTime.Locale

/-- The names that one index holds are delimited. -/
structure Names.Delimited (names : Names) : Prop where
  months : NameIndex.Delimited
    (numbered names.months.toList ++ numbered names.shortMonths.toList)
  weekdays : NameIndex.Delimited
    (numbered names.weekdays.toList ++ numbered names.shortWeekdays.toList)
  halves : NameIndex.Delimited [(names.am, false), (names.pm, true)]
  eras : NameIndex.Delimited [(names.beforeCommonEra, false), (names.commonEra, true)]

/-- The indexes of the table read its names back. -/
structure Table.Legible (table : Table) : Prop where
  month : ∀ month style, 1 ≤ month → month ≤ 12 →
    table.monthIndex.Reads (table.monthName month style) month
  weekday : ∀ weekday style, 1 ≤ weekday → weekday ≤ 7 →
    table.weekdayIndex.Reads (table.weekdayName weekday style) weekday
  halfOfDay : ∀ pm, table.halfOfDayIndex.Reads (table.halfOfDay pm) pm
  era : ∀ common, table.eraIndex.Reads (table.era common) common

theorem mem_numbered {long short : List String} {i : Nat} (positive : 1 ≤ i) {name : String}
    (found : long[i - 1]? = some name ∨ short[i - 1]? = some name) :
    (name, i) ∈ numbered long ++ numbered short := by
  have place (names : List String) (found : names[i - 1]? = some name) :
      (name, i) ∈ numbered names :=
    List.mem_zipIdx_iff_le_and_getElem?_sub.mpr ⟨positive, found⟩
  rw [List.mem_append]
  exact found.imp (place long) (place short)

namespace Table

theorem monthName_mem (table : Table) {month : Nat} (style : NameStyle) (lower : 1 ≤ month)
    (upper : month ≤ 12) :
    (table.monthName month style, month) ∈
      numbered table.names.months.toList ++ numbered table.names.shortMonths.toList := by
  have inside : month - 1 < 12 := by omega
  have given : month ≠ 0 := by omega
  apply mem_numbered lower
  cases style <;> simp [monthName, inside, given]

theorem weekdayName_mem (table : Table) {weekday : Nat} (style : NameStyle) (lower : 1 ≤ weekday)
    (upper : weekday ≤ 7) :
    (table.weekdayName weekday style, weekday) ∈
      numbered table.names.weekdays.toList ++ numbered table.names.shortWeekdays.toList := by
  have inside : weekday - 1 < 7 := by omega
  have given : weekday ≠ 0 := by omega
  apply mem_numbered lower
  cases style <;> simp [weekdayName, inside, given]

theorem halfOfDay_mem (table : Table) (pm : Bool) :
    (table.halfOfDay pm, pm) ∈ [(table.names.am, false), (table.names.pm, true)] := by
  cases pm <;> simp [halfOfDay]

theorem era_mem (table : Table) (common : Bool) :
    (table.era common, common) ∈
      [(table.names.beforeCommonEra, false), (table.names.commonEra, true)] := by
  cases common <;> simp [era]

end Table

theorem Names.Delimited.legible {table : Table} (h : table.names.Delimited) : table.Legible where
  month _ style lower upper := by
    rw [table.monthIndex_eq]
    exact h.months.reads (table.monthName_mem style lower upper)
  weekday _ style lower upper := by
    rw [table.weekdayIndex_eq]
    exact h.weekdays.reads (table.weekdayName_mem style lower upper)
  halfOfDay pm := h.halves.reads (table.halfOfDay_mem pm)
  era common := h.eras.reads (table.era_mem common)

theorem Standard.delimited : ∀ locale ∈ Standard.all, locale.2.Delimited := by
  intro locale member
  simp only [Standard.all, List.mem_cons, List.not_mem_nil, or_false] at member
  rcases member with rfl | rfl | rfl | rfl
  -- The four lists of names of each locale are compared in pairs.
  all_goals
    exact ⟨by decide +kernel, by decide +kernel, by decide +kernel, by decide +kernel⟩

end CivilTime.Locale
