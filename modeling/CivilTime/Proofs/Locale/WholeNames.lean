import CivilTime.Proofs.Locale.Legibility
import CivilTime.Proofs.Locale.NaiveSearch

/-!
# Names of a table and their values

A table names values and reads names as values. Where no name is empty and none stands for two
values, reading undoes naming: the name of a value is read to its end, as that value, in whichever
case its letters are. Names of zones may be given more than once, and stand for the first zone
given, display names before identifiers.
-/
namespace CivilTime.Locale

/-- Every text that is the name up to ASCII case is read to its end, as the value. -/
def ReadsWhole {α : Type} (longest? : List Char → Option (NameMatch α)) (name : String)
    (value : α) : Prop :=
  ∀ text : String, Text.foldString text = Text.foldString name →
    text.utf8ByteSize = name.utf8ByteSize ∧
    ∃ found, longest? text.toList = some found ∧ found.bytes = name.utf8ByteSize ∧
      found.value = value

/-- All names are given, and no two values of one kind have a name in common up to ASCII case.
Zones may. -/
structure Names.Unambiguous (names : Names) : Prop where
  months : NameIndex.Unambiguous
    (numbered names.months.toList ++ numbered names.shortMonths.toList)
  weekdays : NameIndex.Unambiguous
    (numbered names.weekdays.toList ++ numbered names.shortWeekdays.toList)
  halves : NameIndex.Unambiguous [(names.am, false), (names.pm, true)]
  eras : NameIndex.Unambiguous [(names.beforeCommonEra, false), (names.commonEra, true)]
  zones : ∀ named ∈ names.zoneNames, named.1 ≠ ""

namespace NameIndex

variable {α : Type} {names : List (String × α)}

theorem readsWhole_of_firstValue {name : String} {value : α} (nonempty : name ≠ "")
    (first : firstValue names (Text.fold name.toList) = some value) :
    ReadsWhole (ofList names).longest? name value := by
  intro text same
  have folded : Text.fold text.toList = Text.fold name.toList := String.ofList_injective same
  have size : text.utf8ByteSize = name.utf8ByteSize := by
    rw [← Text.byteLength_toList, ← Text.byteLength_fold, folded, Text.byteLength_fold,
      Text.byteLength_toList]
  have given : text.toList ≠ [] := by
    intro empty
    rw [empty, Text.fold_nil] at folded
    exact nonempty (String.toList_eq_nil_iff.mp (List.map_eq_nil_iff.mp folded.symm))
  -- The whole text is a name, so none that starts it is longer.
  rw [← folded] at first
  exact ⟨size, _, longest?_of_firstValue given first, bytes_of_fold_eq folded.symm, rfl⟩

theorem Unambiguous.readsWhole (h : Unambiguous names) {name : String} {value : α}
    (member : (name, value) ∈ names) : ReadsWhole (ofList names).longest? name value :=
  readsWhole_of_firstValue (h _ member).1 (h.firstValue_eq member)

end NameIndex

theorem Names.Unambiguous.zonesByName_ne_empty {table : Table} (clear : table.names.Unambiguous)
    (ids : ∀ id ∈ table.zoneIds, id ≠ "") : ∀ pair ∈ table.zonesByName, pair.1 ≠ "" := by
  intro pair member
  rcases List.mem_append.mp member with named | identifier
  · exact clear.zones pair named
  · obtain ⟨id, given, rfl⟩ := List.mem_map.mp identifier
    exact ids id given

/-- Every name of a table is read back as what it names. -/
theorem Table.names_read_back {table : Table} (clear : table.names.Unambiguous)
    (ids : ∀ id ∈ table.zoneIds, id ≠ "") :
    (∀ month style, 1 ≤ month → month ≤ 12 →
      ReadsWhole table.monthIndex.longest? (table.monthName month style) month) ∧
    (∀ weekday style, 1 ≤ weekday → weekday ≤ 7 →
      ReadsWhole table.weekdayIndex.longest? (table.weekdayName weekday style) weekday) ∧
    (∀ common, ReadsWhole table.eraIndex.longest? (table.era common) common) ∧
    (∀ pm, ReadsWhole table.halfOfDayIndex.longest? (table.halfOfDay pm) pm) ∧
    ∀ pair ∈ table.zonesByName, ∃ zone,
      NameIndex.firstValue table.zonesByName (Text.fold pair.1.toList) = some zone ∧
      ReadsWhole table.zoneIndex.longest? pair.1 zone := by
  refine ⟨?_, ?_, ?_, ?_, ?_⟩
  · intro month style lower upper
    rw [table.monthIndex_eq]
    exact clear.months.readsWhole (table.monthName_mem style lower upper)
  · intro weekday style lower upper
    rw [table.weekdayIndex_eq]
    exact clear.weekdays.readsWhole (table.weekdayName_mem style lower upper)
  · intro common
    exact clear.eras.readsWhole (table.era_mem common)
  · intro pm
    exact clear.halves.readsWhole (table.halfOfDay_mem pm)
  -- A zone may be named again later, so what counts is the first value and not membership.
  · intro pair member
    obtain ⟨zone, first⟩ := NameIndex.exists_firstValue member
    have nonempty := clear.zonesByName_ne_empty ids pair member
    rw [funext table.zoneIndex_longest?]
    exact ⟨zone, first, NameIndex.readsWhole_of_firstValue nonempty first⟩

theorem Standard.unambiguous : ∀ locale ∈ Standard.all, locale.2.Unambiguous := by
  have zones : ∀ locale ∈ Standard.all, ∀ named ∈ locale.2.zoneNames, named.1 ≠ "" := by decide
  intro locale member
  have delimited := Standard.delimited locale member
  exact ⟨delimited.months.unambiguous, delimited.weekdays.unambiguous,
    delimited.halves.unambiguous, delimited.eras.unambiguous, zones locale member⟩

/-- Labels and zones whose names continue one another, read in the other case. -/
theorem Table.names_read_back_in_capitals :
    let names := { Standard.german with
      am := "v", pm := "vn", zoneNames := [("Zeit", "Europe/Berlin"), ("ZEIT", "Europe/Vienna")] }
    let table : Table := ⟨"de", names, ["zeit", "UTC", "UTC/Zürich"]⟩
    names.Unambiguous ∧ (∀ id ∈ table.zoneIds, id ≠ "") ∧
    (∃ found, table.monthIndex.longest? "MäRZ".toList = some found ∧ found.bytes = 5 ∧
      found.value = 3) ∧
    (∃ found, table.halfOfDayIndex.longest? "VN".toList = some found ∧ found.bytes = 2 ∧
      found.value = true) ∧
    ∃ found, table.zoneIndex.longest? "zeit".toList = some found ∧ found.bytes = 4 ∧
      found.value = "Europe/Berlin" := by
  intro names table
  have german := Standard.unambiguous ("de", Standard.german) (by simp [Standard.all])
  have clear : names.Unambiguous :=
    ⟨german.months, german.weekdays, by decide, german.eras, by decide⟩
  have ids : ∀ id ∈ table.zoneIds, id ≠ "" := by decide
  obtain ⟨months, _, _, halves, zones⟩ := Table.names_read_back clear ids
  obtain ⟨zone, first, reads⟩ := zones ("ZEIT", "Europe/Vienna") (by decide)
  have berlin : zone = "Europe/Berlin" := (Option.some.inj first).symm
  refine ⟨clear, ids, ?_, ?_, ?_⟩
  · exact (months 3 .long (by decide) (by decide) "MäRZ" (by decide)).2
  · exact (halves true "VN" (by decide)).2
  · rw [← berlin]
    exact (reads "zeit" (by decide)).2

end CivilTime.Locale
