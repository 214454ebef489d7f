import CivilTime.Locale.Table
import CivilTime.Proofs.Locale.LongestName

/-!
# Indexes of a table

The indexes of a table find values by way of places in joined lists: months and weekdays by the place
of a name among the long and the short ones, zones by the place of an identifier among those of the
display names and those that are known as such. The indexes are those of the plain lists of names
and values.
-/
namespace CivilTime.Locale

/-! ### Numbers of names -/

/-- Gives each name its number from 1. -/
def numbered (names : List String) : List (String × Nat) := names.zipIdx 1

/-- Behind whole lists of a length the places start again. -/
theorem map_zipIdx_mod {length start : Nat} {names : List String} (whole : start % length = 0)
    (fits : names.length ≤ length) :
    (names.zipIdx start).map (fun (name, place) => (name, place % length + 1)) = numbered names := by
  apply List.ext_getElem?
  intro i
  rw [numbered, List.getElem?_map, List.getElem?_zipIdx, List.getElem?_zipIdx]
  cases found : names[i]? with
  | none => rfl
  | some name =>
    obtain ⟨inside, -⟩ := List.getElem?_eq_some_iff.mp found
    have own : (start + i) % length = i := by
      rw [Nat.add_mod, whole, Nat.zero_add, Nat.mod_mod, Nat.mod_eq_of_lt (by omega)]
    simp only [Option.map_some, own, Nat.add_comm]

theorem numberedBoth_eq {length : Nat} {long short : List String} (longFits : long.length = length)
    (shortFits : short.length = length) :
    numberedBoth length long short = numbered long ++ numbered short := by
  rw [numberedBoth, List.zipIdx_append, List.map_append,
    map_zipIdx_mod (Nat.zero_mod _) (Nat.le_of_eq longFits),
    map_zipIdx_mod (by rw [Nat.zero_add, longFits, Nat.mod_self]) (Nat.le_of_eq shortFits)]

namespace Table

theorem monthIndex_eq (table : Table) :
    table.monthIndex
      = .ofList (numbered table.names.months.toList ++ numbered table.names.shortMonths.toList) := by
  rw [monthIndex, numberedBoth_eq Vector.length_toList Vector.length_toList]

theorem weekdayIndex_eq (table : Table) :
    table.weekdayIndex
      = .ofList
          (numbered table.names.weekdays.toList ++ numbered table.names.shortWeekdays.toList) := by
  rw [weekdayIndex, numberedBoth_eq Vector.length_toList Vector.length_toList]

end Table

/-! ### Places of values -/

/-- The value replaced by what it leads to. -/
def NameMatch.map {α β : Type} (f : α → β) (m : NameMatch α) : NameMatch β := ⟨m.name, f m.value⟩

namespace NameIndex

variable {α β : Type} {names : List (String × α)}

theorem firstValue_map (f : α → β) (key : List Char) :
    firstValue (names.map fun (name, value) => (name, f value)) key
      = (firstValue names key).map f := by
  rw [firstValue, List.find?_map, Option.map_map, firstValue, Option.map_map]
  rfl

theorem mem_ofList_map_iff (f : α → β) (entry : NameMatch β) :
    entry ∈ (ofList (names.map fun (name, value) => (name, f value))).entries ↔
      ∃ found ∈ (ofList names).entries, found.map f = entry := by
  rw [mem_ofList_iff, firstValue_map]
  constructor
  · rintro ⟨nonempty, first⟩
    obtain ⟨value, given, same⟩ := Option.map_eq_some_iff.mp first
    refine ⟨⟨entry.name, value⟩, (mem_ofList_iff names _).mpr ⟨nonempty, given⟩, ?_⟩
    rw [NameMatch.map, same]
  · rintro ⟨found, member, rfl⟩
    obtain ⟨nonempty, first⟩ := (mem_ofList_iff names found).mp member
    exact ⟨nonempty, Option.map_eq_some_iff.mpr ⟨found.value, first, rfl⟩⟩

/-- What is found for a text does not depend on what the names stand for. -/
theorem longest?_map (f : α → β) (cs : List Char) :
    (ofList (names.map fun (name, value) => (name, f value))).longest? cs
      = ((ofList names).longest? cs).map (·.map f) := by
  -- Both indexes have the same names, and the longest one is found by the names alone.
  apply Option.ext
  intro entry
  rw [(wellFormed_ofList _).longest?_eq_some_iff, Option.map_eq_some_iff]
  simp only [(wellFormed_ofList names).longest?_eq_some_iff, mem_ofList_map_iff]
  constructor
  · rintro ⟨⟨found, member, rfl⟩, starts, longest⟩
    exact ⟨found, ⟨member, starts, fun other present => longest (other.map f) ⟨other, present, rfl⟩⟩,
      rfl⟩
  · rintro ⟨found, ⟨member, starts, longest⟩, rfl⟩
    refine ⟨⟨found, member, rfl⟩, starts, ?_⟩
    rintro _ ⟨other, present, rfl⟩
    exact longest other present

end NameIndex

namespace Table

variable (table : Table)

/-- The names that denote zones, in the order in which they count. -/
def zonesByName : List (String × String) :=
  table.names.zoneNames ++ table.zoneIds.map fun id => (id, id)

/-- The identifier at a place of the joined list. -/
def zoneAt (place : Nat) : String := table.zoneIndex.ids[place]?.getD ""

/-- The names of zones with the places of their zones. -/
def zonePlaces : List (String × Nat) :=
  table.names.zoneNames.zipIdx.map (fun ((name, _), place) => (name, place))
    ++ table.zoneIds.zipIdx table.names.zoneNames.length

theorem map_zoneAt : table.zonePlaces.map (fun (name, place) => (name, table.zoneAt place))
    = table.zonesByName := by
  rw [zonePlaces, zonesByName, List.map_append]
  congr 1
  all_goals
    apply List.ext_getElem?
    intro i
  -- Display names come first in both lists, and identifiers behind all of them.
  · simp only [List.getElem?_map, List.getElem?_zipIdx, Nat.zero_add]
    cases found : table.names.zoneNames[i]? with
    | none => rfl
    | some named =>
      obtain ⟨inside, rfl⟩ := List.getElem?_eq_some_iff.mp found
      simp [zoneAt, zoneIndex, List.getElem?_append, inside]
  · simp only [List.getElem?_map, List.getElem?_zipIdx]
    cases found : table.zoneIds[i]? with
    | none => rfl
    | some id => simp [zoneAt, zoneIndex, List.getElem?_append, found]

theorem getElem?_zoneAt {name : String} {place : Nat} (member : (name, place) ∈ table.zonePlaces) :
    table.zoneIndex.ids[place]? = some (table.zoneAt place) := by
  have inside : place < table.zoneIndex.ids.length := by
    have length : table.zoneIndex.ids.length
        = table.names.zoneNames.length + table.zoneIds.length := by simp [zoneIndex]
    rcases List.mem_append.mp member with displayed | registered
    · obtain ⟨⟨named, first⟩, given, same⟩ := List.mem_map.mp displayed
      cases same
      have bound := (List.getElem?_eq_some_iff.mp (List.mem_zipIdx_iff_getElem?.mp given)).1
      omega
    · obtain ⟨-, bound, -⟩ := List.mem_zipIdx registered
      omega
  rw [zoneAt, List.getElem?_eq_getElem inside]
  rfl

/-- Zones are found as in an index of their names with the identifiers themselves. -/
theorem zoneIndex_longest? (cs : List Char) :
    table.zoneIndex.longest? cs = (NameIndex.ofList table.zonesByName).longest? cs := by
  rw [← map_zoneAt, NameIndex.longest?_map]
  have places : table.zoneIndex.places = .ofList table.zonePlaces := rfl
  rw [ZoneIndex.longest?, places]
  cases named : (NameIndex.ofList table.zonePlaces).longest? cs with
  | none => rfl
  | some found =>
    -- The place found is one that was given to a name, so there is an identifier at it.
    obtain ⟨-, first⟩ := (NameIndex.mem_ofList_iff _ found).mp (NameIndex.longest?_mem named).1
    obtain ⟨⟨name, place⟩, member, -, same⟩ := NameIndex.firstValue_eq_some first
    simp only at same
    subst same
    change (table.zoneIndex.ids[found.value]?.bind _) = _
    rw [table.getElem?_zoneAt member]
    rfl

theorem length_le_of_zone {cs : List Char} {found : NameMatch String}
    (named : table.zoneIndex.longest? cs = some found) : found.length ≤ cs.length := by
  rw [zoneIndex_longest?] at named
  exact NameIndex.length_le_of_longest? named

theorem bytes_of_zone {cs : List Char} {found : NameMatch String}
    (named : table.zoneIndex.longest? cs = some found) :
    Text.byteLength (cs.take found.length) = found.bytes := by
  rw [zoneIndex_longest?] at named
  exact NameIndex.bytes_of_longest? named

theorem length_pos_of_zone {cs : List Char} {found : NameMatch String}
    (named : table.zoneIndex.longest? cs = some found) : 0 < found.length := by
  rw [zoneIndex_longest?] at named
  have member := (NameIndex.longest?_mem named).1
  exact List.length_pos_iff.mpr ((NameIndex.wellFormed_ofList _).nonempty found member)

end Table
end CivilTime.Locale
