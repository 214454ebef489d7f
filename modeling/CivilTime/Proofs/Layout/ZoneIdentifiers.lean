import CivilTime.Proofs.Layout.ByteReaders
import CivilTime.Proofs.Zone.Tables

/-!
# Reading zone identifiers

An identifier that no other name of the table equals is the longest name at the start of its own
text. Offset literals come first, so this decides the zone unless the identifier starts with one.
-/
namespace CivilTime

namespace Locale.Table

/-- The name is one of the zone identifiers, and no other identifier and no display name of a zone
equals it up to ASCII case. -/
structure Identifies (table : Table) (z : String) : Prop where
  listed : z ∈ table.zoneIds
  nonempty : z ≠ ""
  unlikeIds : ∀ id ∈ table.zoneIds, Text.fold id.toList = Text.fold z.toList → id = z
  unlikeNames : ∀ named ∈ table.names.zoneNames, Text.fold named.1.toList ≠ Text.fold z.toList

variable {table : Table} {z : String}

theorem Identifies.firstValue_eq (h : table.Identifies z) :
    NameIndex.firstValue table.zonesByName (Text.fold z.toList) = some z := by
  have listed : (z, z) ∈ table.zonesByName :=
    List.mem_append_right _ (List.mem_map.mpr ⟨z, h.listed, rfl⟩)
  obtain ⟨value, found⟩ := NameIndex.exists_firstValue listed
  obtain ⟨pair, member, same, rfl⟩ := NameIndex.firstValue_eq_some found
  rw [found]
  rcases List.mem_append.mp member with named | identifier
  · exact absurd same (h.unlikeNames pair named)
  · obtain ⟨id, given, rfl⟩ := List.mem_map.mp identifier
    exact congrArg some (h.unlikeIds id given same)

/-- An identifier is the longest name that starts its text. -/
theorem Identifies.longest?_eq (h : table.Identifies z) :
    table.zoneIndex.longest? z.toList = some ⟨Text.fold z.toList, z⟩ := by
  rw [zoneIndex_longest?]
  exact NameIndex.longest?_of_firstValue (mt String.toList_eq_nil_iff.mp h.nonempty) h.firstValue_eq

end Locale.Table

/-- Without an offset literal in front, an identifier is read as a whole and as its zone. -/
theorem Cursor.zone_identifier {context : ReadContext} {z : String} {timeline : Zone.Timeline}
    (identifies : context.zoneNames.Identifies z) (known : context.timeline z = .ok timeline)
    (plain : Zone.OffsetLiteral.read? z.toList = none) :
    Cursor.zone ⟨0, z.toList⟩ context = .ok (⟨.timeline timeline, 0⟩, ⟨z.toList.length, []⟩) := by
  have whole : Cursor.advance ⟨0, z.toList⟩ (Text.fold z.toList).length = ⟨z.toList.length, []⟩ := by
    rw [Text.length_fold, advance, List.drop_length, Nat.zero_add]
  simp only [zone, plain, identifies.longest?_eq, known, Locale.NameMatch.length, whole]
  rfl

/-- A zone alone stands for its local midnight of January 1st, 1970. -/
theorem Fields.instant_zone {timeline : Zone.Timeline} (described : timeline.Described) (start : Nat) :
    Fields.instant { zone := some ⟨.timeline timeline, start⟩ } start
      = .ok (0 - timeline.offsetAt 0 ⟨1970, false⟩) := by
  have epoch : Fields.dateTime { zone := some ⟨.timeline timeline, start⟩ }
      = .ok ⟨1970, 1, 1, 0, 0, 0, 0⟩ := rfl
  have composed : DateTime.toInstant ⟨1970, 1, 1, 0, 0, 0, 0⟩ = .ok 0 := by decide
  have year : Year.of 1970 = ⟨1970, false⟩ := by decide
  have fits := described.isInstant_sub 0 ⟨1970, false⟩
  simp only [instant, epoch, composed, locate, Except.mapError, bind, Except.bind, offsetAt, year,
    if_pos fits, pure, Except.pure]

theorem Layout.parse_identifier {context : ReadContext} {z : String} {timeline : Zone.Timeline}
    (identifies : context.zoneNames.Identifies z) (known : context.timeline z = .ok timeline)
    (described : timeline.Described) (plain : Zone.OffsetLiteral.read? z.toList = none) :
    (⟨[.zone], []⟩ : Layout).parse context z = .ok (0 - timeline.offsetAt 0 ⟨1970, false⟩) := by
  have read := Cursor.zone_identifier identifies known plain
  have instant := Fields.instant_zone described 0
  rw [parse_eq_read]
  simp only [Layout.read, List.foldlM_cons, List.foldlM_nil, readItem, read, bind, Except.bind,
    pure, Except.pure, List.isEmpty_nil, if_true, instant]

/-- Every zone identifier of a table that is unlike its other zone names is read as its zone, unless
it starts with an offset literal. -/
theorem Layout.zone_identifiers_parse {table : Locale.Table}
    {zones : String → Except TimeError Zone.Timeline}
    (resolves : ∀ id ∈ table.zoneIds, ∃ timeline, zones id = .ok timeline ∧ timeline.Described)
    {z : String} (identifies : table.Identifies z)
    (plain : Zone.OffsetLiteral.read? z.toList = none) (window : YearWindow) :
    ∃ timeline, zones z = .ok timeline ∧
      (⟨[.zone], []⟩ : Layout).parse { locale := some table, zones := some zones, window } z
        = .ok (0 - timeline.offsetAt 0 ⟨1970, false⟩) := by
  obtain ⟨timeline, known, described⟩ := resolves z identifies.listed
  exact ⟨timeline, known, parse_identifier identifies known described plain⟩

/-- A zone whose identifier continues that of another one. -/
theorem Layout.zone_identifiers_parse_behind_utc :
    let table : Locale.Table := ⟨"en", Locale.Standard.english, ["UTC", "UTC/Zürich"]⟩
    let zones := fun id : String =>
      Except.ok (Zone.Timeline.ofSeconds (if id = "UTC" then 0 else 3600))
    table.Identifies "UTC/Zürich" ∧ Zone.OffsetLiteral.read? "UTC/Zürich".toList = none ∧
    (⟨[.zone], []⟩ : Layout).parse
        { locale := some table, zones := some zones, window := .around 2000 } "UTC/Zürich"
      = .ok (-3600000000000) := by
  intro table zones
  have identifies : table.Identifies "UTC/Zürich" :=
    ⟨by decide, by decide, by decide, by decide⟩
  have plain : Zone.OffsetLiteral.read? "UTC/Zürich".toList = none := by decide
  have resolves : ∀ id ∈ table.zoneIds, ∃ timeline, zones id = .ok timeline ∧ timeline.Described := by
    intro id member
    refine ⟨_, rfl, .fixed (if id = "UTC" then 0 else 3600), ?_, rfl⟩
    intro seconds given
    rw [List.mem_singleton.mp given]
    split <;> decide
  obtain ⟨timeline, known, parsed⟩ :=
    Layout.zone_identifiers_parse resolves identifies plain (.around 2000)
  cases known
  exact ⟨identifies, plain, parsed⟩

/-- The name of a zone that starts with a `Z`, which is an offset, is not read to its end. -/
theorem Layout.zulu_is_cut_short :
    let table : Locale.Table := ⟨"en", Locale.Standard.english, ["Zulu"]⟩
    let zones := fun _ : String => Except.ok (Zone.Timeline.ofSeconds 3600)
    table.Identifies "Zulu" ∧
    (∀ id ∈ table.zoneIds, ∃ timeline, zones id = .ok timeline ∧ timeline.Described) ∧
    (⟨[.zone], []⟩ : Layout).parse
        { locale := some table, zones := some zones, window := .around 2000 } "Zulu"
      = .error ⟨.unexpectedInput, some 1⟩ := by
  intro table zones
  refine ⟨⟨by decide, by decide, by decide, by decide⟩, fun id member => ?_, by decide +kernel⟩
  exact ⟨_, rfl, .fixed 3600, by decide, rfl⟩

end CivilTime
