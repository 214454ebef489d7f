import CivilTime.Proofs.Locale.LongestName
import CivilTime.Proofs.Text.Bytes
import CivilTime.Proofs.Text.Positions

/-!
# The search that tries every name

The plain way to read a name holds the bytes of every name of the list against those of the text.
An index reads what this search does: a longest name that starts the text, as the first value that
the list gives for it. The name ends between two characters of the text, whatever the characters of
the names and of the text are.
-/
namespace CivilTime.Locale

variable {α : Type}

/-- The name is not empty, and its bytes are the first ones of the text up to ASCII case. -/
def Starts (name text : String) : Prop :=
  name ≠ "" ∧ (Text.bytes name).map Text.foldByte <+: (Text.bytes text).map Text.foldByte

/-- The name is one of the list that starts the text, and none of the list that does has more
bytes. -/
structure IsLongestName (names : List (String × α)) (text name : String) : Prop where
  listed : ∃ value, (name, value) ∈ names
  starts : Starts name text
  longest : ∀ other ∈ names, Starts other.1 text → other.1.utf8ByteSize ≤ name.utf8ByteSize

theorem starts_iff {name text : String} :
    Starts name text ↔
      Text.fold name.toList ≠ [] ∧ Text.fold name.toList <+: Text.fold text.toList := by
  rw [Starts, Text.bytes_eq_utf8, Text.bytes_eq_utf8, Text.map_foldByte_prefix_iff, ne_eq,
    ← String.toList_eq_nil_iff]
  simp only [Text.fold, ne_eq, List.map_eq_nil_iff]

/-- Of two names that start a text the one with more bytes has more characters. -/
theorem Starts.utf8ByteSize_le_iff {left right text : String} (first : Starts left text)
    (second : Starts right text) :
    left.utf8ByteSize ≤ right.utf8ByteSize ↔
      (Text.fold left.toList).length ≤ (Text.fold right.toList).length := by
  rw [← Text.byteLength_le_iff (starts_iff.mp first).2 (starts_iff.mp second).2,
    Text.byteLength_fold, Text.byteLength_fold, Text.byteLength_toList, Text.byteLength_toList]

namespace NameIndex

variable {names : List (String × α)} {text : String}

theorem starts_of_mem_entries {entry : NameMatch α} (member : entry ∈ (ofList names).entries)
    (starts : entry.name <+: Text.fold text.toList) :
    ∃ pair ∈ names, Text.fold pair.1.toList = entry.name ∧ Starts pair.1 text := by
  obtain ⟨nonempty, first⟩ := (mem_ofList_iff names entry).mp member
  obtain ⟨pair, given, same, _⟩ := firstValue_eq_some first
  refine ⟨pair, given, same, starts_iff.mpr ?_⟩
  rw [same]
  exact ⟨nonempty, starts⟩

theorem mem_entries_of_starts {pair : String × α} (given : pair ∈ names)
    (starts : Starts pair.1 text) :
    ∃ entry ∈ (ofList names).entries, entry.name = Text.fold pair.1.toList ∧
      entry.name <+: Text.fold text.toList := by
  obtain ⟨nonempty, begins⟩ := starts_iff.mp starts
  obtain ⟨value, first⟩ := exists_firstValue given
  exact ⟨⟨_, value⟩, (mem_ofList_iff names _).mpr ⟨nonempty, first⟩, rfl, begins⟩

theorem longest?_ofList_eq_some_iff (found : NameMatch α) :
    (ofList names).longest? text.toList = some found ↔
      ∃ name, IsLongestName names text name ∧ Text.fold name.toList = found.name ∧
        firstValue names (Text.fold name.toList) = some found.value := by
  rw [(wellFormed_ofList names).longest?_eq_some_iff]
  constructor
  · rintro ⟨member, begins, longest⟩
    obtain ⟨pair, given, same, starts⟩ := starts_of_mem_entries member begins
    refine ⟨pair.1, ⟨⟨pair.2, given⟩, starts, ?_⟩, same, ?_⟩
    -- Entries are compared by characters and names by bytes, which agree on starts of one text.
    · intro other present startsToo
      obtain ⟨entry, listed, key, beginsToo⟩ := mem_entries_of_starts present startsToo
      rw [startsToo.utf8ByteSize_le_iff starts, same, ← key]
      exact longest entry listed beginsToo
    · rw [same]
      exact ((mem_ofList_iff names found).mp member).2
  · rintro ⟨name, ⟨_, starts, longest⟩, same, first⟩
    obtain ⟨nonempty, begins⟩ := starts_iff.mp starts
    rw [same] at nonempty begins first
    refine ⟨(mem_ofList_iff names found).mpr ⟨nonempty, first⟩, begins, ?_⟩
    intro other present beginsToo
    obtain ⟨pair, given, key, startsToo⟩ := starts_of_mem_entries present beginsToo
    have bound := longest pair given startsToo
    rwa [startsToo.utf8ByteSize_le_iff starts, key, same] at bound

theorem bytes_of_fold_eq {found : NameMatch α} {name : String}
    (same : Text.fold name.toList = found.name) : found.bytes = name.utf8ByteSize := by
  rw [NameMatch.bytes, ← same, Text.byteLength_fold, Text.byteLength_toList]

/-- The name found ends between two characters of the text. -/
theorem isValid_bytes {found : NameMatch α}
    (longest : (ofList names).longest? text.toList = some found) :
    String.Pos.Raw.IsValid text ⟨found.bytes⟩ := by
  obtain ⟨_, begins, _⟩ := ((wellFormed_ofList names).longest?_eq_some_iff _ _).mp longest
  have read : Text.fold (text.toList.take found.length) = found.name := by
    rw [Text.fold_take]
    exact (List.prefix_iff_eq_take.mp begins).symm
  -- What is read is a start of the text, and small letters have the size of capitals.
  rw [String.Pos.Raw.isValid_iff_exists_append]
  refine ⟨.ofList (text.toList.take found.length), .ofList (text.toList.drop found.length), ?_, ?_⟩
  · rw [← String.ofList_append, List.take_append_drop, String.ofList_toList]
  · rw [String.Pos.Raw.ext_iff, String.byteIdx_rawEndPos, ← Text.byteLength_toList,
      String.toList_ofList, ← Text.byteLength_fold, read]
    rfl

/-- Reading through the index is the search that tries every name. -/
theorem longest?_agrees_with_naive_search (names : List (String × α)) (text : String) :
    ((ofList names).longest? text.toList = none ↔ ∀ pair ∈ names, ¬ Starts pair.1 text) ∧
    ∀ found, (ofList names).longest? text.toList = some found →
      (∃ name, IsLongestName names text name ∧ found.bytes = name.utf8ByteSize ∧
        firstValue names (Text.fold name.toList) = some found.value) ∧
      String.Pos.Raw.IsValid text ⟨found.bytes⟩ := by
  constructor
  · rw [(wellFormed_ofList names).longest?_eq_none_iff]
    constructor
    · intro none pair given starts
      obtain ⟨entry, member, _, begins⟩ := mem_entries_of_starts given starts
      exact none entry member begins
    · intro none entry member begins
      obtain ⟨pair, given, _, starts⟩ := starts_of_mem_entries member begins
      exact none pair given starts
  · intro found longest
    obtain ⟨name, isLongest, same, first⟩ := (longest?_ofList_eq_some_iff found).mp longest
    exact ⟨⟨name, isLongest, bytes_of_fold_eq same, first⟩, isValid_bytes longest⟩

/-- Names that continue one another, in either case and with a character of two bytes. -/
theorem naive_search_finds_march :
    let names := [("MÄR", 1), ("", 2), ("MÄRZ", 3), ("mÄrz", 4), ("MÄRZEN", 5)]
    (ofList names).longest? "mÄrZ 2021".toList = some ⟨"mÄrz".toList, 3⟩ ∧
    (∃ name, IsLongestName names "mÄrZ 2021" name ∧ 5 = name.utf8ByteSize ∧
      firstValue names (Text.fold name.toList) = some 3) ∧
    String.Pos.Raw.IsValid "mÄrZ 2021" ⟨5⟩ := by
  intro names
  have found : (ofList names).longest? "mÄrZ 2021".toList = some ⟨"mÄrz".toList, 3⟩ := by
    decide +kernel
  exact ⟨found, (longest?_agrees_with_naive_search names "mÄrZ 2021").2 _ found⟩

end NameIndex
end CivilTime.Locale
