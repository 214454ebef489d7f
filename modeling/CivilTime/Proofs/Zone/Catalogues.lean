import CivilTime.Proofs.Text.Bytes
import CivilTime.Zone.Catalogue

/-!
# Catalogues as records of additions

A catalogue is filled zone by zone, from a source first and by hand after that. All that it tells
depends on the list of these additions alone: of those whose identifiers differ in ASCII case only it
keeps the last one. Zones of the source that cannot be used are no additions.

Identifiers are compared by their bytes with ASCII capitals made small. That is what the keys of the
catalogue come down to, for the bytes of a text in small letters are its bytes in small letters.
-/
namespace CivilTime.Zone

/-! ### Keys -/

namespace Catalogue

/-- The bytes of an identifier with ASCII capitals made small. -/
def keyBytes (id : String) : List UInt8 := (Text.bytes id).map Text.foldByte

theorem keyBytes_eq (id : String) : keyBytes id = Text.bytes (Text.foldString id) :=
  (Text.bytes_foldString id).symm

theorem keyBytes_eq_iff {left right : String} :
    keyBytes left = keyBytes right ↔ Text.foldString left = Text.foldString right := by
  rw [keyBytes_eq, keyBytes_eq, Text.bytes_injective.eq_iff]

theorem keyBytes_lt_iff {left right : String} :
    keyBytes left < keyBytes right ↔ Text.foldString left < Text.foldString right := by
  rw [keyBytes_eq, keyBytes_eq, Text.bytes_lt_bytes_iff, String.lt_iff]

/-! ### Additions -/

/-- The zones added one after another. -/
def insertAll (catalogue : Catalogue) (added : List Entry) : Catalogue :=
  added.foldl (fun catalogue entry => catalogue.insert entry.id entry.timeline) catalogue

/-- The last addition under this identifier, up to ASCII case. -/
def lastNamed (added : List Entry) (id : String) : Option Entry :=
  added.reverse.find? fun entry => keyBytes entry.id = keyBytes id

theorem lastNamed_concat (added : List Entry) (entry : Entry) (id : String) :
    lastNamed (added ++ [entry]) id
      = if keyBytes entry.id = keyBytes id then some entry else lastNamed added id := by
  rw [lastNamed, List.reverse_concat, List.find?_cons]
  by_cases same : keyBytes entry.id = keyBytes id <;> simp [same, lastNamed]

theorem insertAll_concat (catalogue : Catalogue) (added : List Entry) (entry : Entry) :
    catalogue.insertAll (added ++ [entry])
      = (catalogue.insertAll added).insert entry.id entry.timeline := by
  rw [insertAll, List.foldl_concat, insertAll]

/-- An addition is found under its own key, and leaves all others as they are. -/
theorem getElem?_insert (catalogue : Catalogue) (id other : String) (timeline : Timeline) :
    (catalogue.insert id timeline).entries[Text.foldString other]?
      = if keyBytes id = keyBytes other then some ⟨id, timeline⟩
        else catalogue.entries[Text.foldString other]? := by
  rw [insert, Std.TreeMap.getElem?_insert]
  simp only [Std.LawfulEqCmp.compare_eq_iff_eq, keyBytes_eq_iff]

theorem getElem?_insertAll (added : List Entry) (id : String) :
    (empty.insertAll added).entries[Text.foldString id]? = lastNamed added id := by
  induction added using List.reverseRecOn with
  | nil => rfl
  | append_singleton added entry ih => rw [insertAll_concat, getElem?_insert, lastNamed_concat, ih]

/-- Entries stand under their own keys. -/
theorem foldString_of_getElem? {added : List Entry} {key : String} {entry : Entry}
    (found : (empty.insertAll added).entries[key]? = some entry) :
    Text.foldString entry.id = key := by
  induction added using List.reverseRecOn with
  | nil => cases found
  | append_singleton added last ih =>
    rw [insertAll_concat, insert, Std.TreeMap.getElem?_insert] at found
    split at found
    next same =>
      cases found
      exact Std.LawfulEqCmp.compare_eq_iff_eq.mp same
    next => exact ih found

theorem getElem?_insertAll_eq_some_iff {added : List Entry} {key : String} {entry : Entry} :
    (empty.insertAll added).entries[key]? = some entry ↔
      Text.foldString entry.id = key ∧ lastNamed added entry.id = some entry := by
  constructor
  · intro found
    have same := foldString_of_getElem? found
    rw [← same, getElem?_insertAll] at found
    exact ⟨same, found⟩
  · rintro ⟨rfl, last⟩
    rw [getElem?_insertAll, last]

/-! ### Listings -/

section Listings

variable {α β : Type} {cmp : α → α → Ordering}

theorem values_eq (t : Std.TreeMap α β cmp) : t.values = t.toList.map Prod.snd := by
  have folded : t.values = t.foldr (fun _ b bs => b :: bs) [] := rfl
  rw [folded, Std.TreeMap.foldr_eq_foldr_toList, List.map_eq_foldr]

end Listings

variable {added : List Entry}

/-- In small letters, the identifiers are the keys. -/
theorem map_foldString_ids (added : List Entry) :
    (empty.insertAll added).ids.map Text.foldString = (empty.insertAll added).entries.keys := by
  rw [ids, values_eq, ← Std.TreeMap.map_fst_toList_eq_keys, List.map_map, List.map_map]
  apply List.map_congr_left
  rintro ⟨key, entry⟩ member
  exact foldString_of_getElem? (Std.TreeMap.mem_toList_iff_getElem?_eq_some.mp member)

theorem mem_ids_iff {id : String} :
    id ∈ (empty.insertAll added).ids ↔ ∃ entry, lastNamed added id = some entry ∧ entry.id = id := by
  rw [ids, values_eq, List.map_map, List.mem_map]
  constructor
  · rintro ⟨⟨key, entry⟩, member, rfl⟩
    have found := Std.TreeMap.mem_toList_iff_getElem?_eq_some.mp member
    exact ⟨entry, (getElem?_insertAll_eq_some_iff.mp found).2, rfl⟩
  · rintro ⟨entry, last, rfl⟩
    refine ⟨(Text.foldString entry.id, entry), ?_, rfl⟩
    rw [Std.TreeMap.mem_toList_iff_getElem?_eq_some, getElem?_insertAll, last]

theorem pairwise_keyBytes_ids (added : List Entry) :
    ((empty.insertAll added).ids.map keyBytes).Pairwise (· < ·) := by
  have ordered := (empty.insertAll added).entries.ordered_keys
  rw [← map_foldString_ids, List.pairwise_map] at ordered
  rw [List.pairwise_map]
  exact ordered.imp fun less => keyBytes_lt_iff.mpr (compare_lt_iff_lt.mp less)

theorem mem_entries_iff {key : String} :
    key ∈ (empty.insertAll added).entries ↔ ∃ entry ∈ added, Text.foldString entry.id = key := by
  induction added using List.reverseRecOn with
  | nil => simp [insertAll, empty]
  | append_singleton added entry ih =>
    rw [insertAll_concat, insert, Std.TreeMap.mem_insert, ih, Std.LawfulEqCmp.compare_eq_iff_eq]
    simp [or_comm, or_and_right, exists_or]

/-- There are as many entries as there are identifiers up to ASCII case. -/
theorem size_insertAll (added : List Entry) :
    (empty.insertAll added).size = (added.map fun entry => keyBytes entry.id).dedup.length := by
  have distinct : (empty.insertAll added).entries.keys.Nodup := by
    simpa [List.Nodup] using (empty.insertAll added).entries.distinct_keys
  -- Neither list names a key twice, and both name the same keys.
  have same : ((empty.insertAll added).entries.keys.map Text.bytes).Perm
      (added.map fun entry => keyBytes entry.id).dedup := by
    rw [List.perm_ext_iff_of_nodup (distinct.map Text.bytes_injective) (List.nodup_dedup _)]
    intro key
    simp [mem_entries_iff, keyBytes_eq]
  rw [← same.length_eq, List.length_map, Std.TreeMap.length_keys, size]

/-! ### What a catalogue tells -/

/-- The catalogue tells what this list of additions makes of it. -/
structure Records (catalogue : Catalogue) (added : List Entry) : Prop where
  get (id : String) (short : id.utf8ByteSize ≤ 64) :
    catalogue.get id
      = (lastNamed added id).elim (fail (.unknownZone id)) fun entry => .ok entry.timeline
  canonicalId? (id : String) (short : id.utf8ByteSize ≤ 64) :
    catalogue.canonicalId? id = (lastNamed added id).map (·.id)
  get_of_long (id : String) (long : 64 < id.utf8ByteSize) :
    catalogue.get id = fail (.unknownZone id)
  canonicalId?_of_long (id : String) (long : 64 < id.utf8ByteSize) :
    catalogue.canonicalId? id = none
  size : catalogue.size = (added.map fun entry => keyBytes entry.id).dedup.length
  /-- The spellings that are listed are those of the last additions. -/
  mem_ids (id : String) :
    id ∈ catalogue.ids ↔ ∃ entry, lastNamed added id = some entry ∧ entry.id = id
  ascending : (catalogue.ids.map keyBytes).Pairwise (· < ·)

theorem entry?_of_short {catalogue : Catalogue} {id : String} (short : id.utf8ByteSize ≤ 64) :
    catalogue.entry? id = catalogue.entries[Text.foldString id]? := by
  unfold entry?
  rw [Text.byteLength_toList, maxIdLength, if_neg (by omega)]

theorem entry?_of_long {catalogue : Catalogue} {id : String} (long : 64 < id.utf8ByteSize) :
    catalogue.entry? id = none := by
  unfold entry?
  rw [Text.byteLength_toList, maxIdLength, if_pos long]

theorem records_insertAll (added : List Entry) : Records (empty.insertAll added) added where
  get id short := by
    rw [get, entry?_of_short short, getElem?_insertAll]
    cases lastNamed added id <;> rfl
  canonicalId? id short := by rw [canonicalId?, entry?_of_short short, getElem?_insertAll]
  get_of_long id long := by rw [get, entry?_of_long long]
  canonicalId?_of_long id long := by rw [canonicalId?, entry?_of_long long]; rfl
  size := size_insertAll added
  mem_ids _ := mem_ids_iff
  ascending := pairwise_keyBytes_ids added

end Catalogue

/-! ### Catalogues of a source -/

/-- The listed zones whose data can be used. -/
def Source.zones (source : Source) (ids : List String) : List Catalogue.Entry :=
  ids.filterMap fun id => (source.timeline id).toOption.map (Catalogue.Entry.mk id)

namespace Catalogue

/-- Zones whose data cannot be used leave the catalogue as it is. -/
theorem foldl_insertFrom (source : Source) (ids : List String) (catalogue : Catalogue) :
    ids.foldl (insertFrom source) catalogue = catalogue.insertAll (source.zones ids) := by
  induction ids generalizing catalogue with
  | nil => rfl
  | cons id ids ih =>
    rw [List.foldl_cons, ih, insertFrom, Source.zones, Source.zones, List.filterMap_cons]
    cases source.timeline id with
    | ok timeline => rfl
    | error _ => rfl

theorem insertAll_append (catalogue : Catalogue) (first second : List Entry) :
    (catalogue.insertAll first).insertAll second = catalogue.insertAll (first ++ second) :=
  List.foldl_append.symm

theorem ofSource_eq (source : Source) :
    ofSource source
      = (fromSource source.identifiers).map fun ids => empty.insertAll (source.zones ids) := by
  simp only [ofSource, foldl_insertFrom]

/-- The catalogue of a source fails only where the source lists no identifiers. Else it keeps, of the
zones of the source that can be used and of those added later, the last one under each identifier. -/
theorem last_addition_wins (source : Source) (added : List Entry) :
    ((∃ error, ofSource source = .error error) ↔ ∃ error, source.identifiers = .error error) ∧
      ∀ ids, source.identifiers = .ok ids → ∃ catalogue, ofSource source = .ok catalogue ∧
        Records (catalogue.insertAll added) (source.zones ids ++ added) := by
  rw [ofSource_eq]
  cases source.identifiers with
  | error error => simp [fromSource, Except.mapError, Except.map]
  | ok ids =>
    refine ⟨by simp [fromSource, Except.mapError, Except.map], ?_⟩
    rintro _ ⟨⟩
    refine ⟨empty.insertAll (source.zones ids), rfl, ?_⟩
    rw [insertAll_append]
    exact records_insertAll _

/-- A source that lists one zone in two spellings, the second without data. -/
def spelledTwice : Source where
  identifiers := .ok ["Etc/UTC", "Asia/Tokyo", "ASIA/TOKYO"]
  describe id :=
    if id = "Etc/UTC" then .ok (.fixed 0)
    else if id = "Asia/Tokyo" then .ok (.fixed 32400)
    else .error .notFound

/-- A zone without data does not take the place of one that has been added, another zone does. -/
theorem last_addition_wins_spelledTwice :
    ∃ catalogue, ofSource spelledTwice = .ok catalogue ∧
      (catalogue.insert "etc/Utc" (.fixed 0)).canonicalId? "asia/tokyo" = some "Asia/Tokyo" ∧
      (catalogue.insert "etc/Utc" (.fixed 0)).canonicalId? "Etc/UTC" = some "etc/Utc" ∧
      (catalogue.insert "etc/Utc" (.fixed 0)).size = 2 := by
  obtain ⟨catalogue, made, records⟩ :=
    (last_addition_wins spelledTwice [⟨"etc/Utc", .fixed 0⟩]).2 _ rfl
  exact ⟨catalogue, made, records.canonicalId? "asia/tokyo" (by decide),
    records.canonicalId? "Etc/UTC" (by decide), records.size⟩

end Catalogue

end CivilTime.Zone
