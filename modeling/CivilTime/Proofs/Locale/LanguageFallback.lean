import CivilTime.Locale.Registry
import CivilTime.Proofs.Text.Positions

/-!
# Locales found by their language

A registry stands for the list of its registrations: under each name it has the last one. So an
identifier gets the table of its own tag, or else that of its language, up to the length that keys
have. Nothing is ever registered under a longer name, but neither is the language looked up for it.
-/
namespace CivilTime.Locale

/-! ### Names of tags -/

/-- A tag of a language without other parts. -/
def LanguageTag.ofLanguage (language : String) : LanguageTag := ⟨language, none, none, []⟩

theorem LanguageTag.ofLanguage_eq_unknown_iff {language : String} :
    ofLanguage language = unknown ↔ language = unknown.language := by
  simp [ofLanguage, unknown]

namespace TagFormat

/-- A language alone is written as it stands, and the identifiers of the standard locales are read as
languages alone. -/
structure IsPlain (format : TagFormat) : Prop where
  write : ∀ language, format.write (.ofLanguage language) = language
  read : ∀ entry ∈ Standard.all, format.read? entry.1 = some (.ofLanguage entry.1)

theorem isPlain_standard : standard.IsPlain where
  write language := (String.intercalate_singleton : "-".intercalate [language] = language)
  read := by decide +kernel

variable (format : TagFormat)

/-- The name that a tag is registered under. The unknown language is English. -/
def name (tag : LanguageTag) : String := if tag = .unknown then "en" else format.write tag

/-- Keys have at most sixteen bytes. -/
def IsShort (tag : LanguageTag) : Prop := (format.name tag).utf8ByteSize ≤ 16

instance (tag : LanguageTag) : Decidable (format.IsShort tag) := by
  unfold IsShort
  infer_instance

variable {format}

theorem IsPlain.name_ofLanguage (plain : format.IsPlain) (tag : LanguageTag) :
    format.name (.ofLanguage tag.language) = Registry.languageKey tag := by
  rw [name, plain.write, Registry.languageKey]
  simp only [LanguageTag.ofLanguage_eq_unknown_iff]

/-- The standard locales have the names of their tags. -/
theorem IsPlain.name_read (plain : format.IsPlain) :
    ∀ entry ∈ Standard.all, (tagOf? entry.1 format).map format.name = some entry.1 := by
  have others : ∀ entry ∈ Standard.all,
      entry.1.isEmpty = false ∧ LanguageTag.ofLanguage entry.1 ≠ .unknown := by decide +kernel
  intro entry member
  obtain ⟨nonempty, known⟩ := others entry member
  rw [tagOf?, nonempty, if_neg Bool.false_ne_true, plain.read entry member, Option.map_some, name,
    if_neg known, plain.write]

end TagFormat

section Resolution

variable {format : TagFormat} {id : String} {tag : LanguageTag}

theorem keyOf?_eq (format : TagFormat) (tag : LanguageTag) :
    keyOf? tag format = if format.IsShort tag then some (format.name tag) else none := by
  simp only [keyOf?, Text.byteLength_toList]
  rfl

theorem resolve_of_short (named : tagOf? id format = some tag) (short : format.IsShort tag) :
    resolve id format = .ok (tag, format.name tag) := by
  simp only [resolve, named, keyOf?_eq, if_pos short]

theorem resolve_of_long (named : tagOf? id format = some tag) (long : ¬ format.IsShort tag) :
    resolve id format = fail (.unknownLocale id) := by
  simp only [resolve, named, keyOf?_eq, if_neg long]

theorem resolve_eq_ok {key : String} (resolved : resolve id format = .ok (tag, key)) :
    tagOf? id format = some tag ∧ key = format.name tag := by
  unfold resolve at resolved
  split at resolved
  · cases resolved
  · next named =>
    rw [keyOf?_eq] at resolved
    split_ifs at resolved
    · cases resolved
      exact ⟨named, rfl⟩
    · cases resolved

end Resolution

/-! ### Registrations -/

/-- A table as it is registered. -/
structure Registration where
  id : String
  names : Names
  zoneIds : List String

namespace Registry

/-- The table that was last registered under a name. -/
def lastUnder (format : TagFormat) (added : List Registration) (name : String) : Option Table :=
  (added.reverse.find? fun r => (tagOf? r.id format).map format.name = some name).map
    fun r => ⟨name, r.names, r.zoneIds⟩

variable {format : TagFormat} {registry next : Registry} {added : List Registration} {id : String}
  {tag : LanguageTag}

theorem lastUnder_concat {r : Registration} (named : tagOf? r.id format = some tag)
    (name : String) :
    lastUnder format (added ++ [r]) name
      = if format.name tag = name then some ⟨name, r.names, r.zoneIds⟩
        else lastUnder format added name := by
  rw [lastUnder, List.reverse_concat, List.find?_cons]
  by_cases same : format.name tag = name <;> simp [named, same, lastUnder]

/-- The registrations of the standard locales. -/
def standardRegistrations (zoneIds : List String) : List Registration :=
  Standard.all.map fun (id, names) => ⟨id, names, zoneIds⟩

/-- A registry is filled by these registrations, from an empty one or the standard one on. A
registration that fails leaves no trace. -/
inductive Reached (format : TagFormat) : Registry → List Registration → Prop
  | empty : Reached format empty []
  | standard (zoneIds : List String) :
      Reached format (standard zoneIds) (standardRegistrations zoneIds)
  | insert {registry next : Registry} {added : List Registration} {id : String} {names : Names}
      {zoneIds : List String} (reached : Reached format registry added)
      (inserted : registry.insert id names zoneIds format = .ok next) :
      Reached format next (added ++ [⟨id, names, zoneIds⟩])

theorem insert_eq_ok {names : Names} {zoneIds : List String}
    (inserted : registry.insert id names zoneIds format = .ok next) :
    ∃ tag, tagOf? id format = some tag ∧
      next = ⟨registry.tables.insert (format.name tag) ⟨format.name tag, names, zoneIds⟩⟩ := by
  unfold insert at inserted
  cases resolved : resolve id format with
  | error error =>
    rw [resolved] at inserted
    cases inserted
  | ok found =>
    obtain ⟨tag, key⟩ := found
    obtain ⟨named, rfl⟩ := resolve_eq_ok resolved
    rw [resolved] at inserted
    cases inserted
    exact ⟨tag, named, rfl⟩

theorem getElem?_ofList {named : List (String × Names)}
    (own : ∀ entry ∈ named, (tagOf? entry.1 format).map format.name = some entry.1)
    (zoneIds : List String) (name : String) :
    (Std.TreeMap.ofList (named.map fun (id, names) => (id, (⟨id, names, zoneIds⟩ : Table))))[name]?
      = lastUnder format (named.map fun (id, names) => ⟨id, names, zoneIds⟩) name := by
  rw [Std.TreeMap.ofList_eq_insertMany_empty]
  induction named using List.reverseRecOn with
  | nil => rfl
  | append_singleton named entry ih =>
    obtain ⟨tag, found, same⟩ := Option.map_eq_some_iff.mp (own entry (by simp))
    rw [List.map_append, List.map_append, Std.TreeMap.insertMany_append]
    simp only [List.map_singleton]
    rw [Std.TreeMap.insertMany_list_singleton, Std.TreeMap.getElem?_insert, lastUnder_concat found,
      ih fun entry member => own entry (by simp [member]), same]
    by_cases equal : entry.1 = name <;> simp [equal]

/-- Under each name there is the table that was last registered under it. -/
theorem Reached.getElem? (plain : format.IsPlain) (reached : Reached format registry added)
    (name : String) : registry.tables[name]? = lastUnder format added name := by
  induction reached with
  | empty => rfl
  | standard zoneIds => exact getElem?_ofList plain.name_read zoneIds name
  | insert reached inserted ih =>
    -- The new table hides the one that was there under its name, and no other.
    obtain ⟨tag, named, rfl⟩ := insert_eq_ok inserted
    rw [Std.TreeMap.getElem?_insert, lastUnder_concat named, ih]
    by_cases equal : format.name tag = name <;> simp [equal]

/-! ### Look-ups -/

/-- The table that a tag stands for: the one of its own name, or of its language alone. -/
def tableFor (format : TagFormat) (added : List Registration) (tag : LanguageTag) : Option Table :=
  (lastUnder format added (format.name tag)).or
    (lastUnder format added (format.name (.ofLanguage tag.language)))

theorem get_of_resolve (registry : Registry) {key : String}
    (resolved : resolve id format = .ok (tag, key)) :
    registry.get id format
      = (registry.tables[key]?.or registry.tables[languageKey tag]?).elim
          (fail (.unknownLocale id)) .ok := by
  rw [get, resolved]
  dsimp only [bind, Except.bind]
  cases registry.tables[key]? with
  | some table => rfl
  | none => cases registry.tables[languageKey tag]? <;> rfl

theorem get_of_short (plain : format.IsPlain) (reached : Reached format registry added)
    (named : tagOf? id format = some tag) (short : format.IsShort tag) :
    registry.get id format
      = (tableFor format added tag).elim (fail (.unknownLocale id)) .ok := by
  rw [get_of_resolve registry (resolve_of_short named short), reached.getElem? plain,
    reached.getElem? plain, ← plain.name_ofLanguage, tableFor]

theorem get_of_long (registry : Registry) (named : tagOf? id format = some tag)
    (long : ¬ format.IsShort tag) : registry.get id format = fail (.unknownLocale id) := by
  rw [get, resolve_of_long named long]
  rfl

/-- An identifier gets the table that its tag stands for exactly if the name of the tag is no longer
than a key or there is none. Behind a longer name nothing is found, be its language registered or
not. -/
theorem get_falls_back_iff (plain : format.IsPlain) (reached : Reached format registry added)
    (named : tagOf? id format = some tag) :
    (registry.get id format = (tableFor format added tag).elim (fail (.unknownLocale id)) .ok ↔
        (format.name tag).utf8ByteSize ≤ 16 ∨ tableFor format added tag = none) ∧
      (16 < (format.name tag).utf8ByteSize →
        registry.get id format = fail (.unknownLocale id)) := by
  have refused (long : ¬ format.IsShort tag) :
      registry.get id format = fail (.unknownLocale id) := get_of_long registry named long
  refine ⟨⟨fun served => ?_, ?_⟩, fun long => refused (Nat.not_le.mpr long)⟩
  · by_contra neither
    -- The table that a longer name stands for is that of its language, and it is not found.
    obtain ⟨long, stands⟩ := not_or.mp neither
    obtain ⟨table, found⟩ := Option.ne_none_iff_exists'.mp stands
    rw [refused long, found] at served
    cases served
  · rintro (short | none)
    · exact get_of_short plain reached named short
    · by_cases short : format.IsShort tag
      · exact get_of_short plain reached named short
      · rw [refused short, none]
        rfl

/-- The English of the United States has a German table here. In a Latin script it falls back to the
English one, and with a variant besides it has none. -/
theorem get_falls_back_iff_of_inserted :
    ∃ registry, (standard []).insert "EN-us" Standard.german [] .standard = .ok registry ∧
      registry.get "en-US" .standard = .ok ⟨"en-US", Standard.german, []⟩ ∧
      registry.get "en-Latn-US" .standard = .ok Standard.englishTable ∧
      registry.get "en-Latn-US-valencia" .standard
        = fail (.unknownLocale "en-Latn-US-valencia") := by
  have resolved : resolve "EN-us" .standard = .ok (⟨"en", none, some "US", []⟩, "en-US") := by
    decide +kernel
  have inserted : (standard []).insert "EN-us" Standard.german [] .standard
      = .ok ⟨(standard []).tables.insert "en-US" ⟨"en-US", Standard.german, []⟩⟩ := by
    rw [insert, resolved]
    rfl
  have plain := TagFormat.isPlain_standard
  have reached := (Reached.standard []).insert inserted
  have region : tagOf? "en-US" .standard = some ⟨"en", none, some "US", []⟩ := by decide +kernel
  have script : tagOf? "en-Latn-US" .standard = some ⟨"en", some "Latn", some "US", []⟩ := by
    decide +kernel
  have variant : tagOf? "en-Latn-US-valencia" .standard
      = some ⟨"en", some "Latn", some "US", ["valencia"]⟩ := by decide +kernel
  refine ⟨_, inserted, ?_, ?_, (get_falls_back_iff plain reached variant).2 (by decide)⟩
  · exact (get_falls_back_iff plain reached region).1.mpr (.inl (by decide))
  · exact (get_falls_back_iff plain reached script).1.mpr (.inl (by decide))

/-- English is registered, but for an identifier of nineteen bytes nothing is found. -/
theorem get_refuses_registered_language :
    lastUnder .standard (standardRegistrations []) "en" = some Standard.englishTable ∧
      (standard []).get "en-Latn-US-valencia" .standard
        = fail (.unknownLocale "en-Latn-US-valencia") := by
  have variant : tagOf? "en-Latn-US-valencia" .standard
      = some ⟨"en", some "Latn", some "US", ["valencia"]⟩ := by decide +kernel
  exact ⟨rfl, get_of_long _ variant (by decide)⟩

end Registry
end CivilTime.Locale
