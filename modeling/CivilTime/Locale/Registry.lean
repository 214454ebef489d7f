import CivilTime.Error
import CivilTime.Locale.LanguageTag
import CivilTime.Locale.Standard
import CivilTime.Text.Span
import Std.Data.TreeMap

/-!
# Registries of locales

Tables found by language tag. Without a table for the tag, the one for its bare language serves; the
unknown language counts as English. The format of tags is the standard one unless given.
-/
namespace CivilTime.Locale

/-- The greatest length of a key in bytes. -/
def maxKeyLength : Nat := 16

/-- The tag that an identifier names. The empty identifier names the unknown language. -/
def tagOf? (id : String) (format : TagFormat := .standard) : Option LanguageTag :=
  if id.isEmpty then some .unknown else format.read? id

/-- The key of a tag, if it is not too long. -/
def keyOf? (tag : LanguageTag) (format : TagFormat := .standard) : Option String :=
  let key := if tag = .unknown then "en" else format.write tag
  if Text.byteLength key.toList ≤ maxKeyLength then some key else none

def resolve (id : String) (format : TagFormat := .standard) :
    Except TimeError (LanguageTag × String) :=
  match tagOf? id format with
  | none => fail (.unknownLocale id)
  | some tag =>
    match keyOf? tag format with
    | none => fail (.unknownLocale id)
    | some key => .ok (tag, key)

structure Registry where
  /-- Keyed by the canonical form of the tag. -/
  tables : Std.TreeMap String Table

namespace Registry

def empty : Registry := ⟨∅⟩

/-- The standard locales, each reading the given zone identifiers. -/
def standard (zoneIds : List String) : Registry :=
  ⟨.ofList (Standard.all.map fun (id, names) => (id, (⟨id, names, zoneIds⟩ : Table)))⟩

/-- Adds a table, in place of one with the same key. -/
def insert (registry : Registry) (id : String) (names : Names) (zoneIds : List String)
    (format : TagFormat := .standard) : Except TimeError Registry :=
  (resolve id format).map fun (_, key) => ⟨registry.tables.insert key ⟨key, names, zoneIds⟩⟩

/-- The key of the tag's bare language. -/
def languageKey (tag : LanguageTag) : String :=
  if tag.language = LanguageTag.unknown.language then "en" else tag.language

/-- The table for an identifier, or for its bare language. -/
def get (registry : Registry) (id : String) (format : TagFormat := .standard) :
    Except TimeError Table := do
  let (tag, key) ← resolve id format
  match registry.tables[key]? with
  | some table => .ok table
  | none =>
    match registry.tables[languageKey tag]? with
    | some table => .ok table
    | none => fail (.unknownLocale id)

def ids (registry : Registry) : List String := registry.tables.keys

end Registry
end CivilTime.Locale
