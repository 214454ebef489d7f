/-!
# Language tags

Tags of a language with an optional script, region and variants, joined by hyphens. The canonical
form has the language in small letters, the script capitalized, the region in capitals and the
variants in small letters and sorted.
-/
namespace CivilTime.Locale

structure LanguageTag where
  language : String
  script : Option String
  region : Option String
  /-- In strictly ascending order. -/
  variants : List String
  deriving DecidableEq, Repr

namespace LanguageTag

def unknown : LanguageTag := ⟨"und", none, none, []⟩

/-! ### Subtags -/

def isLanguage (subtag : List Char) : Bool :=
  (subtag.length == 2 || subtag.length == 3) && subtag.all Char.isAlpha

def isScript (subtag : List Char) : Bool := subtag.length == 4 && subtag.all Char.isAlpha

/-- Two letters or three digits. -/
def isRegion (subtag : List Char) : Bool :=
  (subtag.length == 2 && subtag.all Char.isAlpha) || (subtag.length == 3 && subtag.all Char.isDigit)

/-- Five to eight letters and digits, or four that start with a digit. -/
def isVariant (subtag : List Char) : Bool :=
  subtag.all Char.isAlphanum
    && ((5 ≤ subtag.length && subtag.length ≤ 8)
      || (subtag.length == 4 && subtag.head?.any Char.isDigit))

def lower (subtag : List Char) : String := String.ofList (subtag.map Char.toLower)

def upper (subtag : List Char) : String := String.ofList (subtag.map Char.toUpper)

def capitalized : List Char → String
  | [] => ""
  | c :: cs => String.ofList (c.toUpper :: cs.map Char.toLower)

/-! ### Reading -/

/-- Takes the first subtag if it has the given form. -/
def takeSubtag? (isForm : List Char → Bool) :
    List (List Char) → Option (List Char) × List (List Char)
  | [] => (none, [])
  | subtag :: rest => if isForm subtag then (some subtag, rest) else (none, subtag :: rest)

/-- Adds a variant to a sorted list, unless it is there already. -/
def insertVariant (variant : String) : List String → Option (List String)
  | [] => some [variant]
  | v :: vs =>
    if variant = v then none
    else if variant < v then some (variant :: v :: vs)
    else (insertVariant variant vs).map (v :: ·)

/-- The variants that the subtags are, sorted. -/
def variants? : List (List Char) → Option (List String)
  | [] => some []
  | subtag :: rest =>
    if isVariant subtag then (variants? rest).bind (insertVariant (lower subtag)) else none

def ofSubtags? : List (List Char) → Option LanguageTag
  | [] => none
  | language :: rest =>
    if isLanguage language then
      let (script, rest) := takeSubtag? isScript rest
      let (region, rest) := takeSubtag? isRegion rest
      (variants? rest).map fun variants =>
        ⟨lower language, script.map capitalized, region.map upper, variants⟩
    else
      none

def ofString? (s : String) : Option LanguageTag := ofSubtags? (s.toList.splitOn '-')

/-! ### Writing -/

def canonical (tag : LanguageTag) : String :=
  "-".intercalate
    ([tag.language] ++ tag.script.toList ++ tag.region.toList ++ tag.variants)

end LanguageTag

/-- How identifiers are read as tags and how tags are written. -/
structure TagFormat where
  read? : String → Option LanguageTag
  write : LanguageTag → String

/-- Subtags joined by hyphens. -/
def TagFormat.standard : TagFormat := ⟨LanguageTag.ofString?, LanguageTag.canonical⟩

end CivilTime.Locale
