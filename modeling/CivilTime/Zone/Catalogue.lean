import CivilTime.Text.Fold
import CivilTime.Text.Span
import CivilTime.Zone.Timeline
import Std.Data.TreeMap

/-!
# Catalogues of zones

A catalogue maps identifiers to timelines without regard to ASCII case, and keeps the spelling it
was last given. It is filled zone by zone or from a source of zone data, where zones that cannot be
used are left out.
-/
namespace CivilTime.Zone

/-- A source of zone data: the identifiers it lists and what it says about each. -/
structure Source where
  identifiers : Except SourceError (List String)
  describe : String → Except SourceError Description

def Source.timeline (source : Source) (id : String) : Except TimeError Timeline :=
  fromSource (source.describe id) >>= Timeline.ofDescription

structure Catalogue.Entry where
  id : String
  timeline : Timeline

structure Catalogue where
  /-- Keyed by the identifier without ASCII capitals, in order of the key. -/
  entries : Std.TreeMap String Catalogue.Entry

namespace Catalogue

def empty : Catalogue := ⟨∅⟩

/-- Adds a zone, in place of one whose identifier differs in ASCII case only. -/
def insert (catalogue : Catalogue) (id : String) (timeline : Timeline) : Catalogue :=
  ⟨catalogue.entries.insert (Text.foldString id) ⟨id, timeline⟩⟩

/-- Adds the zone that a source describes, if its data can be used. -/
def insertFrom (source : Source) (catalogue : Catalogue) (id : String) : Catalogue :=
  match source.timeline id with
  | .ok timeline => catalogue.insert id timeline
  | .error _ => catalogue

def ofSource (source : Source) : Except TimeError Catalogue :=
  (fromSource source.identifiers).map fun ids => ids.foldl (insertFrom source) empty

/-- The length in bytes past which no identifier is looked up. -/
def maxIdLength : Nat := 64

def entry? (catalogue : Catalogue) (id : String) : Option Entry :=
  if maxIdLength < Text.byteLength id.toList then
    none
  else
    catalogue.entries[Text.foldString id]?

def get (catalogue : Catalogue) (id : String) : Except TimeError Timeline :=
  match catalogue.entry? id with
  | some entry => .ok entry.timeline
  | none => fail (.unknownZone id)

/-- The identifier as it was added. -/
def canonicalId? (catalogue : Catalogue) (id : String) : Option String :=
  (catalogue.entry? id).map (·.id)

/-- The identifiers as they were added, in order of their keys. -/
def ids (catalogue : Catalogue) : List String := catalogue.entries.values.map (·.id)

def size (catalogue : Catalogue) : Nat := catalogue.entries.size

def isEmpty (catalogue : Catalogue) : Bool := catalogue.entries.isEmpty

end Catalogue
end CivilTime.Zone
