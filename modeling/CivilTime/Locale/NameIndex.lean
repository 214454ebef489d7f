import CivilTime.Text.Bytes
import CivilTime.Text.Span

/-!
# Reading names

An index of names reads the longest of them that starts a text, without regard to ASCII case. Of
names that differ in ASCII case only, the first one given counts.

The names are kept in the order of their bytes. Those that start with the first byte of the text
stand together, and only these are compared with it.
-/
namespace CivilTime.Locale

/-- A name and what it stands for. -/
structure NameMatch (α : Type) where
  /-- The name without ASCII capitals. -/
  name : List Char
  value : α
  deriving DecidableEq, Repr

namespace NameMatch

variable {α : Type}

def length (m : NameMatch α) : Nat := m.name.length

/-- The number of bytes of the name. -/
def bytes (m : NameMatch α) : Nat := Text.byteLength m.name

/-- What names are ordered and compared by. -/
def key (m : NameMatch α) : List UInt8 := Text.utf8 m.name

/-- Whether the text of these bytes starts with the name, in either case. -/
def starts (m : NameMatch α) (text : List UInt8) : Bool :=
  m.key.length ≤ text.length
    && (text.take m.key.length).map Text.foldByte == m.key.map Text.foldByte

end NameMatch

/-- Names without ASCII capitals with their values. None is empty, no two are equal, and they are in
the order of their keys. -/
structure NameIndex (α : Type) where
  entries : List (NameMatch α)

namespace NameIndex

variable {α : Type}

/-! ### Building -/

/-- Puts an entry in front of the first one whose key is not before its own. -/
def insertSorted (entry : NameMatch α) : List (NameMatch α) → List (NameMatch α)
  | [] => [entry]
  | other :: rest =>
    if entry.key ≤ other.key then entry :: other :: rest else other :: insertSorted entry rest

/-- The entries in the order of their keys. Those of one key keep their order. -/
def sort (entries : List (NameMatch α)) : List (NameMatch α) := entries.foldr insertSorted []

/-- Leaves out entries with the name of the last one that was kept, which is `last` at first. -/
def dropRepeats (last : NameMatch α) : List (NameMatch α) → List (NameMatch α)
  | [] => []
  | entry :: rest =>
    if entry.name = last.name then dropRepeats last rest else entry :: dropRepeats entry rest

/-- Of entries of one name that stand together, the first one. -/
def firstOfEach : List (NameMatch α) → List (NameMatch α)
  | [] => []
  | entry :: rest => entry :: dropRepeats entry rest

def ofList (names : List (String × α)) : NameIndex α :=
  let given := names.filter fun (name, _) => !name.isEmpty
  ⟨firstOfEach (sort (given.map fun (name, value) => ⟨Text.fold name.toList, value⟩))⟩

def size (index : NameIndex α) : Nat := index.entries.length

/-! ### Searching -/

/-- The number of elements in front that satisfy `p`, where those that do all come first. Each step
looks at the element in the middle and goes on in one half. -/
def partitionPoint (p : α → Bool) (as : List α) : Nat :=
  match found : as[as.length / 2]? with
  | none => 0
  | some a =>
    if p a then
      as.length / 2 + 1 + partitionPoint p (as.drop (as.length / 2 + 1))
    else
      partitionPoint p (as.take (as.length / 2))
termination_by as.length
decreasing_by
  all_goals
    obtain ⟨inside, -⟩ := List.getElem?_eq_some_iff.1 found
    simp only [List.length_drop, List.length_take]
    omega

/-- The entries whose keys start with this byte. -/
def block (index : NameIndex α) (first : UInt8) : List (NameMatch α) :=
  let start := partitionPoint (fun entry => entry.key.head?.all (· < first)) index.entries
  (index.entries.drop start).takeWhile fun entry => entry.key.head? == some first

/-- The entry, if it starts the text of these bytes and is longer than the best one so far. -/
def better (text : List UInt8) (best : Option (NameMatch α)) (entry : NameMatch α) :
    Option (NameMatch α) :=
  let longer := best.all fun best => best.key.length < entry.key.length
  if longer && entry.starts text then some entry else best

/-- The entry with the longest name that starts the text. -/
def longest? (index : NameIndex α) (cs : List Char) : Option (NameMatch α) :=
  let text := Text.utf8 cs
  match text.head? with
  | none => none
  | some first => (index.block (Text.foldByte first)).foldl (better text) none

end NameIndex
end CivilTime.Locale
