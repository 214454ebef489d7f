import CivilTime.Layout.Pattern
import CivilTime.Layout.Read
import CivilTime.Layout.Write

/-!
# Standard layouts

The layouts in common use, written and read in English. A missing instant is written as nothing.
-/
namespace CivilTime

inductive StandardLayout where
  /-- ISO 8601 with milliseconds, in UTC. -/
  | isoMillis
  /-- ISO 8601 with microseconds, in UTC. -/
  | isoMicros
  /-- ISO 8601 with nanoseconds, in UTC. -/
  | isoNanos
  /-- The date of an HTTP header. -/
  | http
  /-- The timestamp of a database, with microseconds. -/
  | postgres
  | date
  | yearMonth
  /-- The date in digits only. -/
  | compactDate
  deriving DecidableEq, Repr

namespace StandardLayout

def pattern : StandardLayout → String
  | isoMillis => "yyyy-MM-dd'T'HH:mm:ss.SSS'Z'"
  | isoMicros => "yyyy-MM-dd'T'HH:mm:ss.SSSUUU'Z'"
  | isoNanos => "yyyy-MM-dd'T'HH:mm:ss.SSSUUUNNN'Z'"
  | http => "E, d MMM yyyy HH:mm:ss z"
  | postgres => "yyyy-MM-dd HH:mm:ss.SSSUUU"
  | date => "yyyy-MM-dd"
  | yearMonth => "yyyy-MM"
  | compactDate => "yyyyMMdd"

/-- Year, month and day with the fixed text number 0 between them. -/
def dateItems : List Item :=
  [.year (.fixed 4), .literal 0, .number .month (.fixed 2), .literal 0, .number .day (.fixed 2)]

/-- Hour, minute and second with a fixed text between them. -/
def timeItems (separator : Nat) : List Item :=
  [.hour .from0To23 (.fixed 2), .literal separator, .number .minute (.fixed 2),
   .literal separator, .number .second (.fixed 2)]

def fractionItems (fields : List NumberField) : List Item :=
  fields.map fun field => .number field (.fixed 3)

/-- ISO 8601 in UTC, with the given parts of the second. -/
def iso (fields : List NumberField) : Layout where
  items :=
    dateItems ++ [.literal 1] ++ timeItems 2 ++ [.literal 3] ++ fractionItems fields ++ [.literal 4]
  literals := ["-", "T", ":", ".", "Z"]

def layout : StandardLayout → Layout
  | isoMillis => iso [.millisecond]
  | isoMicros => iso [.millisecond, .microsecond]
  | isoNanos => iso [.millisecond, .microsecond, .nanosecond]
  | http =>
    { items :=
        [.weekdayName .short, .literal 0, .number .day .greedy, .literal 1, .monthName .short,
         .literal 1, .year (.fixed 4), .literal 1] ++ timeItems 2 ++ [.literal 1, .zone]
      literals := [", ", " ", ":"] }
  | postgres =>
    { items :=
        dateItems ++ [.literal 1] ++ timeItems 2 ++ [.literal 3]
          ++ fractionItems [.millisecond, .microsecond]
      literals := ["-", " ", ":", "."] }
  | date => ⟨dateItems, ["-"]⟩
  | yearMonth => ⟨[.year (.fixed 4), .literal 0, .number .month (.fixed 2)], ["-"]⟩
  | compactDate =>
    ⟨[.year (.fixed 4), .number .month (.fixed 2), .number .day (.fixed 2)], []⟩

/-- The layout is the one that the pattern describes. -/
theorem ofPattern_pattern (standard : StandardLayout) :
    Layout.ofPattern standard.pattern = .ok standard.layout := by
  cases standard <;> rfl

def zoneName : StandardLayout → String
  | http => "GMT"
  | _ => ""

/-- The text of an instant, empty for a missing one. -/
def format (standard : StandardLayout) (n : Int) : String :=
  if n = minNanos then "" else standard.layout.format n none standard.zoneName

/-- The instant that a text gives. Two-digit years do not occur, so any window serves. The zones of
the catalogue are the bundled ones unless given. -/
def parse (standard : StandardLayout) (text : String)
    (catalogue : Zone.Catalogue := Zone.Bundled.catalogue) : Except TimeError Int :=
  standard.layout.parse { bundled := catalogue, window := .around 2000 } text

end StandardLayout

/-- The instant of an ISO 8601 text in UTC. Its length in bytes tells the precision. -/
def parseIso (text : String) (catalogue : Zone.Catalogue := Zone.Bundled.catalogue) :
    Except TimeError Int :=
  let standard : StandardLayout :=
    match Text.byteLength text.toList with
    | 30 => .isoNanos
    | 27 => .isoMicros
    | _ => .isoMillis
  standard.parse text catalogue

end CivilTime
