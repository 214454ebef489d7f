import CivilTime.Nanos
import CivilTime.Text.Blank
import CivilTime.Zone.SourceError

/-!
# Errors

An error is a cause, possibly located at a character of the text being read. The kind of an
error and its wording are functions of the cause.
-/
namespace CivilTime

/-- The quantities that a text can give a number for. -/
inductive Quantity where
  | year | month | day | hour | minute | second | millisecond | microsecond | nanosecond
  | weekday | instant
  deriving DecidableEq, Repr

namespace Quantity

def name : Quantity → String
  | year => "year"
  | month => "month"
  | day => "day"
  | hour => "hour"
  | minute => "minute"
  | second => "second"
  | millisecond => "millisecond"
  | microsecond => "microsecond"
  | nanosecond => "nanosecond"
  | weekday => "weekday"
  | instant => "instant"

/-- The name as the first word of a sentence. -/
def title : Quantity → String
  | year => "Year"
  | month => "Month"
  | day => "Day"
  | hour => "Hour"
  | minute => "Minute"
  | second => "Second"
  | millisecond => "Millisecond"
  | microsecond => "Microsecond"
  | nanosecond => "Nanosecond"
  | weekday => "Weekday"
  | instant => "Instant"

end Quantity

/-- What a reader was looking for where the text has something else. -/
inductive Expectation where
  | digits (quantity : Quantity)
  | era
  | monthName
  | weekdayName
  | halfOfDay
  | zone
  | literal (text : String)
  deriving DecidableEq, Repr

def Expectation.phrase : Expectation → String
  | digits quantity => quantity.name
  | era => "an era"
  | monthName => "a month name"
  | weekdayName => "a weekday name"
  | halfOfDay => "AM or PM"
  | zone => "a time zone"
  | literal text => "\"" ++ text ++ "\""

inductive ErrorKind where
  | range | mismatch | trailingInput | notFound | implementation
  deriving DecidableEq, Repr

def ErrorKind.name : ErrorKind → String
  | range => "RangeError"
  | mismatch => "Mismatch"
  | trailingInput => "TrailingInput"
  | notFound => "NotFound"
  | implementation => "ImplementationError"

inductive Cause where
  /-- A computed count is no instant. -/
  | instantOutOfRange
  /-- The count is the one that marks a missing instant. -/
  | reserved
  /-- An operation was asked of a missing instant. -/
  | absent
  | monthNotInYear
  | dayNotInMonth
  | timeNotInDay
  | nanosecondNotInSecond
  | yearOutOfRange
  | yearCountOutOfRange
  | monthCountOutOfRange
  | unterminatedQuote
  | tooManyTextsInPattern
  | tooManyLiterals
  | literalIndexOutOfRange
  | invalidSpan
  | expected (what : Expectation)
  /-- More digits than fit a number. -/
  | numberTooLarge (quantity : Quantity)
  | outOfRange (quantity : Quantity)
  | unexpectedInput
  | unknownLocale (id : String)
  | unknownZone (id : String)
  | transitionOutOfRange
  | zoneSource (error : Zone.SourceError)
  deriving DecidableEq, Repr

namespace Cause

def kind : Cause → ErrorKind
  | expected _ => .mismatch
  | unexpectedInput => .trailingInput
  | unknownLocale _ => .notFound
  | unknownZone _ => .notFound
  | zoneSource .notFound => .notFound
  | zoneSource (.malformed _) => .implementation
  | zoneSource (.inconsistent _) => .implementation
  | _ => .range

def message : Cause → String
  | instantOutOfRange => "Instant out of range."
  | reserved => ""
  | absent => "Instant is absent."
  | monthNotInYear => "month must be in 1..=12"
  | dayNotInMonth => "day is not valid for the month"
  | timeNotInDay => "time of day is out of range"
  | nanosecondNotInSecond => "nanosecond must be below one second"
  | yearOutOfRange => "Year out of range."
  | yearCountOutOfRange => "Year count out of range."
  | monthCountOutOfRange => "Month count out of range."
  | unterminatedQuote => "Unterminated quote in pattern."
  | tooManyTextsInPattern => "Too many literals in pattern."
  | tooManyLiterals => "Too many literals in format program."
  | literalIndexOutOfRange => "Format program literal index out of range."
  | invalidSpan => "Parse span is not a valid range of the text."
  | expected what => "Expected " ++ what.phrase ++ "."
  | numberTooLarge quantity => quantity.name ++ " is out of range."
  | outOfRange quantity => quantity.title ++ " is out of range."
  | unexpectedInput => "Unexpected input after the pattern."
  | unknownLocale id => "Unknown locale identifier: " ++ id
  | unknownZone id => "Unknown time zone identifier: " ++ id
  | transitionOutOfRange => "Transition out of range."
  | zoneSource .notFound => "Unknown time zone identifier."
  | zoneSource (.outOfRange detail) => detail
  | zoneSource (.malformed detail) => detail
  | zoneSource (.inconsistent detail) => detail

end Cause

/-- A cause and, for errors found in a text, the number of characters before it. -/
structure TimeError where
  cause : Cause
  position : Option Nat := none
  deriving DecidableEq, Repr

namespace TimeError

def kind (e : TimeError) : ErrorKind := e.cause.kind

def message (e : TimeError) : String := e.cause.message

def located (e : TimeError) (position : Nat) : TimeError := { e with position := some position }

/-- The kind, then the message unless it is blank, then the position if there is one. -/
def display (e : TimeError) : String :=
  let message := Text.trim e.message
  e.kind.name
    ++ (if message.isEmpty then "" else ": " ++ message)
    ++ (match e.position with
        | none => ""
        | some position => " at position " ++ toString position)

end TimeError

def fail {α : Type} (cause : Cause) : Except TimeError α := .error { cause }

def locate {α : Type} (position : Nat) (result : Except TimeError α) : Except TimeError α :=
  result.mapError fun e => e.located position

def fromSource {α : Type} (result : Except Zone.SourceError α) : Except TimeError α :=
  result.mapError fun e => { cause := .zoneSource e }

def asInstant (n : Int) : Except TimeError Int :=
  if IsInstant n then .ok n else fail .instantOutOfRange

/-- A step that goes on from another one succeeds if both do. -/
theorem bind_eq_ok_iff {ε α β : Type} {first : Except ε α} {next : α → Except ε β} {b : β} :
    first >>= next = .ok b ↔ ∃ a, first = .ok a ∧ next a = .ok b := by
  cases first with
  | error e =>
    constructor
    · intro failed
      cases failed
    · rintro ⟨a, failed, -⟩
      cases failed
  | ok a =>
    constructor
    · exact fun rest => ⟨a, rfl, rest⟩
    · rintro ⟨a', same, rest⟩
      cases same
      exact rest

/-- Such a step fails if one of the two fails. -/
theorem bind_eq_error_iff {ε α β : Type} {first : Except ε α} {next : α → Except ε β} {e : ε} :
    first >>= next = .error e ↔ first = .error e ∨ ∃ a, first = .ok a ∧ next a = .error e := by
  cases first with
  | error e' =>
    constructor
    · intro failed
      cases failed
      exact .inl rfl
    · rintro (failed | ⟨a, succeeded, -⟩)
      · cases failed
        rfl
      · cases succeeded
  | ok a =>
    constructor
    · exact fun failed => .inr ⟨a, rfl, failed⟩
    · rintro (failed | ⟨a', same, failed⟩)
      · cases failed
      · cases same
        exact failed

/-- If what follows always succeeds, the failure is that of the first step. -/
theorem eq_error_of_bind {ε α β : Type} {first : Except ε α} {next : α → Except ε β} {e : ε}
    (failed : first >>= next = .error e) (total : ∀ a, ∃ b, next a = .ok b) : first = .error e := by
  rcases bind_eq_error_iff.mp failed with failed | ⟨a, -, failed⟩
  · exact failed
  · obtain ⟨b, succeeded⟩ := total a
    rw [succeeded] at failed
    cases failed

theorem map_eq_ok_iff {ε α β : Type} {result : Except ε α} {f : α → β} {b : β} :
    result.map f = .ok b ↔ ∃ a, result = .ok a ∧ f a = b := by
  cases result <;> simp [Except.map]

theorem map_eq_error_iff {ε α β : Type} {result : Except ε α} {f : α → β} {e : ε} :
    result.map f = .error e ↔ result = .error e := by
  cases result <;> simp [Except.map]

theorem locate_eq_error_iff {α : Type} {position : Nat} {result : Except TimeError α}
    {e : TimeError} :
    locate position result = .error e ↔
      ∃ found, result = .error found ∧ e = found.located position := by
  cases result with
  | error e' =>
    constructor
    · intro same
      cases same
      exact ⟨e', rfl, rfl⟩
    · rintro ⟨found, same, rfl⟩
      cases same
      rfl
  | ok a =>
    constructor
    · intro same
      cases same
    · rintro ⟨found, same, -⟩
      cases same

@[simp]
theorem locate_eq_ok_iff {α : Type} {position : Nat} {result : Except TimeError α} {a : α} :
    locate position result = .ok a ↔ result = .ok a := by
  cases result with
  | error e => exact ⟨nofun, nofun⟩
  | ok b => exact Iff.rfl

@[simp]
theorem fromSource_eq_ok_iff {α : Type} {result : Except Zone.SourceError α} {a : α} :
    fromSource result = .ok a ↔ result = .ok a := by
  cases result with
  | error e => exact ⟨nofun, nofun⟩
  | ok b =>
    constructor
    · intro same
      cases same
      rfl
    · intro same
      cases same
      rfl

theorem asInstant_eq_ok_iff {n m : Int} : asInstant n = .ok m ↔ IsInstant n ∧ n = m := by
  unfold asInstant fail; split <;> simp_all

end CivilTime
