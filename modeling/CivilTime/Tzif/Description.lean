import CivilTime.Nanos
import CivilTime.Tzif.File
import CivilTime.Zone.Description

/-!
# Zones of TZif files

The description of the zone that a file holds. Transitions outside the range of nanoseconds are left
out, those before it leaving their offset behind; the zone string becomes annual rules.
-/
namespace CivilTime

open Zone (AnnualRule Description SourceError TransitionTable)

namespace Tzif

abbrev secondsPerDay : Int := 86400

/-- The first transition time that is kept. -/
def firstTransition : Int := Int.tdiv minNanos nsPerSecond + 1

/-- The last transition time that is kept. -/
def lastTransition : Int := Int.tdiv maxNanos nsPerSecond

def checkOffset (seconds : Int) : Except SourceError Int :=
  if seconds.natAbs ≤ secondsPerDay then .ok seconds
  else .error (.outOfRange "UTC offset exceeds one day")

/-! ### Annual rules -/

/-- Month, day of the month and weekday of an annual rule. -/
structure RuleDay where
  month : Nat
  monthDay : Int
  weekday : Option Nat
  deriving DecidableEq, Repr

/-- The day of a rule: the weekday from the first day of its week on, or the last one of the month;
the day of a common year in its month; or the day of the year counted as a day of January. -/
def SwitchDay.ruleDay : SwitchDay → Except SourceError RuleDay
  | weekdayOfMonth month week weekday =>
    if month < 1 ∨ 12 < month then
      .error (.outOfRange "POSIX month out of range")
    else if 6 < weekday then
      .error (.outOfRange "POSIX weekday out of range")
    else if week < 1 ∨ 5 < week then
      .error (.outOfRange "POSIX week out of range")
    else
      .ok {
        month
        monthDay := if week = 5 then -1 else (week - 1 : Int) * 7 + 1
        weekday := some (if weekday = 0 then 7 else weekday) }
  | commonDay day =>
    if day < 1 ∨ 365 < day then
      .error (.outOfRange "POSIX Julian day out of range")
    else
      let month := monthOfYearDay false (day - 1)
      .ok ⟨month, day - daysBeforeMonth false month, none⟩
  -- A zone string names days up to 365 only, so the day is never too large for its field.
  | yearDay day => .ok ⟨1, day + 1, none⟩

/-- The rule of a date. -/
def SwitchDate.rule (date : SwitchDate) (before after standard : Int) :
    Except SourceError AnnualRule := do
  let day ← date.day.ruleDay
  -- The end of a day is not the start of the next one but a flag.
  let endOfDay := date.time == secondsPerDay
  if !endOfDay ∧ ¬ (-2147483648 ≤ date.time ∧ date.time ≤ 2147483647) then
    throw (.outOfRange "POSIX transition time out of range")
  let rule : AnnualRule :=
    { offsetBefore := before
      offsetAfter := after
      standardOffset := standard
      month := day.month
      monthDay := day.monthDay
      weekday := day.weekday
      time := if endOfDay then 0 else date.time
      endOfDay
      clock := .wall }
  rule.validate
  return rule

/-- The rules of a zone string in calendar order, none without daylight saving time. -/
def PosixZone.rules (zone : PosixZone) : Except SourceError (List AnnualRule) := do
  match zone.daylight with
  | none => return []
  | some daylight =>
    let standard ← checkOffset (-zone.offset)
    let saving ← checkOffset (-daylight.offset)
    let start ← daylight.start.rule standard saving standard
    let finish ← daylight.finish.rule saving standard standard
    if start.approximateYearDay ≤ finish.approximateYearDay then
      return [start, finish]
    else
      return [finish, start]

/-! ### Transitions -/

/-- The checked offset of the type at a place. -/
def Block.offsetOf (block : Block) (place : Nat) : Except SourceError Int :=
  match block.types[place]? with
  | none => .error (.inconsistent "TZif transition type out of range")
  | some type => checkOffset type.offset

/-- The transitions that are kept, with the offsets after them, and the offset before the first one:
`initial`, or the offset of the last transition that is too early. -/
def Block.kept (block : Block) (initial : Int) :
    List (Int × Nat) → Except SourceError (Int × List (Int × Int))
  | [] => .ok (initial, [])
  | (time, place) :: later => do
    let offset ← block.offsetOf place
    -- What happened too early to be kept still leaves its offset behind.
    if time < firstTransition then
      block.kept offset later
    else if lastTransition < time then
      return (initial, [])
    else
      let (initial, transitions) ← block.kept initial later
      return (initial, (time, offset) :: transitions)

namespace File

def describeTable (initial : Int) (transitions : List (Int × Int)) (rules : List AnnualRule) :
    Except SourceError Description := do
  -- Rules alone give the offset before their first transition.
  let initial :=
    match transitions, rules with
    | [], rule :: _ => rule.offsetBefore
    | _, _ => initial
  let table : TransitionTable :=
    { transitions := transitions.map (·.1)
      offsets := initial :: transitions.map (·.2)
      rules }
  table.validate
  return .table table

def describe (file : File) : Except SourceError Description := do
  let block := file.block
  let some first := block.types.head?
    | throw (.inconsistent "TZif data has no local time type records")
  let initial ← checkOffset first.offset
  let (initial, transitions) ←
    block.kept initial (block.transitionTimes.zip block.transitionTypes)
  match file.footer with
  | none =>
    if transitions.isEmpty then
      return .fixed initial
    else
      describeTable initial transitions []
  | some zone =>
    if transitions.isEmpty ∧ zone.daylight.isNone then
      return .fixed (← checkOffset (-zone.offset))
    else
      describeTable initial transitions (← zone.rules)

end File

def File.ofBytes (bs : List UInt8) : Except SourceError File :=
  match File.ofBytes? bs with
  | some file => .ok file
  | none => .error (.malformed "Illformed TZif data.")

end Tzif
end CivilTime
