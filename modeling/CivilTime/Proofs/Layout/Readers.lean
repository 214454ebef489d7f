import CivilTime.Layout.Read
import CivilTime.Proofs.Layout.ByteNumbers
import CivilTime.Proofs.Layout.Runs
import CivilTime.Proofs.Zone.OffsetBytes

/-!
# What readers read, and where they fail

A number is the one that the digits ahead denote, in 64 bits. A reader that succeeds locates what it
read at the byte where it started. One that fails names a byte that it came to: the one where it
started, the one behind the digits that are there where a digit is missing, or the one behind the
sign of a year. The steps of a run do as their readers do.
-/
namespace CivilTime

/-- The digits that a number has at least. -/
def Width.least : Width → Nat
  | fixed count => count
  | greedy => 1

namespace ByteCursor

variable {cursor after : ByteCursor} {width : Width} {quantity : Quantity} {found : Located Int}
  {e : TimeError}

/-! ### Digits ahead -/

/-- The digits that come next. -/
def digitRun (cursor : ByteCursor) : List Nat := Text.digitRun cursor.bytes

/-- The digits that a number of the width takes, as far as they are there. -/
def digitsAhead (cursor : ByteCursor) : Width → List Nat
  | .fixed count => cursor.digitRun.take count
  | .greedy => cursor.digitRun

/-- What the digits ahead denote. -/
def countAhead (cursor : ByteCursor) (width : Width) : Nat :=
  Text.numberFrom 0 (cursor.digitsAhead width)

def pastDigits (cursor : ByteCursor) : ByteCursor := cursor.advance cursor.digitRun.length

/-- The cursor behind a minus sign, if one comes next. -/
def behindSign (cursor : ByteCursor) : ByteCursor :=
  if cursor.rest.head? = some '-' then cursor.advance 1 else cursor

/-- Without its digits a number is refused behind those that are there, and a greedy one that does not
fit where it starts. Otherwise it is what its digits denote, in 64 bits. -/
theorem number_eq (cursor : ByteCursor) (width : Width) (quantity : Quantity) :
    cursor.number width quantity
      = if cursor.digitRun.length < width.least then
          cursor.pastDigits.mismatch (.digits quantity)
        else if width = .greedy ∧ maxNanos < cursor.countAhead width then
          cursor.reject (.numberTooLarge quantity)
        else
          .ok (⟨(cursor.countAhead width : Int).bmod 18446744073709551616, cursor.position⟩,
            (cursor.digitsAhead width).length, cursor.advance (cursor.digitsAhead width).length) := by
  cases width with
  | fixed count =>
    have taken := fixedDigits_eq 0 0 count cursor.bytes
    simp only [Nat.cast_zero, Int.zero_bmod, Nat.zero_add] at taken
    simp only [number, taken]
    by_cases few : cursor.digitRun.length < (Width.fixed count).least
    · have short : ¬ count ≤ (Text.digitRun cursor.bytes).length := Nat.not_le.mpr few
      rw [if_pos few, if_neg short]
      rfl
    · have full : count ≤ (Text.digitRun cursor.bytes).length := Nat.le_of_not_lt few
      have length : (cursor.digitsAhead (.fixed count)).length = count := List.length_take_of_le full
      have unchecked : ¬ (Width.fixed count = .greedy ∧ maxNanos < cursor.countAhead (.fixed count)) :=
        fun large => Width.noConfusion large.1
      rw [if_neg few, if_neg unchecked, if_pos full, length]
      rfl
  | greedy =>
    have taken := greedyDigits_eq (show ((0 : Nat) : Int) ≤ maxNanos by decide) 0 cursor.bytes
    simp only [Nat.cast_zero, Nat.zero_add] at taken
    simp only [number, taken, true_and]
    by_cases none : cursor.digitRun = []
    -- The number of no digits is 0, so that they are missing is found after the loop.
    · have empty : Text.digitRun cursor.bytes = [] := none
      have zero : ((0 : Nat) : Int) ≤ maxNanos := by decide
      rw [pastDigits, none, empty, Text.numberFrom_nil, if_pos zero]
      rfl
    -- A number that has passed all checks is the same in 64 bits.
    · have some : ¬ cursor.digitRun.length < Width.greedy.least :=
        mt List.length_eq_zero_iff.mp none ∘ Nat.lt_one_iff.mp
      rw [if_neg some]
      by_cases fits : (cursor.countAhead .greedy : Int) ≤ maxNanos
      · have unchanged : (cursor.countAhead .greedy : Int).bmod 18446744073709551616
            = cursor.countAhead .greedy := by
          simp only [maxNanos] at fits
          exact Int.bmod_eq_of_le (by omega) (by omega)
        have within : (Text.numberFrom 0 (Text.digitRun cursor.bytes) : Int) ≤ maxNanos := fits
        rw [if_neg (Int.not_lt.mpr fits), if_pos within, unchanged]
        exact if_neg (mt List.length_eq_zero_iff.mp none)
      · have beyond : ¬ (Text.numberFrom 0 (Text.digitRun cursor.bytes) : Int) ≤ maxNanos := fits
        rw [if_pos (Int.not_le.mp fits), if_neg beyond]

/-- Reading a number from `cursor` fails for this cause at this place. -/
inductive NumberFailsAt (cursor : ByteCursor) (width : Width) (quantity : Quantity) :
    Cause → ByteCursor → Prop
  | digit (missing : cursor.digitRun.length < width.least) :
      NumberFailsAt cursor width quantity (.expected (.digits quantity)) cursor.pastDigits
  | large (greedy : width = .greedy) (beyond : maxNanos < cursor.countAhead width) :
      NumberFailsAt cursor width quantity (.numberTooLarge quantity) cursor

theorem number_error (failed : cursor.number width quantity = .error e) :
    ∃ cause place, cursor.NumberFailsAt width quantity cause place ∧
      e = ⟨cause, some place.position⟩ := by
  rw [number_eq] at failed
  split at failed
  next missing =>
    cases failed
    exact ⟨_, _, .digit missing, rfl⟩
  next =>
    split at failed
    next large =>
      cases failed
      exact ⟨_, _, .large large.1 large.2, rfl⟩
    next => cases failed

theorem number_ok {length : Nat}
    (read : cursor.number width quantity = .ok (found, length, after)) :
    found = ⟨(cursor.countAhead width : Int).bmod 18446744073709551616, cursor.position⟩ ∧
      length = (cursor.digitsAhead width).length ∧ width.least ≤ cursor.digitRun.length ∧
      (width = .greedy → (cursor.countAhead width : Int) ≤ maxNanos) := by
  rw [number_eq] at read
  split at read
  next => cases read
  next enough =>
    split at read
    next => cases read
    next small =>
      obtain ⟨number, stop⟩ := Prod.mk.inj (Except.ok.inj read)
      refine ⟨number.symm, (Prod.mk.inj stop).1.symm, Nat.le_of_not_lt enough, fun greedy => ?_⟩
      exact Int.not_lt.mp fun beyond => small ⟨greedy, beyond⟩

theorem number_position {length : Nat}
    (read : cursor.number width quantity = .ok (found, length, after)) :
    found.position = cursor.position := by rw [(number_ok read).1]

/-! ### Readers -/

theorem year_error {window : YearWindow} (failed : cursor.year width window = .error e) :
    ∃ cause place, cursor.behindSign.NumberFailsAt width .year cause place ∧
      e = ⟨cause, some place.position⟩ :=
  number_error (eq_error_of_bind failed fun _ => ⟨_, rfl⟩)

theorem hour_error {cycle : HourCycle} (failed : cursor.hour cycle width = .error e) :
    (∃ cause place, cursor.NumberFailsAt width .hour cause place ∧
      e = ⟨cause, some place.position⟩) ∨
    ∃ read length after, cursor.number width .hour = .ok (read, length, after) ∧
      ¬ ((cycle.least : Int) ≤ read.value ∧ read.value ≤ cycle.greatest) ∧
      e = ⟨.outOfRange .hour, some cursor.position⟩ := by
  rcases bind_eq_error_iff.mp failed with failed | ⟨⟨read, length, after⟩, counted, failed⟩
  · exact .inl (number_error failed)
  · simp only at failed
    split at failed
    next => cases failed
    next outside =>
      cases failed
      exact .inr ⟨read, length, after, counted, outside, rfl⟩

theorem hour_position {cycle : HourCycle} (read : cursor.hour cycle width = .ok (found, after)) :
    found.position = cursor.position := by
  obtain ⟨⟨number, length, next⟩, counted, read⟩ := bind_eq_ok_iff.mp read
  have same := number_position counted
  simp only at read
  split at read
  next =>
    cases read
    exact same
  next => cases read

theorem year_position {window : YearWindow} (read : cursor.year width window = .ok (found, after)) :
    found.position = cursor.position := by
  obtain ⟨_, -, read⟩ := bind_eq_ok_iff.mp read
  cases read
  rfl

theorem weekday_error (failed : cursor.weekday = .error e) :
    (∃ cause place, cursor.NumberFailsAt (.fixed 1) .weekday cause place ∧
      e = ⟨cause, some place.position⟩) ∨
    ∃ read length after, cursor.number (.fixed 1) .weekday = .ok (read, length, after) ∧
      ¬ (1 ≤ read.value ∧ read.value ≤ 7) ∧ e = ⟨.outOfRange .weekday, some cursor.position⟩ := by
  rcases bind_eq_error_iff.mp failed with failed | ⟨⟨read, length, after⟩, counted, failed⟩
  · exact .inl (number_error failed)
  · simp only at failed
    split at failed
    next => cases failed
    next outside =>
      cases failed
      exact .inr ⟨read, length, after, counted, outside, rfl⟩

section Names

variable {α : Type} {index : Locale.NameIndex α} {what : Expectation}

theorem name_error (failed : cursor.name index what = .error e) :
    index.longest? cursor.rest = none ∧ e = ⟨.expected what, some cursor.position⟩ := by
  unfold name at failed
  split at failed
  next => cases failed
  next none =>
    cases failed
    exact ⟨none, rfl⟩

theorem name_position {named : Located α} (read : cursor.name index what = .ok (named, after)) :
    named.position = cursor.position := by
  unfold name at read
  split at read
  next =>
    cases read
    rfl
  next => cases read

end Names

theorem literal_error {text : String} (failed : cursor.literal text = .error e) :
    ¬ text.toList <+: cursor.rest ∧ e = ⟨.expected (.literal text), some cursor.position⟩ := by
  unfold literal at failed
  split at failed
  next => cases failed
  next other =>
    cases failed
    exact ⟨mt List.isPrefixOf_iff_prefix.mpr other, rfl⟩

theorem zone_error {context : ReadContext} (failed : cursor.zone context = .error e) :
    (Zone.OffsetLiteral.read? cursor.rest = none ∧
      context.zoneNames.zoneIndex.longest? cursor.rest = none ∧
      Zone.startsWithUtc cursor.rest = false ∧ e = ⟨.expected .zone, some cursor.position⟩) ∨
    ∃ named unknown, context.zoneNames.zoneIndex.longest? cursor.rest = some named ∧
      context.timeline named.value = .error unknown ∧
      e = ⟨unknown.cause, some cursor.position⟩ := by
  unfold zone at failed
  split at failed
  next => cases failed
  next noOffset =>
    split at failed
    next name named =>
      obtain ⟨found, unknown, rfl⟩ :=
        locate_eq_error_iff.mp (eq_error_of_bind failed fun _ => ⟨_, rfl⟩)
      exact .inr ⟨name, found, named, unknown, rfl⟩
    next noName =>
      simp only [Zone.any_isUtc_splitAtByte] at failed
      split at failed
      next => cases failed
      next noUtc =>
        cases failed
        exact .inl ⟨noOffset, noName, Bool.eq_false_iff.mpr noUtc, rfl⟩

theorem zone_position {context : ReadContext} {named : Located ZoneReading}
    (read : cursor.zone context = .ok (named, after)) : named.position = cursor.position := by
  unfold zone at read
  split at read
  next =>
    cases read
    rfl
  next =>
    split at read
    next =>
      obtain ⟨timeline, -, read⟩ := bind_eq_ok_iff.mp read
      cases read
      rfl
    next =>
      simp only at read
      split at read
      next =>
        cases read
        rfl
      next => cases read

end ByteCursor

/-! ### Steps -/

namespace Fields

/-- The position of what is held in a slot, where the fields keep it. -/
def position? (fields : Fields) : Slot → Option Nat
  | .era => none
  | .year => fields.year.map (·.position)
  | .number field => (fields.number field).map (·.position)
  | .hour => fields.hour.map (·.2.position)
  | .halfOfDay => none
  | .zone => fields.zone.map (·.position)

theorem Agree.position?_eq {left right : Fields} {slot : Slot} (agree : left.Agree right slot) :
    left.position? slot = right.position? slot := by
  cases slot with
  | era => rfl
  | year => exact congrArg (Option.map _) agree
  | number field => exact congrArg (Option.map _) agree
  | hour => exact congrArg (Option.map _) agree
  | halfOfDay => rfl
  | zone => exact congrArg (Option.map _) agree

end Fields

section Step

variable {layout : Layout} {context : ReadContext} {item : Item} {fields after : Fields}
  {cursor stop : ByteCursor}

/-- A step changes no slot but the one that its item fills. -/
theorem scanItem_keepsOthers : KeepsOthers (layout.scanItem context) := by
  intro item fields cursor after stop read slot other
  cases item with
  | number field width =>
    obtain ⟨⟨found, length, next⟩, -, read⟩ := bind_eq_ok_iff.mp read
    cases read
    exact Fields.setNumber_agree other
  | monthName style =>
    obtain ⟨⟨found, next⟩, -, read⟩ := bind_eq_ok_iff.mp read
    cases read
    exact Fields.setNumber_agree other
  | weekday =>
    obtain ⟨next, -, read⟩ := bind_eq_ok_iff.mp read
    cases read
    exact Fields.Agree.refl fields slot
  | literal index =>
    obtain ⟨next, -, read⟩ := bind_eq_ok_iff.mp read
    cases read
    exact Fields.Agree.refl fields slot
  -- The others put what they read in one place, if anywhere.
  | _ =>
    obtain ⟨⟨found, next⟩, -, read⟩ := bind_eq_ok_iff.mp read
    cases read
    cases slot <;> first | rfl | exact absurd rfl other

/-- What a step leaves in the slot of its item is located where the item was met. -/
theorem scanItem_position (read : layout.scanItem context (fields, cursor) item = .ok (after, stop))
    {slot : Slot} (filled : item.slot? = some slot) {position : Nat}
    (held : after.position? slot = some position) : position = cursor.position := by
  cases item with
  | year width =>
    obtain ⟨⟨found, next⟩, taken, read⟩ := bind_eq_ok_iff.mp read
    have same := ByteCursor.year_position taken
    cases read
    cases filled
    exact (Option.some.inj held).symm.trans same
  | number field width =>
    obtain ⟨⟨found, length, next⟩, taken, read⟩ := bind_eq_ok_iff.mp read
    have same := ByteCursor.number_position taken
    cases read
    cases filled
    simp only [Fields.position?, Fields.setNumber, if_true, Option.map_some] at held
    exact (Option.some.inj held).symm.trans same
  | hour cycle width =>
    obtain ⟨⟨found, next⟩, taken, read⟩ := bind_eq_ok_iff.mp read
    have same := ByteCursor.hour_position taken
    cases read
    cases filled
    exact (Option.some.inj held).symm.trans same
  | monthName style =>
    obtain ⟨⟨found, next⟩, taken, read⟩ := bind_eq_ok_iff.mp read
    have same := ByteCursor.name_position taken
    cases read
    cases filled
    simp only [Fields.position?, Fields.setNumber, if_true, Option.map_some] at held
    exact (Option.some.inj held).symm.trans same
  | zone =>
    obtain ⟨⟨found, next⟩, taken, read⟩ := bind_eq_ok_iff.mp read
    have same := ByteCursor.zone_position taken
    cases read
    cases filled
    exact (Option.some.inj held).symm.trans same
  -- The others fill no slot, or one without a position.
  | era =>
    cases filled
    cases held
  | halfOfDay =>
    cases filled
    cases held
  | weekdayName style => cases filled
  | weekday => cases filled
  | literal index => cases filled

end Step

/-! ### Runs -/

/-- The cursor in front of a text. -/
def ByteCursor.whole (text : String) : ByteCursor := ⟨text, 0, text.utf8ByteSize⟩

namespace Layout

variable (layout : Layout) (context : ReadContext) (start : ByteCursor)

/-- Reading from `start` comes to `item` with the cursor at `here`. -/
def Meets (item : Item) (here : ByteCursor) : Prop :=
  RunMeets (layout.scanItem context) ({}, start) layout.items item here

/-- It does, and no later item fills the same slot. -/
def MeetsLast (item : Item) (here : ByteCursor) : Prop :=
  RunMeetsLast (layout.scanItem context) ({}, start) layout.items item here

variable {layout context} {text : String} {n : Int}

theorem scan_of_parse (parsed : layout.parse context text = .ok n) :
    layout.scan context (.whole text) = .ok n := by
  simp only [parse, parseSpan] at parsed
  split at parsed
  next =>
    cases read : layout.scan context ⟨text, 0, text.utf8ByteSize⟩ with
    | ok m =>
      rw [read] at parsed
      cases parsed
      exact read
    | error e =>
      rw [read] at parsed
      cases parsed
  next => cases parsed

end Layout
end CivilTime
