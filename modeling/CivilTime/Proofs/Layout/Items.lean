import CivilTime.Proofs.Calendar.DateTimes
import CivilTime.Proofs.Layout.Cursors
import CivilTime.Proofs.Locale.Legibility

/-!
# Reading back the items of a layout

Reading takes the text of one item off the front and leaves in the fields what the item shows of the
instant. The invariant of a whole run is that the fields hold the instant's values for exactly the
slots that the items read so far fill.
-/
namespace CivilTime

/-! ### What items show -/

/-- The places of the fields that an item can fill. -/
inductive Slot where
  | era
  | year
  | number (field : NumberField)
  | hour
  | halfOfDay
  | zone
  deriving DecidableEq

namespace Item

def slot? : Item → Option Slot
  | .era => some .era
  | .year _ => some .year
  | .number field _ => some (.number field)
  | .hour _ _ => some .hour
  | .monthName _ => some (.number .month)
  | .weekdayName _ => none
  | .weekday => none
  | .halfOfDay => some .halfOfDay
  | .zone => some .zone
  | .literal _ => none

def hourCycle? : Item → Option HourCycle
  | .hour cycle _ => some cycle
  | _ => none

/-- The width of a numeric item. -/
def width? : Item → Option Width
  | .year width => some width
  | .number _ width => some width
  | .hour _ width => some width
  | .weekday => some (.fixed 1)
  | _ => none

def isName : Item → Bool
  | .era => true
  | .monthName _ => true
  | .weekdayName _ => true
  | .halfOfDay => true
  | _ => false

end Item

/-- The digits that the greatest value of the field has. -/
def NumberField.digits : NumberField → Nat
  | month => 2
  | day => 2
  | minute => 2
  | second => 2
  | millisecond => 3
  | microsecond => 3
  | nanosecond => 3

/-- The digits that the greatest value of a numeric item has. -/
def Item.digits : Item → Nat
  | .year _ => 4
  | .number field _ => field.digits
  | .hour _ _ => 2
  | .weekday => 1
  | _ => 0

/-- No value of the item outgrows its width. -/
def Item.Wide (item : Item) : Prop := ∀ width ∈ item.width?, width.AtLeast item.digits

instance (item : Item) : Decidable item.Wide :=
  inferInstanceAs (Decidable (∀ width ∈ item.width?, width.AtLeast item.digits))

/-- The text of the item ends where `rest` begins: a number without a fixed width goes on to no
digit, a name to no ASCII letter. -/
def Item.EndsBefore (item : Item) (rest : List Char) : Prop :=
  (item.width? = some .greedy → ∀ c ∈ rest.head?, c.isDigit = false) ∧
  (item.isName = true → ∀ c ∈ rest.head?, c.isAlpha = false)

instance (item : Item) (rest : List Char) : Decidable (item.EndsBefore rest) :=
  decidable_of_iff
    ((item.width? = some .greedy → rest.head?.all (fun c => !c.isDigit) = true) ∧
      (item.isName = true → rest.head?.all (fun c => !c.isAlpha) = true))
    (by simp [Item.EndsBefore, Option.all_eq_true])

/-- Some item fills the slot. -/
def Shows (items : List Item) (slot : Slot) : Prop := some slot ∈ items.map Item.slot?

instance (items : List Item) (slot : Slot) : Decidable (Shows items slot) :=
  inferInstanceAs (Decidable (_ ∈ _))

theorem shows_append (items : List Item) (item : Item) (slot : Slot) :
    Shows (items ++ [item]) slot ↔ Shows items slot ∨ item.slot? = some slot := by
  simp [Shows, eq_comm]

/-- The hour cycle that counts: the one of the last hour. -/
def lastCycle (items : List Item) : Option HourCycle := (items.filterMap Item.hourCycle?).getLast?

theorem lastCycle_append (items : List Item) (item : Item) :
    lastCycle (items ++ [item]) = item.hourCycle?.or (lastCycle items) := by
  rw [lastCycle, List.filterMap_append, List.getLast?_append]
  cases item <;> rfl

theorem NumberField.digits_pos (field : NumberField) : 0 < field.digits := by
  cases field <;> decide

theorem NumberField.digits_le (field : NumberField) : field.digits ≤ 18 := by
  cases field <;> decide

theorem NumberField.value_lt (field : NumberField) (n : Int) :
    field.value n < 10 ^ field.digits := by
  have civil := DateTime.isCivil_ofInstant n
  have month : monthOf n (yearOf n) ≤ 12 := civil.month_le
  have day : dayOfMonth n (yearOf n) (monthOf n (yearOf n)) ≤ 31 := by
    rw [DateTime.dayOfMonth_eq]
    exact Nat.le_trans civil.day_le (daysInMonth_le _ _)
  have minute : minuteOf n ≤ 59 := civil.minute_le
  have second : secondOf n ≤ 59 := civil.second_le
  have subsecond := DateTime.subsecond_lt n
  cases field <;> simp only [value, digits] <;> omega

/-! ### The invariant of a run -/

/-- The fields hold, for the slots that the items fill, the values of the instant. -/
structure Fields.Hold (fields : Fields) (n : Int) (items : List Item) : Prop where
  era : fields.beforeCommonEra = false
  year : fields.year.map (·.value) = if Shows items .year then some (yearOf n).number else none
  number : ∀ field, (fields.number field).map (·.value) =
    if Shows items (.number field) then some (field.value n : Int) else none
  hour : (fields.hour.map fun (cycle, read) => (cycle, read.value)) =
    (lastCycle items).map fun cycle => (cycle, ((hourOf n % cycle.length : Nat) : Int))
  pm : fields.pm = if Shows items .halfOfDay then some (decide (12 ≤ hourOf n)) else none
  zone : fields.zone.map (·.value) = if Shows items .zone then some (.offset 0) else none

namespace Fields.Hold

variable {fields : Fields} {n : Int} {items : List Item}

theorem start (n : Int) : Fields.Hold {} n [] := by
  constructor <;> simp [Shows, lastCycle]

theorem skip (h : fields.Hold n items) {item : Item} (slot : item.slot? = none) :
    fields.Hold n (items ++ [item]) := by
  have cycle : item.hourCycle? = none := by cases item <;> simp_all [Item.slot?, Item.hourCycle?]
  constructor <;>
    simp [shows_append, lastCycle_append, slot, cycle, h.era, h.year, h.number, h.hour, h.pm, h.zone]

theorem setEra (h : fields.Hold n items) :
    Hold { fields with beforeCommonEra := false } n (items ++ [.era]) := by
  constructor <;>
    simp [shows_append, lastCycle_append, Item.slot?, Item.hourCycle?, h.year, h.number, h.hour,
      h.pm, h.zone]

theorem setYear (h : fields.Hold n items) (width : Width) (read : Located Int)
    (value : read.value = (yearOf n).number) :
    Hold { fields with year := some read } n (items ++ [.year width]) := by
  constructor <;>
    simp [shows_append, lastCycle_append, Item.slot?, Item.hourCycle?, value, h.era, h.number,
      h.hour, h.pm, h.zone]

theorem setNumber (h : fields.Hold n items) {item : Item} {field : NumberField}
    (slot : item.slot? = some (.number field)) (read : Located Int)
    (value : read.value = field.value n) :
    Hold (fields.setNumber field read) n (items ++ [item]) := by
  have cycle : item.hourCycle? = none := by cases item <;> simp_all [Item.slot?, Item.hourCycle?]
  constructor
  -- Only the number of this field changes, to what the item shows.
  case number =>
    intro other
    by_cases same : other = field
    · simp [Fields.setNumber, shows_append, slot, same, value]
    · have different : field ≠ other := fun equal => same equal.symm
      simp [Fields.setNumber, shows_append, slot, same, different, h.number]
  all_goals
    simp [Fields.setNumber, shows_append, lastCycle_append, slot, cycle, h.era, h.year, h.hour,
      h.pm, h.zone]

theorem setHour (h : fields.Hold n items) (cycle : HourCycle) (width : Width) (read : Located Int)
    (value : read.value = (hourOf n % cycle.length : Nat)) :
    Hold { fields with hour := some (cycle, read) } n (items ++ [.hour cycle width]) := by
  constructor <;>
    simp [shows_append, lastCycle_append, Item.slot?, Item.hourCycle?, value, h.era, h.year,
      h.number, h.pm, h.zone]

theorem setHalfOfDay (h : fields.Hold n items) :
    Hold { fields with pm := some (decide (12 ≤ hourOf n)) } n (items ++ [.halfOfDay]) := by
  constructor <;>
    simp [shows_append, lastCycle_append, Item.slot?, Item.hourCycle?, h.era, h.year, h.number,
      h.hour, h.zone]

theorem setZone (h : fields.Hold n items) (read : Located ZoneReading)
    (value : read.value = .offset 0) :
    Hold { fields with zone := some read } n (items ++ [.zone]) := by
  constructor <;>
    simp [shows_append, lastCycle_append, Item.slot?, Item.hourCycle?, value, h.era, h.year,
      h.number, h.hour, h.pm]

end Fields.Hold
end CivilTime
