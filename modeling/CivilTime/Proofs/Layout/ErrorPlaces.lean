import CivilTime.Proofs.Layout.RefusedValues
import CivilTime.Proofs.Text.Positions

/-!
# Where errors point

Every error of a reader names a byte that the run over the layout has come to. It is the one where
the item at fault starts, the one behind the digits that are there where a digit is missing, or the
one where the items end and text is left. A value that is refused after the run is the one that the
last item of its slot has read, and the error takes the place of that item. All these bytes start
characters of the span or are its end, so they can be told by the characters in front of them.
-/
namespace CivilTime

/-! ### Items that cannot be read -/

namespace Item

/-- The quantity that the digits of a numeric item give. -/
def quantity? : Item → Option Quantity
  | .year _ => some .year
  | .number field _ => some field.quantity
  | .hour _ _ => some .hour
  | .weekday => some .weekday
  | _ => none

/-- What an item that is no number expects. -/
def expectation? (layout : Layout) : Item → Option Expectation
  | .era => some .era
  | .monthName _ => some .monthName
  | .weekdayName _ => some .weekdayName
  | .halfOfDay => some .halfOfDay
  | .zone => some .zone
  | .literal index => some (.literal (layout.literal index))
  | _ => none

/-- The item is no number, and nothing that it can be read from starts at the cursor. -/
def MissingAt (layout : Layout) (context : ReadContext) (cursor : ByteCursor) : Item → Prop
  | .era => context.names.eraIndex.longest? cursor.rest = none
  | .monthName _ => context.names.monthIndex.longest? cursor.rest = none
  | .weekdayName _ => context.names.weekdayIndex.longest? cursor.rest = none
  | .halfOfDay => context.names.halfOfDayIndex.longest? cursor.rest = none
  | .zone =>
    Zone.OffsetLiteral.read? cursor.rest = none ∧
      context.zoneNames.zoneIndex.longest? cursor.rest = none ∧
      Zone.startsWithUtc cursor.rest = false
  | .literal index => ¬ (layout.literal index).toList <+: cursor.rest
  | _ => False

/-- Where the digits of a numeric item start. -/
def numberStart (item : Item) (cursor : ByteCursor) : ByteCursor :=
  match item with
  | .year _ => cursor.behindSign
  | _ => cursor

/-- The item that is met at `cursor` is at fault for this cause, which is found at this place. -/
inductive FailsAt (layout : Layout) (context : ReadContext) (cursor : ByteCursor) :
    Item → Cause → ByteCursor → Prop
  | absent {item : Item} {what : Expectation} (expected : item.expectation? layout = some what)
      (missing : item.MissingAt layout context cursor) :
      FailsAt layout context cursor item (.expected what) cursor
  | number {item : Item} {width : Width} {quantity : Quantity} {cause : Cause} {place : ByteCursor}
      (numeric : item.width? = some width) (measured : item.quantity? = some quantity)
      (failed : (item.numberStart cursor).NumberFailsAt width quantity cause place) :
      FailsAt layout context cursor item cause place
  /-- The number that is read here is no hour of the cycle. -/
  | hour {cycle : HourCycle} {width : Width} {found : Located Int} {length : Nat} {after : ByteCursor}
      (read : cursor.number width .hour = .ok (found, length, after))
      (outside : ¬ ((cycle.least : Int) ≤ found.value ∧ found.value ≤ cycle.greatest)) :
      FailsAt layout context cursor (.hour cycle width) (.outOfRange .hour) cursor
  /-- The digit that is read here numbers no weekday. -/
  | weekday {found : Located Int} {length : Nat} {after : ByteCursor}
      (read : cursor.number (.fixed 1) .weekday = .ok (found, length, after))
      (outside : ¬ (1 ≤ found.value ∧ found.value ≤ 7)) :
      FailsAt layout context cursor .weekday (.outOfRange .weekday) cursor
  | lookup {found : Locale.NameMatch String} {e : TimeError}
      (named : context.zoneNames.zoneIndex.longest? cursor.rest = some found)
      (unknown : context.timeline found.value = .error e) :
      FailsAt layout context cursor .zone e.cause cursor

end Item

section Step

variable {layout : Layout} {context : ReadContext} {item : Item} {fields : Fields}
  {cursor : ByteCursor} {e : TimeError}

theorem scanItem_error (failed : layout.scanItem context (fields, cursor) item = .error e) :
    ∃ cause place, item.FailsAt layout context cursor cause place ∧
      e = ⟨cause, some place.position⟩ := by
  -- What an item has read is only put into its field, so it is the reader that fails.
  cases item with
  | era =>
    obtain ⟨missing, same⟩ := ByteCursor.name_error (eq_error_of_bind failed fun _ => ⟨_, rfl⟩)
    exact ⟨_, cursor, .absent rfl missing, same⟩
  | year width =>
    obtain ⟨cause, place, number, same⟩ :=
      ByteCursor.year_error (eq_error_of_bind failed fun _ => ⟨_, rfl⟩)
    exact ⟨cause, place, .number rfl rfl number, same⟩
  | number field width =>
    obtain ⟨cause, place, number, same⟩ :=
      ByteCursor.number_error (eq_error_of_bind failed fun _ => ⟨_, rfl⟩)
    exact ⟨cause, place, .number rfl rfl number, same⟩
  | hour cycle width =>
    rcases ByteCursor.hour_error (eq_error_of_bind failed fun _ => ⟨_, rfl⟩) with
      ⟨cause, place, number, same⟩ | ⟨found, length, after, read, outside, same⟩
    · exact ⟨cause, place, .number rfl rfl number, same⟩
    · exact ⟨_, cursor, .hour read outside, same⟩
  | monthName style =>
    obtain ⟨missing, same⟩ := ByteCursor.name_error (eq_error_of_bind failed fun _ => ⟨_, rfl⟩)
    exact ⟨_, cursor, .absent rfl missing, same⟩
  | weekdayName style =>
    obtain ⟨missing, same⟩ := ByteCursor.name_error (eq_error_of_bind failed fun _ => ⟨_, rfl⟩)
    exact ⟨_, cursor, .absent rfl missing, same⟩
  | weekday =>
    rcases ByteCursor.weekday_error (eq_error_of_bind failed fun _ => ⟨_, rfl⟩) with
      ⟨cause, place, number, same⟩ | ⟨found, length, after, read, outside, same⟩
    · exact ⟨cause, place, .number rfl rfl number, same⟩
    · exact ⟨_, cursor, .weekday read outside, same⟩
  | halfOfDay =>
    obtain ⟨missing, same⟩ := ByteCursor.name_error (eq_error_of_bind failed fun _ => ⟨_, rfl⟩)
    exact ⟨_, cursor, .absent rfl missing, same⟩
  | zone =>
    rcases ByteCursor.zone_error (eq_error_of_bind failed fun _ => ⟨_, rfl⟩) with
      ⟨noOffset, noName, noUtc, same⟩ | ⟨name, found, named, unknown, same⟩
    · exact ⟨_, cursor, .absent rfl ⟨noOffset, noName, noUtc⟩, same⟩
    · exact ⟨_, cursor, .lookup named unknown, same⟩
  | literal index =>
    obtain ⟨missing, same⟩ := ByteCursor.literal_error (eq_error_of_bind failed fun _ => ⟨_, rfl⟩)
    exact ⟨_, cursor, .absent rfl missing, same⟩

end Step

/-! ### Runs -/

namespace Layout

variable (layout : Layout) (context : ReadContext)

/-- Reading from `start` fails for this cause, at this place. -/
inductive Blames (start : ByteCursor) : Cause → ByteCursor → Prop
  | item {item : Item} {here place : ByteCursor} {cause : Cause}
      (met : layout.Meets context start item here)
      (failed : item.FailsAt layout context here cause place) : Blames start cause place
  /-- What the last item of a slot has read is refused, once there is nothing left to read. -/
  | value {fields : Fields} {stop here : ByteCursor} {item : Item} {slot : Slot} {cause : Cause}
      (run : layout.items.foldlM (layout.scanItem context) ({}, start) = .ok (fields, stop))
      (finished : ¬ stop.position < stop.stop) (met : layout.MeetsLast context start item here)
      (filled : item.slot? = some slot) (refused : fields.Refuses slot cause here.position) :
      Blames start cause here
  | rest {fields : Fields} {stop : ByteCursor}
      (run : layout.items.foldlM (layout.scanItem context) ({}, start) = .ok (fields, stop))
      (unread : stop.position < stop.stop) : Blames start .unexpectedInput stop

end Layout

section Run

variable {layout : Layout} {context : ReadContext} {fields : Fields} {start stop : ByteCursor}
  {e : TimeError}

/-- A value that the fields hold at the end of a run was read by the last item of its slot. -/
theorem exists_last_of_position
    (run : layout.items.foldlM (layout.scanItem context) ({}, start) = .ok (fields, stop))
    {slot : Slot} {position : Nat} (held : fields.position? slot = some position) :
    ∃ item here, layout.MeetsLast context start item here ∧ item.slot? = some slot ∧
      position = here.position := by
  by_cases shown : Shows layout.items slot
  · obtain ⟨item, here, met, filled⟩ := exists_runMeetsLast run shown
    obtain ⟨before, own, next, read, agree⟩ := scanItem_keepsOthers.last run met
    rw [(agree slot filled).position?_eq] at held
    exact ⟨item, here, met, filled, scanItem_position read filled held⟩
  -- The fields that a run starts with hold nothing.
  · have unfilled : slot ∉ layout.items.filterMap Item.slot? := by
      intro inside
      obtain ⟨item, member, filled⟩ := List.mem_filterMap.mp inside
      exact shown (List.mem_map.mpr ⟨item, member, filled⟩)
    rw [(scanItem_keepsOthers.run run slot unfilled).position?_eq] at held
    cases slot <;> cases held

/-- Reading fails for a cause found at a byte of the run, and at the position of that byte. -/
theorem Layout.scan_error (failed : layout.scan context start = .error e) :
    ∃ cause place, layout.Blames context start cause place ∧ e = ⟨cause, some place.position⟩ := by
  rcases bind_eq_error_iff.mp failed with failed | ⟨⟨fields, stop⟩, run, failed⟩
  · obtain ⟨item, here, fields, met, failed⟩ := foldlM_error failed
    obtain ⟨cause, place, fault, same⟩ := scanItem_error failed
    exact ⟨cause, place, .item met fault, same⟩
  · simp only at failed
    split at failed
    next unread =>
      cases failed
      exact ⟨_, stop, .rest run unread, rfl⟩
    next finished =>
      obtain ⟨slot, cause, position, refused, same⟩ := Fields.instant_error failed
      obtain ⟨item, here, met, filled, rfl⟩ := exists_last_of_position run refused.position?_eq
      exact ⟨cause, here, .value run finished met filled refused, same⟩

end Run

/-! ### Places at fault -/

section Places

variable {x : Excerpt} {layout : Layout} {context : ReadContext} {item : Item}
  {start cursor place : ByteCursor} {chars : Cursor} {width : Width} {quantity : Quantity}
  {cause : Cause}

theorem ByteCursor.Stands.pastDigits (stands : cursor.Stands x chars) :
    ∃ behind, cursor.pastDigits.Stands x behind := by
  have digits : cursor.digitRun.length = (chars.rest.takeWhile Char.isDigit).length := by
    rw [ByteCursor.digitRun, stands.bytes_eq, Text.digitRun_utf8, List.length_map]
  rw [ByteCursor.pastDigits, digits]
  exact ⟨_, stands.advance_narrow (Text.narrow_digitRun chars.rest)⟩

theorem ByteCursor.Stands.behindSign (stands : cursor.Stands x chars) :
    ∃ behind, cursor.behindSign.Stands x behind := by
  rw [ByteCursor.behindSign, stands.rest_eq]
  split
  next negative => exact ⟨_, stands.advance_narrow (Text.narrow_head negative (by decide))⟩
  next => exact ⟨chars, stands⟩

theorem ByteCursor.NumberFailsAt.stands (stands : cursor.Stands x chars)
    (failed : cursor.NumberFailsAt width quantity cause place) :
    ∃ behind, place.Stands x behind := by
  cases failed with
  | digit missing => exact stands.pastDigits
  | large greedy beyond => exact ⟨chars, stands⟩

theorem Item.FailsAt.stands (stands : cursor.Stands x chars)
    (failed : item.FailsAt layout context cursor cause place) :
    ∃ behind, place.Stands x behind := by
  cases failed with
  | number numeric measured failed =>
    obtain ⟨first, start⟩ : ∃ first, (item.numberStart cursor).Stands x first := by
      cases item with
      | year width => exact stands.behindSign
      | _ => exact ⟨chars, stands⟩
    exact failed.stands start
  | _ => exact ⟨chars, stands⟩

/-- Runs come to characters of the span, or to its end. -/
theorem Stands.of_run (stands : start.Stands x chars) {items : List Item} {fields : Fields}
    {stop : ByteCursor}
    (run : items.foldlM (layout.scanItem context) ({}, start) = .ok (fields, stop)) :
    ∃ behind, stop.Stands x behind := by
  have begun : ReachesAs x ({}, start) ({}, chars) := ⟨rfl, stands⟩
  have agrees := layout.scanItems_agree context items begun
  rw [run] at agrees
  obtain ⟨⟨_, behind⟩, -, reaches⟩ := agrees.ok_left
  exact ⟨behind, reaches.cursor⟩

theorem Layout.Blames.stands (stands : start.Stands x chars)
    (blamed : layout.Blames context start cause place) : ∃ behind, place.Stands x behind := by
  cases blamed with
  | item met failed =>
    obtain ⟨before, after, fields, -, run⟩ := met
    obtain ⟨behind, here⟩ := Stands.of_run stands run
    exact failed.stands here
  | value run finished met filled refused =>
    obtain ⟨before, later, fields, -, run, -⟩ := met
    exact Stands.of_run stands run
  | rest run unread => exact Stands.of_run stands run

/-- The look-up of a zone may fail for any cause, but it is a look-up of some characters. -/
theorem Item.FailsAt.unread (failed : item.FailsAt layout context cursor cause place)
    (trailing : cause.kind = .trailingInput) : place.rest ≠ [] := by
  cases failed with
  | absent expected missing => cases trailing
  | number numeric measured failed => cases failed <;> cases trailing
  | hour read outside => cases trailing
  | weekday read outside => cases trailing
  | lookup named unknown =>
    have some := context.zoneNames.length_pos_of_zone named
    exact List.ne_nil_of_length_pos
      (Nat.lt_of_lt_of_le some (context.zoneNames.length_le_of_zone named))

theorem Layout.Blames.unread (stands : place.Stands x chars)
    (blamed : layout.Blames context start cause place) (trailing : cause.kind = .trailingInput) :
    place.position < place.stop := by
  cases blamed with
  | item met failed =>
    have unread := failed.unread trailing
    rw [stands.rest_eq] at unread
    exact stands.unread_iff.mpr unread
  | value run finished met filled refused => exact absurd trailing refused.kind_ne
  | rest run unread => exact unread

end Places

/-! ### Positions of spans -/

open Text in
/-- The positions cut the text at the ends of its middle part. -/
structure Excerpt.Cuts (x : Excerpt) {text : String} (start stop : text.Pos) : Prop where
  ordered : start ≤ stop
  whole : text.toList = x.text
  first : start.offset.byteIdx = byteLength x.front
  last : stop.offset.byteIdx = byteLength x.front + byteLength x.span
  before : charsBefore start = x.front.length
  inside : (text.extract start stop).toList = x.span

namespace Excerpt.Cuts

open Text

variable {x : Excerpt} {text : String} {start stop : text.Pos} {cursor : ByteCursor} {chars : Cursor}

theorem exists_excerpt (ordered : start ≤ stop) : ∃ x : Excerpt, x.Cuts start stop := by
  obtain ⟨before, after, first, last⟩ := exists_span ordered
  refine ⟨⟨before.toList, (text.extract start stop).toList, after.toList⟩, ordered, ?_, ?_, ?_, ?_,
    rfl⟩
  · rw [Excerpt.text, ← String.toList_append, ← String.toList_append]
    exact congrArg String.toList first.eq_append
  · rw [byteIdx_of_splits first, byteLength_toList]
  · rw [byteIdx_of_splits last, String.utf8ByteSize_append, byteLength_toList, byteLength_toList]
  · rw [charsBefore_of_splits first, String.length_toList]

end Excerpt.Cuts

/-! ### Errors of spans -/

/-- Wherever it is, the error of a span has a position. -/
theorem Layout.position_of_parseSpan_error {layout : Layout} {context : ReadContext} {text : String}
    {start stop : Nat} {e : TimeError} (failed : layout.parseSpan context text start stop = .error e) :
    ∃ position, e.position = some position := by
  simp only [parseSpan] at failed
  split at failed
  next =>
    cases read : layout.scan context ⟨text, start, stop⟩ with
    | ok n =>
      rw [read] at failed
      cases failed
    | error found =>
      rw [read] at failed
      obtain ⟨cause, place, -, rfl⟩ := scan_error read
      cases failed
      exact ⟨_, rfl⟩
  next =>
    cases failed
    exact ⟨_, rfl⟩

end CivilTime
