import CivilTime.Layout.Read
import CivilTime.Proofs.Layout.ByteNumbers
import CivilTime.Proofs.Layout.Reading
import CivilTime.Proofs.Layout.Relocation
import CivilTime.Proofs.Locale.TableIndexes
import CivilTime.Proofs.Zone.OffsetBytes

/-!
# Reading bytes as characters

A cursor of a span stands between two characters of the text, for all that readers take are whole
characters: digits and offsets are ASCII, fixed texts are compared with characters, and a name has as
many bytes as the characters that it equals up to ASCII case. So each reader does with the bytes what
it does with the characters of the span, and where it fails it names the byte at which the character
starts that the other one names. The steps and the runs follow, and then whole texts and spans.
-/
namespace CivilTime

open Text (byteLength)

/-! ### Places -/

namespace Text

/-- The number of characters in front of a byte of the text, or of its end. -/
def charPlace (cs : List Char) (place : Nat) : Nat := charPosition (min place (byteLength cs)) cs

theorem charPlace_append (before after : List Char) :
    charPlace (before ++ after) (byteLength before) = before.length := by
  have within : byteLength before ≤ byteLength (before ++ after) := by
    rw [byteLength_append]
    exact Nat.le_add_right _ _
  rw [charPlace, Nat.min_eq_left within, charPosition, splitAtByte_append]

theorem span?_append (before inside after : List Char) :
    span? (byteLength before) (byteLength before + byteLength inside) (before ++ (inside ++ after))
      = some (before.length, inside) := by
  rw [span?, if_pos (Nat.le_add_right _ _), splitAtByte_append, Nat.add_sub_cancel_left]
  simp only [splitAtByte_append, Option.map_some]

theorem utf8_append (cs ds : List Char) : utf8 (cs ++ ds) = utf8 cs ++ utf8 ds :=
  List.flatMap_append

end Text

/-! ### Results -/

/-- The first reading succeeds with what is related to the result of the second one, or both fail for
the same cause, the second one at the other place. -/
inductive Agrees {α β : Type} (place : Nat → Nat) (related : α → β → Prop) :
    Except TimeError α → Except TimeError β → Prop
  | ok {a : α} {b : β} (same : related a b) : Agrees place related (.ok a) (.ok b)
  | error (e : TimeError) : Agrees place related (.error e) (.error (e.relocate place))

namespace Agrees

variable {α β γ δ : Type} {place : Nat → Nat} {related : α → β → Prop} {relatedRest : γ → δ → Prop}
  {left : Except TimeError α} {right : Except TimeError β}

theorem bind {leftNext : α → Except TimeError γ} {rightNext : β → Except TimeError δ}
    (first : Agrees place related left right)
    (rest : ∀ a b, related a b → Agrees place relatedRest (leftNext a) (rightNext b)) :
    Agrees place relatedRest (left >>= leftNext) (right >>= rightNext) := by
  cases first with
  | ok same => exact rest _ _ same
  | error e => exact .error e

theorem ok_right {b : β} (agrees : Agrees place related left (.ok b)) :
    ∃ a, left = .ok a ∧ related a b := by
  cases agrees with
  | ok same => exact ⟨_, rfl, same⟩

theorem ok_left {a : α} (agrees : Agrees place related (.ok a) right) :
    ∃ b, right = .ok b ∧ related a b := by
  cases agrees with
  | ok same => exact ⟨_, rfl, same⟩

theorem of_moved (result : Except TimeError α) :
    Agrees place Eq result (moved place id result) := by
  cases result with
  | ok a => exact .ok rfl
  | error e => exact .error e

theorem eq_moved {right : Except TimeError α} (agrees : Agrees place Eq left right) :
    right = moved place id left := by
  cases agrees with
  | ok same => rw [same]; rfl
  | error e => rfl

end Agrees

/-- Of the hours of a cycle only the last one can be as many as the cycle has. -/
theorem HourCycle.emod_length (cycle : HourCycle) {hour : Int} (least : cycle.least ≤ hour)
    (greatest : hour ≤ cycle.greatest) :
    hour % cycle.length = if hour = cycle.length then 0 else hour := by
  by_cases last : hour = cycle.length
  · rw [if_pos last, last, Int.emod_self]
  · rw [if_neg last]
    have bounds : 0 < cycle.length ∧ cycle.least ≤ 1 := by cases cycle <;> decide
    simp only [HourCycle.greatest] at greatest
    exact Int.emod_eq_of_lt (by omega) (by omega)

/-! ### Cursors -/

/-- A text cut in three, of which the middle is to be read. -/
structure Excerpt where
  front : List Char
  span : List Char
  back : List Char

namespace Excerpt

def text (x : Excerpt) : List Char := x.front ++ (x.span ++ x.back)

/-- The whole text, with nothing in front and behind. -/
def ofText (text : String) : Excerpt := ⟨[], text.toList, []⟩

/-- The number of characters in front of a byte of the text. -/
def place (x : Excerpt) : Nat → Nat := Text.charPlace x.text

end Excerpt

/-- The cursor is in the span of the text, and has as many characters in front of it and as many left
to read as the other one. -/
structure ByteCursor.Stands (x : Excerpt) (cursor : ByteCursor) (chars : Cursor) : Prop where
  text : cursor.text.toList = x.text
  stop : cursor.stop = byteLength x.front + byteLength x.span
  ahead : ∃ taken, x.span = taken ++ chars.rest ∧
    cursor.position = byteLength x.front + byteLength taken ∧
    chars.position = x.front.length + taken.length

/-- The same value, read from the same place, with cursors that stand behind it. -/
structure ReadsAs {α : Type} (x : Excerpt) (left : Located α × ByteCursor)
    (right : Located α × Cursor) : Prop where
  value : right.1 = left.1.relocate x.place
  cursor : left.2.Stands x right.2

namespace ByteCursor.Stands

variable {α β : Type} {x : Excerpt} {cursor : ByteCursor} {chars : Cursor} {width : Width}
  {quantity : Quantity}

theorem start (x : Excerpt) {text : String} (whole : text.toList = x.text) :
    Stands x ⟨text, byteLength x.front, byteLength x.front + byteLength x.span⟩
      ⟨x.front.length, x.span⟩ :=
  ⟨whole, rfl, [], rfl, rfl, rfl⟩

theorem whole (text : String) :
    Stands (.ofText text) ⟨text, 0, text.utf8ByteSize⟩ ⟨0, text.toList⟩ where
  text := (List.append_nil _).symm
  stop := by rw [← Text.byteLength_toList]; exact (Nat.zero_add _).symm
  ahead := ⟨[], rfl, rfl, rfl⟩

/-- What is in front of the cursor, left to read and behind the span make up the text. -/
theorem exists_parts (stands : cursor.Stands x chars) :
    ∃ before, x.text = before ++ (chars.rest ++ x.back) ∧ cursor.position = byteLength before ∧
      chars.position = before.length ∧ cursor.stop = byteLength before + byteLength chars.rest := by
  obtain ⟨taken, split, position, count⟩ := stands.ahead
  refine ⟨x.front ++ taken, ?_, ?_, ?_, ?_⟩
  · rw [Excerpt.text, split, List.append_assoc, List.append_assoc]
  · rw [position, Text.byteLength_append]
  · rw [count, List.length_append]
  · rw [stands.stop, split, Text.byteLength_append, Text.byteLength_append, Nat.add_assoc]

theorem rest_eq (stands : cursor.Stands x chars) : cursor.rest = chars.rest := by
  obtain ⟨before, parts, position, -, stop⟩ := stands.exists_parts
  rw [rest, stands.text, parts, position, stop, Text.span?_append]

theorem bytes_eq (stands : cursor.Stands x chars) : cursor.bytes = Text.utf8 chars.rest := by
  obtain ⟨before, parts, position, -, stop⟩ := stands.exists_parts
  have whole : Text.utf8 cursor.text.toList
      = Text.utf8 before ++ (Text.utf8 chars.rest ++ Text.utf8 x.back) := by
    rw [stands.text, parts, Text.utf8_append, Text.utf8_append]
  have inside : cursor.position ≤ cursor.stop ∧
      cursor.stop ≤ (Text.utf8 cursor.text.toList).length := by
    rw [whole, List.length_append, List.length_append, Text.length_utf8, Text.length_utf8]
    omega
  simp only [bytes, if_pos inside]
  rw [whole, position, stop, Nat.add_sub_cancel_left, ← Text.length_utf8 before,
    ← Text.length_utf8 chars.rest, List.drop_left, List.take_left]

theorem place_eq (stands : cursor.Stands x chars) : x.place cursor.position = chars.position := by
  obtain ⟨before, parts, position, count, -⟩ := stands.exists_parts
  rw [Excerpt.place, parts, position, count, Text.charPlace_append]

theorem unread_iff (stands : cursor.Stands x chars) :
    cursor.position < cursor.stop ↔ chars.rest ≠ [] := by
  obtain ⟨before, -, position, -, stop⟩ := stands.exists_parts
  have length := Text.length_utf8 chars.rest
  rw [position, stop, ← length, Nat.lt_add_right_iff_pos, List.length_pos_iff]
  exact not_congr ⟨fun empty => Text.utf8_injective empty, fun empty => by rw [empty]; rfl⟩

/-- Cursors move on together over the same characters. -/
theorem advance (stands : cursor.Stands x chars) {count size : Nat} (room : count ≤ chars.rest.length)
    (bytes : byteLength (chars.rest.take count) = size) :
    (cursor.advance size).Stands x (chars.advance count) := by
  obtain ⟨taken, split, position, place⟩ := stands.ahead
  refine ⟨stands.text, stands.stop, taken ++ chars.rest.take count, ?_, ?_, ?_⟩
  · rw [List.append_assoc, Cursor.advance, List.take_append_drop, split]
  · rw [ByteCursor.advance, position, Text.byteLength_append, bytes, Nat.add_assoc]
  · rw [Cursor.advance, place, List.length_append, List.length_take_of_le room, Nat.add_assoc]

theorem advance_narrow (stands : cursor.Stands x chars) {count : Nat}
    (narrow : Text.Narrow count chars.rest) :
    (cursor.advance count).Stands x (chars.advance count) := by
  refine stands.advance narrow.length_le ?_
  obtain ⟨taken, rest, whole, length, size⟩ := narrow
  rw [whole, ← length, List.take_left, length, size]

theorem reject (stands : cursor.Stands x chars) {related : α → β → Prop} (cause : Cause) :
    Agrees x.place related (cursor.reject cause) (chars.reject cause) := by
  have located : TimeError.relocate x.place ⟨cause, some cursor.position⟩
      = ⟨cause, some chars.position⟩ := by
    rw [TimeError.relocate, Option.map_some, stands.place_eq]
  rw [Cursor.reject, ← located]
  exact .error _

theorem mismatch (stands : cursor.Stands x chars) {related : α → β → Prop} (what : Expectation) :
    Agrees x.place related (cursor.mismatch what) (chars.mismatch what) :=
  stands.reject (.expected what)

/-- A value found at the cursors, whatever it is. -/
theorem readsAs (stands : cursor.Stands x chars) {after : ByteCursor} {behind : Cursor}
    (further : after.Stands x behind) (value : α) :
    ReadsAs x (⟨value, cursor.position⟩, after) (⟨value, chars.position⟩, behind) :=
  ⟨by rw [Located.relocate, stands.place_eq], further⟩

/-! ### Readers -/

/-- A number is read as its characters denote it, with a byte for each digit. -/
theorem number (stands : cursor.Stands x chars) :
    Agrees x.place
      (fun left right => ReadsAs x (left.1, left.2.2) right ∧
        right.2.position = chars.position + left.2.1)
      (cursor.number width quantity) (chars.number width quantity) := by
  unfold ByteCursor.number Cursor.number
  rw [stands.bytes_eq]
  cases width with
  | fixed count =>
    have narrow := Text.narrow_leadingDigits count chars.rest
    simp only [fixedDigits_utf8, Cursor.digits]
    by_cases full : (Text.leadingDigits count chars.rest).length = count
    · rw [full] at narrow
      simp only [if_pos full]
      exact .ok ⟨stands.readsAs (stands.advance_narrow narrow) _, rfl⟩
    · simp only [if_neg full]
      exact (stands.advance_narrow narrow).mismatch _
  | greedy =>
    have narrow := Text.narrow_digitRun chars.rest
    simp only [greedyDigits_utf8, Cursor.digits]
    -- The loop over the bytes finds no fault in having no digits, what follows it does.
    by_cases missing : (chars.rest.takeWhile Char.isDigit) = []
    · simp only [missing, List.length_nil, List.isEmpty_nil, if_true]
      exact stands.mismatch _
    · have some : (chars.rest.takeWhile Char.isDigit).isEmpty = false :=
        List.isEmpty_eq_false_iff.mpr missing
      have length := mt List.length_eq_zero_iff.mp missing
      by_cases fits : (Text.digitsValue (chars.rest.takeWhile Char.isDigit) : Int) ≤ maxNanos
      · simp only [if_pos fits, if_neg length, some, Bool.false_eq_true, if_false, bind, Except.bind,
          Cursor.numberOf]
        exact .ok ⟨stands.readsAs (stands.advance_narrow narrow) _, rfl⟩
      · simp only [if_neg fits, some, Bool.false_eq_true, if_false, bind, Except.bind,
          Cursor.numberOf]
        exact stands.reject _

theorem year (stands : cursor.Stands x chars) (window : YearWindow) :
    Agrees x.place (ReadsAs x) (cursor.year width window) (chars.year width window) := by
  simp only [ByteCursor.year, Cursor.year, stands.rest_eq]
  by_cases negative : chars.rest.head? = some '-'
  · have sign := stands.advance_narrow (Text.narrow_head negative (by decide))
    simp only [if_pos negative]
    refine sign.number.bind ?_
    rintro ⟨read, length, after⟩ ⟨_, behind⟩ ⟨⟨rfl, further⟩, -⟩
    exact .ok (stands.readsAs further _)
  · simp only [if_neg negative]
    refine stands.number.bind ?_
    rintro ⟨read, length, after⟩ ⟨_, behind⟩ ⟨⟨rfl, further⟩, count⟩
    -- The number has as many digits as the other cursor has moved on.
    have moved : behind.position = chars.position + length := count
    have two : (behind.position == chars.position + 2) = (length == 2) := by
      simp only [moved, beq_eq_beq, Nat.add_left_cancel_iff]
    simp only [Located.relocate, two]
    exact .ok (stands.readsAs further _)

theorem hour (stands : cursor.Stands x chars) (cycle : HourCycle) :
    Agrees x.place (ReadsAs x) (cursor.hour cycle width) (chars.hour cycle width) := by
  refine stands.number.bind ?_
  rintro ⟨read, length, after⟩ ⟨_, behind⟩ ⟨⟨rfl, further⟩, -⟩
  change Agrees _ _ (if (cycle.least : Int) ≤ read.value ∧ read.value ≤ cycle.greatest then _ else _)
    (if (cycle.least : Int) ≤ read.value ∧ read.value ≤ cycle.greatest then _ else _)
  by_cases inCycle : (cycle.least : Int) ≤ read.value ∧ read.value ≤ cycle.greatest
  · simp only [if_pos inCycle, ← cycle.emod_length inCycle.1 inCycle.2]
    exact .ok ⟨rfl, further⟩
  · simp only [if_neg inCycle]
    exact stands.reject _

theorem weekday (stands : cursor.Stands x chars) :
    Agrees x.place (Stands x) cursor.weekday chars.weekday := by
  refine stands.number.bind ?_
  rintro ⟨read, length, after⟩ ⟨_, behind⟩ ⟨⟨rfl, further⟩, -⟩
  change Agrees _ _ (if 1 ≤ read.value ∧ read.value ≤ 7 then _ else _)
    (if 1 ≤ read.value ∧ read.value ≤ 7 then _ else _)
  by_cases inWeek : 1 ≤ read.value ∧ read.value ≤ 7
  · simp only [if_pos inWeek]
    exact .ok further
  · simp only [if_neg inWeek]
    exact stands.reject _

/-- A name takes off its own bytes, which are those of the characters that equal it. -/
theorem name (stands : cursor.Stands x chars) (index : Locale.NameIndex α) (what : Expectation) :
    Agrees x.place (ReadsAs x) (cursor.name index what) (chars.name index what) := by
  simp only [ByteCursor.name, Cursor.name, stands.rest_eq]
  cases named : index.longest? chars.rest with
  | some found =>
    have further := stands.advance (Locale.NameIndex.length_le_of_longest? named)
      (Locale.NameIndex.bytes_of_longest? named)
    exact .ok (stands.readsAs further _)
  | none => exact stands.mismatch what

theorem literal (stands : cursor.Stands x chars) (text : String) :
    Agrees x.place (Stands x) (cursor.literal text) (chars.literal text) := by
  simp only [ByteCursor.literal, Cursor.literal, stands.rest_eq]
  by_cases starts : text.toList.isPrefixOf chars.rest = true
  · have front := List.isPrefixOf_iff_prefix.mp starts
    have taken : chars.rest.take text.length = text.toList := by
      rw [← String.length_toList]
      exact (List.prefix_iff_eq_take.mp front).symm
    simp only [if_pos starts]
    refine .ok (stands.advance ?_ ?_)
    · rw [← String.length_toList]
      exact front.length_le
    · rw [taken, Text.byteLength_toList]
  · simp only [if_neg starts]
    exact stands.mismatch _

theorem zone (stands : cursor.Stands x chars) (context : ReadContext) :
    Agrees x.place (ReadsAs x) (cursor.zone context) (chars.zone context) := by
  simp only [ByteCursor.zone, Cursor.zone, stands.rest_eq, Zone.any_isUtc_splitAtByte]
  cases offset : Zone.OffsetLiteral.read? chars.rest with
  | some literal =>
    have further := stands.advance_narrow (Zone.OffsetLiteral.read?_narrow offset)
    exact .ok (stands.readsAs further _)
  | none =>
    cases named : context.zoneNames.zoneIndex.longest? chars.rest with
    | some found =>
      have further := stands.advance (context.zoneNames.length_le_of_zone named)
        (context.zoneNames.bytes_of_zone named)
      simp only [← stands.place_eq, locate_relocate]
      refine (Agrees.of_moved _).bind ?_
      rintro timeline _ rfl
      exact .ok ⟨rfl, further⟩
    | none =>
      by_cases utc : Zone.startsWithUtc chars.rest = true
      · have further := stands.advance_narrow (Zone.narrow_of_startsWithUtc utc)
        simp only [if_pos utc]
        exact .ok (stands.readsAs further _)
      · simp only [if_neg utc]
        exact stands.mismatch _

end ByteCursor.Stands

/-! ### Items and runs -/

/-- The same fields, up to the places, with cursors that stand at the same character. -/
structure ReachesAs (x : Excerpt) (left : Fields × ByteCursor) (right : Fields × Cursor) : Prop where
  fields : right.1 = left.1.relocate x.place
  cursor : left.2.Stands x right.2

namespace Layout

variable (layout : Layout) (context : ReadContext) {x : Excerpt}

theorem scanItem_agrees {left : Fields × ByteCursor} {right : Fields × Cursor}
    (reaches : ReachesAs x left right) (item : Item) :
    Agrees x.place (ReachesAs x) (layout.scanItem context left item)
      (layout.readItem context right item) := by
  obtain ⟨fields, cursor⟩ := left
  obtain ⟨_, chars⟩ := right
  obtain ⟨rfl, stands⟩ := reaches
  cases item with
  | era =>
    refine (stands.name _ _).bind ?_
    rintro ⟨found, after⟩ ⟨_, behind⟩ ⟨rfl, further⟩
    exact .ok ⟨rfl, further⟩
  | year width =>
    refine (stands.year _).bind ?_
    rintro ⟨found, after⟩ ⟨_, behind⟩ ⟨rfl, further⟩
    exact .ok ⟨rfl, further⟩
  | number field width =>
    refine stands.number.bind ?_
    rintro ⟨found, length, after⟩ ⟨_, behind⟩ ⟨⟨rfl, further⟩, -⟩
    exact .ok ⟨(Fields.setNumber_relocate ..).symm, further⟩
  | hour cycle width =>
    refine (stands.hour cycle).bind ?_
    rintro ⟨found, after⟩ ⟨_, behind⟩ ⟨rfl, further⟩
    exact .ok ⟨rfl, further⟩
  | monthName style =>
    refine (stands.name _ _).bind ?_
    rintro ⟨found, after⟩ ⟨_, behind⟩ ⟨rfl, further⟩
    exact .ok ⟨(Fields.setNumber_relocate fields .month ⟨found.value, found.position⟩).symm, further⟩
  | weekdayName style =>
    refine (stands.name _ _).bind ?_
    rintro ⟨found, after⟩ ⟨_, behind⟩ ⟨rfl, further⟩
    exact .ok ⟨rfl, further⟩
  | weekday =>
    refine stands.weekday.bind ?_
    exact fun after behind further => .ok ⟨rfl, further⟩
  | halfOfDay =>
    refine (stands.name _ _).bind ?_
    rintro ⟨found, after⟩ ⟨_, behind⟩ ⟨rfl, further⟩
    exact .ok ⟨rfl, further⟩
  | zone =>
    refine (stands.zone context).bind ?_
    rintro ⟨found, after⟩ ⟨_, behind⟩ ⟨rfl, further⟩
    exact .ok ⟨rfl, further⟩
  | literal index =>
    refine (stands.literal _).bind ?_
    exact fun after behind further => .ok ⟨rfl, further⟩

theorem scanItems_agree (items : List Item) {left : Fields × ByteCursor} {right : Fields × Cursor}
    (reaches : ReachesAs x left right) :
    Agrees x.place (ReachesAs x) (items.foldlM (layout.scanItem context) left)
      (items.foldlM (layout.readItem context) right) := by
  induction items generalizing left right with
  | nil => exact .ok reaches
  | cons item items ih =>
    rw [List.foldlM_cons, List.foldlM_cons]
    exact (layout.scanItem_agrees context reaches item).bind fun _ _ => ih

theorem scanItems_whole_agree (items : List Item) (text : String) :
    Agrees (Excerpt.ofText text).place (ReachesAs (.ofText text))
      (items.foldlM (layout.scanItem context) ({}, ⟨text, 0, text.utf8ByteSize⟩))
      (items.foldlM (layout.readItem context) ({}, ⟨0, text.toList⟩)) :=
  layout.scanItems_agree context items ⟨rfl, .whole text⟩

/-- Scanning the bytes of a span is reading its characters, behind those in front of it. -/
theorem scan_agrees (x : Excerpt) {text : String} (whole : text.toList = x.text) :
    layout.read context x.front.length x.span
      = moved x.place id (layout.scan context
          ⟨text, byteLength x.front, byteLength x.front + byteLength x.span⟩) := by
  have start := ByteCursor.Stands.start x whole
  have place : x.place (byteLength x.front) = x.front.length := start.place_eq
  -- After the runs, which agree, both look for text that is left, and then both compose.
  apply Agrees.eq_moved
  refine (layout.scanItems_agree context layout.items ⟨rfl, start⟩).bind ?_
  rintro ⟨fields, stop⟩ ⟨_, behind⟩ ⟨rfl, stands⟩
  simp only
  by_cases unread : stop.position < stop.stop
  · have some : ¬ behind.rest.isEmpty = true := mt List.isEmpty_iff.mp (stands.unread_iff.mp unread)
    simp only [if_pos unread, if_neg some]
    exact stands.reject _
  · have none : behind.rest.isEmpty = true := by
      rw [List.isEmpty_iff]
      exact not_not.mp (mt stands.unread_iff.mpr unread)
    simp only [if_neg unread, if_pos none]
    have other : (fields.relocate x.place).instant (x.place (byteLength x.front))
        = moved x.place id (fields.instant (byteLength x.front)) := fields.instant_relocate _
    rw [place] at other
    rw [other]
    exact Agrees.of_moved _

/-- A span is read as its characters are, behind those in front of it. -/
theorem parseSpan_eq_read (x : Excerpt) {text : String} (whole : text.toList = x.text) :
    layout.parseSpan context text (byteLength x.front) (byteLength x.front + byteLength x.span)
      = layout.read context x.front.length x.span := by
  have good : Text.span? (byteLength x.front) (byteLength x.front + byteLength x.span) text.toList
      = some (x.front.length, x.span) := by rw [whole, Excerpt.text, Text.span?_append]
  simp only [parseSpan, good]
  rw [layout.scan_agrees context x whole]
  cases layout.scan context _ with
  | ok n => rfl
  | error e =>
    rw [moved_error, Excerpt.place, ← whole]
    rfl

/-- A text is read as its characters are. -/
theorem parse_eq_read (text : String) :
    layout.parse context text = layout.read context 0 text.toList := by
  have whole := ByteCursor.Stands.whole text
  have parsed := layout.parseSpan_eq_read context (.ofText text) whole.text
  rw [← whole.stop] at parsed
  exact parsed

end Layout
end CivilTime
