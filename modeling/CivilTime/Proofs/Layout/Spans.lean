import CivilTime.Proofs.Layout.ErrorPlaces

/-!
# Reading a span of a text

The position of a cursor is carried along and never looked at, apart from differences of two of
them. So a run that starts behind `count` more characters goes the same way: it succeeds with the
same values, held `count` characters further on, or fails for the same cause `count` characters
further on. Each reader is shown to commute with that move, and then the steps and the runs.
-/
namespace CivilTime

def Cursor.behind (count : Nat) (cursor : Cursor) : Cursor :=
  { cursor with position := count + cursor.position }

/-! ### Readers -/

namespace Cursor

variable {cursor : Cursor} {count : Nat} {width : Width} {quantity : Quantity}

theorem rest_behind : (cursor.behind count).rest = cursor.rest := rfl

theorem advance_behind (length : Nat) :
    (cursor.behind count).advance length = (cursor.advance length).behind count := by
  simp only [advance, behind, Nat.add_assoc]

theorem reject_behind {α β : Type} (move : α → β) (cause : Cause) :
    (cursor.behind count).reject cause = moved (count + ·) move (cursor.reject cause) := rfl

theorem mismatch_behind {α β : Type} (move : α → β) (what : Expectation) :
    (cursor.behind count).mismatch what = moved (count + ·) move (cursor.mismatch what) := rfl

/-- A value with the cursor behind it, both moved. -/
def behindBoth {α : Type} (count : Nat) (found : Located α × Cursor) : Located α × Cursor :=
  (found.1.relocate (count + ·), found.2.behind count)

theorem digits_behind :
    (cursor.behind count).digits width quantity
      = moved (count + ·) (fun (ds, after) => (ds, after.behind count))
          (cursor.digits width quantity) := by
  cases width with
  | fixed length =>
    simp only [digits, advance_behind, rest_behind]
    by_cases full : (Text.leadingDigits length cursor.rest).length = length
    · simp only [if_pos full, moved_ok]
    · simp only [if_neg full]
      exact mismatch_behind _ _
  | greedy =>
    simp only [digits, advance_behind, rest_behind]
    by_cases none : (cursor.rest.takeWhile Char.isDigit).isEmpty = true
    · simp only [if_pos none]
      exact mismatch_behind _ _
    · simp only [if_neg none, moved_ok]

theorem numberOf_behind (ds : List Char) :
    (cursor.behind count).numberOf width quantity ds
      = moved (count + ·) id (cursor.numberOf width quantity ds) := by
  cases width with
  | fixed length =>
    unfold numberOf
    rw [moved_ok, id_eq]
  | greedy =>
    unfold numberOf
    by_cases fits : (Text.digitsValue ds : Int) ≤ maxNanos
    · simp only [if_pos fits]
      rw [moved_ok, id_eq]
    · simp only [if_neg fits]
      exact reject_behind _ _

theorem number_behind :
    (cursor.behind count).number width quantity
      = moved (count + ·) (behindBoth count) (cursor.number width quantity) := by
  rw [number, digits_behind]
  apply moved_bind
  rintro ⟨ds, after⟩
  simp only [numberOf_behind]
  exact moved_bind fun n => rfl

theorem year_behind (window : YearWindow) :
    (cursor.behind count).year width window
      = moved (count + ·) (behindBoth count) (cursor.year width window) := by
  -- With a sign the number is read one character further on, and its length is of no matter.
  by_cases negative : cursor.rest.head? = some '-'
  · have sign : (cursor.behind count).rest.head? = some '-' := negative
    simp only [year, if_pos negative, if_pos sign, advance_behind, number_behind]
    exact moved_bind fun found => rfl
  · have unsigned : ¬ (cursor.behind count).rest.head? = some '-' := negative
    simp only [year, if_neg negative, if_neg unsigned, number_behind]
    apply moved_bind
    rintro ⟨read, after⟩
    -- The length of the number is the difference of two positions.
    have length : ((after.behind count).position == (cursor.behind count).position + 2)
        = (after.position == cursor.position + 2) := by
      simp only [behind, Nat.add_assoc, beq_eq_beq, Nat.add_left_cancel_iff]
    simp only [behindBoth, length]
    rfl

theorem hour_behind (cycle : HourCycle) :
    (cursor.behind count).hour cycle width
      = moved (count + ·) (behindBoth count) (cursor.hour cycle width) := by
  rw [hour, number_behind]
  apply moved_bind
  rintro ⟨read, after⟩
  change (if (cycle.least : Int) ≤ read.value ∧ read.value ≤ cycle.greatest then _ else _) = _
  by_cases inCycle : (cycle.least : Int) ≤ read.value ∧ read.value ≤ cycle.greatest
  · simp only [if_pos inCycle]
    rfl
  · simp only [if_neg inCycle]
    exact reject_behind _ _

theorem weekday_behind :
    (cursor.behind count).weekday = moved (count + ·) (·.behind count) cursor.weekday := by
  rw [weekday, number_behind]
  apply moved_bind
  rintro ⟨read, after⟩
  change (if 1 ≤ read.value ∧ read.value ≤ 7 then _ else _) = _
  by_cases inWeek : 1 ≤ read.value ∧ read.value ≤ 7
  · simp only [if_pos inWeek]
    rfl
  · simp only [if_neg inWeek]
    exact reject_behind _ _

theorem name_behind {α : Type} (index : Locale.NameIndex α) (what : Expectation) :
    (cursor.behind count).name index what
      = moved (count + ·) (behindBoth count) (cursor.name index what) := by
  simp only [name, advance_behind, rest_behind]
  cases index.longest? cursor.rest with
  | some found => rfl
  | none => exact mismatch_behind _ _

theorem literal_behind (text : String) :
    (cursor.behind count).literal text = moved (count + ·) (·.behind count) (cursor.literal text) := by
  simp only [literal, advance_behind, rest_behind]
  by_cases starts : text.toList.isPrefixOf cursor.rest = true
  · simp only [if_pos starts, moved_ok]
  · simp only [if_neg starts]
    exact mismatch_behind _ _

theorem zone_behind (context : ReadContext) :
    (cursor.behind count).zone context
      = moved (count + ·) (behindBoth count) (cursor.zone context) := by
  simp only [zone, advance_behind, rest_behind]
  cases Zone.OffsetLiteral.read? cursor.rest with
  | some literal => rfl
  | none =>
    cases context.zoneNames.zoneIndex.longest? cursor.rest with
    | some found =>
      -- The error of a look-up gets the position of the name, whatever it had before.
      have place : locate (count + cursor.position) (context.timeline found.value)
          = moved (count + ·) id (locate cursor.position (context.timeline found.value)) :=
        locate_relocate cursor.position _
      change locate (count + cursor.position) (context.timeline found.value) >>= _ = _
      rw [place]
      exact moved_bind fun timeline => rfl
    | none =>
      by_cases utc : Zone.startsWithUtc cursor.rest = true
      · simp only [if_pos utc]
        rfl
      · simp only [if_neg utc]
        exact mismatch_behind _ _

end Cursor

/-! ### Steps and runs -/

/-- Fields and a cursor, both moved. -/
def stateBehind (count : Nat) (state : Fields × Cursor) : Fields × Cursor :=
  (state.1.relocate (count + ·), state.2.behind count)

section Run

variable {layout : Layout} {context : ReadContext} {count : Nat}

theorem readItem_behind (state : Fields × Cursor) (item : Item) :
    layout.readItem context (stateBehind count state) item
      = moved (count + ·) (stateBehind count) (layout.readItem context state item) := by
  obtain ⟨fields, cursor⟩ := state
  cases item with
  | era =>
    simp only [Layout.readItem, stateBehind, Cursor.name_behind]
    exact moved_bind fun found => rfl
  | year width =>
    simp only [Layout.readItem, stateBehind, Cursor.year_behind]
    exact moved_bind fun found => rfl
  | number field width =>
    simp only [Layout.readItem, stateBehind, Cursor.number_behind]
    exact moved_bind fun found => congrArg Except.ok (Prod.ext (Fields.setNumber_relocate ..).symm rfl)
  | hour cycle width =>
    simp only [Layout.readItem, stateBehind, Cursor.hour_behind]
    exact moved_bind fun found => rfl
  | monthName style =>
    simp only [Layout.readItem, stateBehind, Cursor.name_behind]
    refine moved_bind fun found => congrArg Except.ok (Prod.ext ?_ rfl)
    exact (Fields.setNumber_relocate fields .month ⟨found.1.value, found.1.position⟩).symm
  | weekdayName style =>
    simp only [Layout.readItem, stateBehind, Cursor.name_behind]
    exact moved_bind fun found => rfl
  | weekday =>
    simp only [Layout.readItem, stateBehind, Cursor.weekday_behind]
    exact moved_bind fun found => rfl
  | halfOfDay =>
    simp only [Layout.readItem, stateBehind, Cursor.name_behind]
    exact moved_bind fun found => rfl
  | zone =>
    simp only [Layout.readItem, stateBehind, Cursor.zone_behind]
    exact moved_bind fun found => rfl
  | literal index =>
    simp only [Layout.readItem, stateBehind, Cursor.literal_behind]
    exact moved_bind fun found => rfl

theorem foldlM_behind (items : List Item) (state : Fields × Cursor) :
    items.foldlM (layout.readItem context) (stateBehind count state)
      = moved (count + ·) (stateBehind count) (items.foldlM (layout.readItem context) state) := by
  induction items generalizing state with
  | nil => rfl
  | cons item items ih =>
    rw [List.foldlM_cons, List.foldlM_cons, readItem_behind]
    exact moved_bind ih

end Run

namespace Layout

/-- Reading the same characters behind `count` more gives the same instant or fails for the same
cause `count` characters further on. -/
theorem read_behind (layout : Layout) (context : ReadContext) (count position : Nat)
    (cs : List Char) :
    layout.read context (count + position) cs
      = moved (count + ·) id (layout.read context position cs) := by
  -- Fields that hold nothing have no position to move.
  have empty : (({}, ⟨count + position, cs⟩) : Fields × Cursor)
      = stateBehind count ({}, ⟨position, cs⟩) := rfl
  simp only [read]
  rw [empty, foldlM_behind]
  apply moved_bind
  rintro ⟨fields, stop⟩
  simp only [stateBehind, Cursor.rest_behind, Fields.instant_relocate]
  by_cases finished : stop.rest.isEmpty = true
  · simp only [if_pos finished]
  · simp only [if_neg finished]
    exact Cursor.reject_behind _ _

open Text in
/-- A span is read as the text between its ends is read on its own. Errors are the same, behind the
characters in front of the span. -/
theorem parseSpan_reads_extract (layout : Layout) (context : ReadContext) {text : String}
    {start stop : text.Pos} (ordered : start ≤ stop) :
    (∃ n, layout.parse context (text.extract start stop) = .ok n ∧
      layout.parseSpan context text start.offset.byteIdx stop.offset.byteIdx = .ok n) ∨
    ∃ inside whole position, layout.parse context (text.extract start stop) = .error inside ∧
      layout.parseSpan context text start.offset.byteIdx stop.offset.byteIdx = .error whole ∧
      whole.kind = inside.kind ∧ whole.message = inside.message ∧
      inside.position = some position ∧ whole.position = some (position + charsBefore start) := by
  have same : layout.parseSpan context text start.offset.byteIdx stop.offset.byteIdx
      = moved (charsBefore start + ·) id (layout.parse context (text.extract start stop)) := by
    obtain ⟨x, cut⟩ := Excerpt.Cuts.exists_excerpt ordered
    have span := layout.parseSpan_eq_read context x cut.whole
    have behind := layout.read_behind context (charsBefore start) 0 (text.extract start stop).toList
    rw [← cut.last, ← cut.first, ← cut.before, ← cut.inside] at span
    rw [span, parse_eq_read, ← behind, Nat.add_zero]
  rw [same]
  cases read : layout.parse context (text.extract start stop) with
  | ok n => exact .inl ⟨n, rfl, rfl⟩
  | error e =>
    -- No error is without a position, so the move shows in each.
    obtain ⟨position, there⟩ := position_of_parseSpan_error read
    refine .inr ⟨_, _, position, rfl, rfl, rfl, rfl, there, ?_⟩
    change e.position.map (charsBefore start + ·) = some (position + charsBefore start)
    rw [there, Option.map_some, Nat.add_comm]

/-- The letter behind the day is the second character of the span and the third of the text. -/
theorem parseSpan_moves_error_behind_accent :
    ∃ start stop : "é7x".Pos, start ≤ stop ∧ "é7x".extract start stop = "7x" ∧
      ∃ inside whole,
        (⟨[.number .day .greedy], []⟩ : Layout).parse { window := .around 2000 } "7x"
          = .error inside ∧
        (⟨[.number .day .greedy], []⟩ : Layout).parseSpan { window := .around 2000 } "é7x"
          start.offset.byteIdx stop.offset.byteIdx = .error whole ∧
        inside.position = some 1 ∧ whole.position = some 2 := by
  have front : String.Pos.Raw.IsValid "é7x" ⟨2⟩ :=
    String.Pos.Raw.isValid_iff_exists_append.mpr ⟨"é", "7x", rfl, rfl⟩
  have back : String.Pos.Raw.IsValid "é7x" ⟨4⟩ :=
    String.Pos.Raw.isValid_iff_exists_append.mpr ⟨"é7x", "", rfl, rfl⟩
  have first : (⟨⟨2⟩, front⟩ : "é7x".Pos).Splits "é" ("7x" ++ "") := ⟨rfl, rfl⟩
  have last : (⟨⟨4⟩, back⟩ : "é7x".Pos).Splits ("é" ++ "7x") "" := ⟨rfl, rfl⟩
  have ordered : (⟨⟨2⟩, front⟩ : "é7x".Pos) ≤ ⟨⟨4⟩, back⟩ :=
    String.Pos.Raw.le_iff.mpr (show 2 ≤ 4 by decide)
  have inside : (⟨[.number .day .greedy], []⟩ : Layout).parse { window := .around 2000 } "7x"
      = .error ⟨.unexpectedInput, some 1⟩ := by decide +kernel
  have span := Text.extract_of_splits first last
  refine ⟨⟨⟨2⟩, front⟩, ⟨⟨4⟩, back⟩, ordered, span, ?_⟩
  have read :=
    parseSpan_reads_extract ⟨[.number .day .greedy], []⟩ { window := .around 2000 } ordered
  rw [span, inside] at read
  rcases read with ⟨n, succeeded, -⟩ | ⟨_, whole, position, same, failed, -, -, there, moved⟩
  · cases succeeded
  · cases same
    obtain rfl := Option.some.inj there
    rw [Text.charsBefore_of_splits first] at moved
    exact ⟨_, whole, inside, failed, rfl, moved⟩

end Layout
end CivilTime
