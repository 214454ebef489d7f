import CivilTime.Layout.Standard
import CivilTime.Proofs.Layout.Readers
import CivilTime.Proofs.Layout.Exactness
import CivilTime.Proofs.Zone.OffsetLiterals

/-!
# Local times with an offset

A local time with an offset gives the instant whose distance from the local time is the offset. The
local time is composed first and has to be an instant itself, so an instant cannot be read in an
offset that moves it out of range.
-/
namespace CivilTime

open StandardLayout (dateItems timeItems fractionItems)

/-- The date and the time of day with nanoseconds. -/
def civilItems : List Item :=
  dateItems ++ [.literal 1] ++ timeItems 2 ++ [.literal 3]
    ++ fractionItems [.millisecond, .microsecond, .nanosecond]

/-- ISO 8601 with nanoseconds and an offset. -/
def isoOffset : Layout where
  items := civilItems ++ [.zone]
  literals := ["-", "T", ":", "."]

theorem ofPattern_isoOffset :
    Layout.ofPattern "yyyy-MM-dd'T'HH:mm:ss.SSSUUUNNNz" = .ok isoOffset := by
  rfl

theorem plain_civilItems : ∀ item ∈ civilItems, item.Plain := by
  decide

theorem complete_civilItems : Complete civilItems :=
  ⟨by decide, by intro field; cases field <;> decide, .from0To23, by decide, .inl rfl⟩

theorem toList_format_isoOffset (n : Int) (zoneName : String) :
    (isoOffset.format n none zoneName).toList
      = civilItems.flatMap (isoOffset.writeItem Locale.Standard.englishTable zoneName n)
        ++ zoneName.toList := by
  have items : isoOffset.items = civilItems ++ [.zone] := rfl
  rw [Layout.toList_format, Layout.write, items, List.flatMap_append, List.flatMap_singleton]
  rfl

/-- The local time is checked before the offset applies. -/
theorem Fields.instant_offset {fields : Fields} {t : DateTime} (read : fields.dateTime = .ok t)
    (offset : Int) (place start : Nat) :
    Fields.instant { fields with zone := some ⟨.offset offset, place⟩ } start
      = (locate ((fields.position? .year).getD start) t.toInstant).bind fun localTime =>
          if IsInstant (localTime - offset) then .ok (localTime - offset)
          else .error { cause := .outOfRange .instant, position := some place } := by
  have same : Fields.dateTime { fields with zone := some ⟨.offset offset, place⟩ } = .ok t := read
  rw [instant, same]
  rfl

section Run

variable {context : ReadContext} {fields : Fields} {clock : Zone.ClockOffset} {text : String}

theorem Cursor.zone_clock (context : ReadContext) {here : Cursor}
    (ahead : here.rest = clock.text.toList) :
    ∃ stop, here.zone context = .ok (⟨.offset clock.offset, here.position⟩, stop) ∧
      stop.rest = [] := by
  have read := Zone.OffsetLiteral.read?_text clock []
  rw [List.append_nil, ← ahead] at read
  refine ⟨here.advance 6, by simp only [zone, read], ?_⟩
  rw [advance, ahead, List.drop_eq_nil_iff, clock.length_text]

/-- Behind the local time, the offset alone is left to read. -/
theorem parse_isoOffset {here : Cursor}
    (run : civilItems.foldlM (isoOffset.readItem context) ({}, ⟨0, text.toList⟩) = .ok (fields, here))
    (ahead : here.rest = clock.text.toList) :
    isoOffset.parse context text
      = Fields.instant { fields with zone := some ⟨.offset clock.offset, here.position⟩ } 0 := by
  obtain ⟨stop, read, finished⟩ := Cursor.zone_clock context ahead
  have items : isoOffset.items = civilItems ++ [.zone] := rfl
  rw [Layout.parse_eq_read]
  simp only [Layout.read, items, List.foldlM_append, run, List.foldlM_cons,
    List.foldlM_nil, Layout.readItem, read, bind, Except.bind, pure, Except.pure, finished,
    List.isEmpty_nil, if_true]

/-- The year is the first that is read. -/
theorem position?_civilItems {here : Cursor}
    (run : civilItems.foldlM (isoOffset.readItem context) ({}, ⟨0, text.toList⟩)
      = .ok (fields, here)) : fields.position? .year = some 0 := by
  have items : civilItems = .year (.fixed 4) :: civilItems.tail := rfl
  rw [items, List.foldlM_cons] at run
  obtain ⟨⟨first, next⟩, step, run⟩ := bind_eq_ok_iff.mp run
  have kept : fields.Agree first .year := readItem_keepsOthers.run run .year (by decide)
  obtain ⟨⟨found, after⟩, taken, step⟩ := bind_eq_ok_iff.mp step
  cases step
  have start : found.position = 0 := by
    obtain ⟨_, -, taken⟩ := bind_eq_ok_iff.mp taken
    cases taken
    rfl
  rw [Fields.position?, show fields.year = some found from kept, Option.map_some, start]

/-- The local time is read back, an instant or not. -/
theorem foldlM_civilItems (context : ReadContext) {n : Int} (fourDigits : FourDigitYear n)
    (written : text = isoOffset.format n none clock.text) :
    ∃ fields here,
      civilItems.foldlM (isoOffset.readItem context) ({}, ⟨0, text.toList⟩) = .ok (fields, here) ∧
      here.rest = clock.text.toList ∧ fields.dateTime = .ok (DateTime.ofInstant n) := by
  obtain ⟨fields, past, run, hold⟩ := foldlM_write_plain plain_civilItems fourDigits
    (Fields.Hold.start n) Locale.Standard.englishTable clock.text 0 clock.text.toList
  rw [written, toList_format_isoOffset]
  refine ⟨fields, _, run, rfl, ?_⟩
  rw [← DateTime.shown_of_complete complete_civilItems n]
  exact hold.dateTime_shown fourDigits complete_civilItems.year

end Run

/-- An instant is read from its local time with the offset if the local time is an instant too. -/
theorem parse_format_isoOffset (context : ReadContext) (clock : Zone.ClockOffset) {n : Int}
    (instant : IsInstant n) :
    isoOffset.parse context (isoOffset.format (n + clock.offset) none clock.text)
      = if IsInstant (n + clock.offset) then .ok n
        else .error { cause := .instantOutOfRange, position := some 0 } := by
  obtain ⟨lower, upper⟩ := clock.offset_bounds
  obtain ⟨fields, here, run, ahead, read⟩ := foldlM_civilItems context
    (instant.fourDigitYear_add lower upper) rfl
  rw [parse_isoOffset run ahead, Fields.instant_offset read, position?_civilItems run,
    (DateTime.isCivil_ofInstant _).toInstant_eq, DateTime.count_ofInstant, asInstant]
  split
  · have back : n + clock.offset - clock.offset = n := Int.add_sub_cancel n clock.offset
    simp only [locate, Except.mapError, Except.bind, back, if_pos instant]
  · rfl

/-- The items in front of the zone are read from the characters alike, up to the zone. -/
theorem exists_run_to_zone {context : ReadContext} {text : String} {here : ByteCursor}
    (met : isoOffset.Meets context (.whole text) .zone here) :
    ∃ fields chars, civilItems.foldlM (isoOffset.readItem context) ({}, ⟨0, text.toList⟩)
      = .ok (fields, chars) ∧ chars.rest = here.rest := by
  obtain ⟨before, after, fields, split, run⟩ := met
  -- The zone is the last item, so what was read before it is the local time.
  have items : civilItems ++ .zone :: [] = before ++ .zone :: after := split
  obtain ⟨rfl, -, -⟩ := (List.append_cons_inj_of_notMem (by decide) (by decide)).mp items
  have agrees := isoOffset.scanItems_whole_agree context civilItems text
  have scanned : civilItems.foldlM (isoOffset.scanItem context) ({}, ⟨text, 0, text.utf8ByteSize⟩)
      = .ok (fields, here) := run
  rw [scanned] at agrees
  obtain ⟨⟨same, chars⟩, read, reaches⟩ := agrees.ok_left
  exact ⟨same, chars, read, reaches.cursor.rest_eq.symm⟩

/-- Conversely, where the characters are read up to the zone, the zone is met there. -/
theorem exists_meets_zone {context : ReadContext} {text : String} {fields : Fields} {chars : Cursor}
    (run : civilItems.foldlM (isoOffset.readItem context) ({}, ⟨0, text.toList⟩)
      = .ok (fields, chars)) :
    ∃ here, isoOffset.Meets context (.whole text) .zone here ∧ here.rest = chars.rest := by
  have agrees := isoOffset.scanItems_whole_agree context civilItems text
  rw [run] at agrees
  obtain ⟨⟨same, here⟩, scanned, reaches⟩ := agrees.ok_right
  exact ⟨here, ⟨civilItems, [], same, rfl, scanned⟩, reaches.cursor.rest_eq⟩

/-- What is read with an offset is the local time less the offset. -/
theorem eq_format_isoOffset {context : ReadContext} {clock : Zone.ClockOffset} {text : String}
    {here : Cursor} {fields : Fields}
    (run : civilItems.foldlM (isoOffset.readItem context) ({}, ⟨0, text.toList⟩) = .ok (fields, here))
    (ahead : here.rest = clock.text.toList) {m : Int} (parsed : isoOffset.parse context text = .ok m) :
    ∃ localTime, IsInstant localTime ∧ text = isoOffset.format localTime none clock.text ∧
      m = localTime - clock.offset := by
  rw [parse_isoOffset run ahead] at parsed
  obtain ⟨t, read, -⟩ := bind_eq_ok_iff.mp parsed
  have civil : fields.dateTime = .ok t := read
  rw [Fields.instant_offset civil] at parsed
  obtain ⟨localTime, located, parsed⟩ := bind_eq_ok_iff.mp parsed
  have composed : t.toInstant = .ok localTime := locate_eq_ok_iff.mp located
  have fits : IsInstant localTime := by
    obtain ⟨-, fits, rfl⟩ := DateTime.toInstant_eq_ok_iff.mp composed
    exact fits
  have whole := foldlM_eq_write plain_civilItems (by decide) run civil composed
    Locale.Standard.englishTable clock.text
  refine ⟨localTime, fits, ?_, ?_⟩
  · apply String.toList_inj.mp
    rw [toList_format_isoOffset, ← ahead]
    exact whole
  · split at parsed
    · exact (Except.ok.inj parsed).symm
    · cases parsed

/-- An instant can be read in every offset that does not move it out of range, and what is read with
an offset is always the local time less the offset, without any wrap or clamp. -/
theorem isoOffset_reads_local_times (context : ReadContext) (clock : Zone.ClockOffset) :
    Layout.ofPattern "yyyy-MM-dd'T'HH:mm:ss.SSSUUUNNNz" = .ok isoOffset ∧
    (∀ n, IsInstant n →
      isoOffset.parse context (isoOffset.format (n + clock.offset) none clock.text)
        = if IsInstant (n + clock.offset) then .ok n
          else .error { cause := .instantOutOfRange, position := some 0 }) ∧
    ∀ text here, isoOffset.Meets context (.whole text) .zone here →
      here.rest = clock.text.toList → ∀ m, isoOffset.parse context text = .ok m →
        ∃ localTime, IsInstant localTime ∧ text = isoOffset.format localTime none clock.text ∧
          m = localTime - clock.offset := by
  refine ⟨ofPattern_isoOffset, ?_, ?_⟩
  · intro n instant
    exact parse_format_isoOffset context clock instant
  · intro text here met ahead m parsed
    obtain ⟨fields, chars, run, same⟩ := exists_run_to_zone met
    exact eq_format_isoOffset run (same.trans ahead) parsed

/-- The last instant, in an offset behind UTC. -/
theorem isoOffset_reads_last_instant :
    let clock : Zone.ClockOffset := ⟨true, 5, 30, by decide, by decide⟩
    let text := "2262-04-11T18:17:16.854775807-05:30"
    isoOffset.parse { window := .around 2000 } text = .ok maxNanos ∧
      ∃ localTime, IsInstant localTime ∧ text = isoOffset.format localTime none clock.text ∧
        maxNanos = localTime - clock.offset := by
  intro clock text
  have last : IsInstant maxNanos := by decide
  have written : text = isoOffset.format (maxNanos + clock.offset) none clock.text := by
    decide +kernel
  obtain ⟨-, reads, exact⟩ := isoOffset_reads_local_times { window := .around 2000 } clock
  have parsed := reads maxNanos last
  rw [if_pos (by decide), ← written] at parsed
  obtain ⟨fields, here, run, ahead, -⟩ := foldlM_civilItems { window := .around 2000 }
    (last.fourDigitYear_add clock.offset_bounds.1 clock.offset_bounds.2) written
  obtain ⟨zone, met, same⟩ := exists_meets_zone run
  exact ⟨parsed, exact text zone met (same.trans ahead) maxNanos parsed⟩

/-- Ahead of UTC, the local time of the last instant is no instant. -/
theorem isoOffset_refuses_last_instant :
    let clock : Zone.ClockOffset := ⟨false, 0, 1, by decide, by decide⟩
    isoOffset.format (maxNanos + clock.offset) none clock.text
        = "2262-04-11T23:48:16.854775807+00:01" ∧
      isoOffset.parse { window := .around 2000 } "2262-04-11T23:48:16.854775807+00:01"
        = .error { cause := .instantOutOfRange, position := some 0 } := by
  intro clock
  have written : isoOffset.format (maxNanos + clock.offset) none clock.text
      = "2262-04-11T23:48:16.854775807+00:01" := by decide +kernel
  have parsed := parse_format_isoOffset { window := .around 2000 } clock
    (show IsInstant maxNanos by decide)
  rw [if_neg (by decide), written] at parsed
  exact ⟨written, parsed⟩

end CivilTime
