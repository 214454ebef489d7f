import CivilTime.Proofs.Layout.RoundTrip
import CivilTime.Proofs.Layout.Runs

/-!
# Texts that layouts of digits accept

Numbers of fixed width and fixed texts can be read from one text only: the one that is written for
what was read. A run over items that fill different slots therefore takes off the front exactly what
is written for the fields it ends with. Where the fields give an instant, their parts are those of
the instant, so the text is the one that the layout writes for it.
-/
namespace CivilTime

/-! ### Digits -/

namespace Text

theorem digitsValue_concat (ds : List Char) (c : Char) :
    digitsValue (ds ++ [c]) = 10 * digitsValue ds + (c.toNat - '0'.toNat) := by
  rw [digitsValue, Nat.ofDigitChars_append, Nat.ofDigitChars_cons, Nat.ofDigitChars_nil]
  rfl

theorem digit_bounds {c : Char} (digit : c.isDigit = true) :
    '0'.toNat ≤ c.toNat ∧ c.toNat - '0'.toNat < 10 := by
  obtain ⟨lower, upper⟩ := Char.isDigit_iff_toNat.mp digit
  have zero : '0'.toNat = 48 := rfl
  have nine : '9'.toNat = 57 := rfl
  omega

theorem digitsValue_lt {ds : List Char} (inside : ∀ c ∈ ds, c.isDigit = true) :
    digitsValue ds < 10 ^ ds.length := by
  induction ds using List.reverseRecOn with
  | nil => decide
  | append_singleton ds c ih =>
    have value := (digit_bounds (inside c (by simp))).2
    have shorter := ih fun d member => inside d (by simp [member])
    rw [digitsValue_concat, List.length_append, List.length_singleton, Nat.pow_succ]
    omega

/-- Runs of digits of one length differ in their values. -/
theorem eq_of_digitsValue_eq {ds es : List Char} (length : ds.length = es.length)
    (left : ∀ c ∈ ds, c.isDigit = true) (right : ∀ c ∈ es, c.isDigit = true)
    (same : digitsValue ds = digitsValue es) : ds = es := by
  induction ds using List.reverseRecOn generalizing es with
  | nil => exact (List.length_eq_zero_iff.mp length.symm).symm
  | append_singleton ds c ih =>
    cases es using List.reverseRecOn with
    | nil => simp at length
    | append_singleton es e =>
      have leftDigit := digit_bounds (left c (by simp))
      have rightDigit := digit_bounds (right e (by simp))
      -- The last digit is the value modulo ten, the others are the quotient.
      rw [digitsValue_concat, digitsValue_concat] at same
      have last : c = e := Char.toNat_inj.mp (by omega)
      have others : ds = es := by
        apply ih (by simpa using length)
        · exact fun d member => left d (by simp [member])
        · exact fun d member => right d (by simp [member])
        · omega
      rw [last, others]

theorem digits_digitsValue {ds : List Char} (some : ds ≠ [])
    (inside : ∀ c ∈ ds, c.isDigit = true) : digits (digitsValue ds) ds.length = ds := by
  apply eq_of_digitsValue_eq _ (fun _ => isDigit_of_mem_digits) inside (digitsValue_digits _ _)
  exact length_digits (List.length_pos_iff.mpr some) (digitsValue_lt inside)

end Text

/-! ### Readers -/

namespace Cursor

variable {cursor after : Cursor} {count : Nat} {quantity : Quantity}

theorem rest_advance {taken : List Char} (front : taken <+: cursor.rest) :
    cursor.rest = taken ++ (cursor.advance taken.length).rest := by
  obtain ⟨rest, whole⟩ := front
  rw [advance, ← whole, List.drop_left]

theorem digits_exact {ds : List Char}
    (read : cursor.digits (.fixed count) quantity = .ok (ds, after)) :
    cursor.rest = ds ++ after.rest ∧ ds.length = count ∧ ∀ c ∈ ds, c.isDigit = true := by
  simp only [digits] at read
  split at read
  · next full =>
    cases read
    have whole := rest_advance (Text.leadingDigits_starts count cursor.rest)
    rw [full] at whole
    exact ⟨whole, full, fun _ member => List.mem_takeWhile_imp member⟩
  · cases read

/-- A number of fixed width is read from the text that is written for it. -/
theorem number_exact {found : Located Int} (positive : 0 < count) (fits : count ≤ 18)
    (read : cursor.number (.fixed count) quantity = .ok (found, after)) :
    ∃ n : Nat, found.value = n ∧ cursor.rest = Width.write (.fixed count) n ++ after.rest := by
  obtain ⟨⟨ds, next⟩, taken, read⟩ := bind_eq_ok_iff.mp read
  obtain ⟨value, valued, read⟩ := bind_eq_ok_iff.mp read
  cases read
  obtain ⟨whole, length, inside⟩ := digits_exact taken
  have bound : Text.digitsValue ds < 10 ^ 18 := by
    apply Nat.lt_of_lt_of_le (Text.digitsValue_lt inside)
    exact Nat.pow_le_pow_right (by decide) (length ▸ fits)
  have same : value = Text.digitsValue ds := by
    simp only [numberOf] at valued
    rw [Int.bmod_eq_of_le (by omega) (by omega)] at valued
    exact (Except.ok.inj valued).symm
  have some : ds ≠ [] := by
    rintro rfl
    simp only [List.length_nil] at length
    omega
  have written : Width.write (.fixed count) (Text.digitsValue ds) = ds := by
    rw [Width.write, ← length]
    exact Text.digits_digitsValue some inside
  exact ⟨_, same, by rw [written, whole]⟩

/-- So is a year above zero, which has no sign. -/
theorem year_exact {found : Located Int} {window : YearWindow}
    (read : cursor.year (.fixed 4) window = .ok (found, after)) :
    ∃ text, cursor.rest = text ++ after.rest ∧
      (0 < found.value → text = Width.write (.fixed 4) found.value.toNat) := by
  obtain ⟨⟨number, next⟩, counted, read⟩ := bind_eq_ok_iff.mp read
  obtain ⟨n, value, whole⟩ := number_exact (by decide) (by decide) counted
  by_cases negative : cursor.rest.head? = some '-'
  · simp only [if_pos negative] at whole read
    cases read
    obtain ⟨rest, signed⟩ := List.head?_eq_some_iff.mp negative
    have digits : rest = Width.write (.fixed 4) n ++ after.rest := by
      simpa [advance, signed] using whole
    refine ⟨'-' :: Width.write (.fixed 4) n, by rw [signed, digits, List.cons_append], ?_⟩
    intro positive
    simp only [value] at positive
    omega
  · simp only [if_neg negative] at whole read
    cases read
    refine ⟨Width.write (.fixed 4) n, whole, fun _ => ?_⟩
    change _ = Width.write (.fixed 4) number.value.toNat
    rw [value, Int.toNat_natCast]

theorem hour_exact {found : Located Int}
    (read : cursor.hour .from0To23 (.fixed 2) = .ok (found, after)) :
    ∃ n : Nat, found.value = n ∧ cursor.rest = Width.write (.fixed 2) n ++ after.rest := by
  obtain ⟨⟨number, next⟩, counted, read⟩ := bind_eq_ok_iff.mp read
  obtain ⟨n, value, whole⟩ := number_exact (by decide) (by decide) counted
  simp only at read
  split at read
  · next inDay =>
    cases read
    refine ⟨n, ?_, whole⟩
    have upper : number.value ≤ 23 := inDay.2
    have lower : 0 ≤ number.value := inDay.1
    change number.value % 24 = n
    omega
  · cases read

theorem literal_exact {text : String} (read : cursor.literal text = .ok after) :
    cursor.rest = text.toList ++ after.rest := by
  unfold literal at read
  split at read
  · next starts =>
    cases read
    rw [← String.length_toList]
    exact rest_advance (List.isPrefixOf_iff_prefix.mp starts)
  · cases read

end Cursor

/-! ### Runs -/

/-- The item is a fixed text or a number of the digits that its greatest value has. -/
def Item.Plain : Item → Prop
  | .year width => width = .fixed 4
  | .number field width => width = .fixed field.digits
  | .hour cycle width => cycle = .from0To23 ∧ width = .fixed 2
  | .literal _ => True
  | _ => False

instance : DecidablePred Item.Plain
  | .year _ | .number _ _ => inferInstanceAs (Decidable (_ = _))
  | .hour _ _ => inferInstanceAs (Decidable (_ ∧ _))
  | .literal _ => inferInstanceAs (Decidable True)
  | .era | .monthName _ | .weekdayName _ | .weekday | .halfOfDay | .zone =>
    inferInstanceAs (Decidable False)

namespace Fields

/-- The text is the one that is written for what the fields hold for a plain item. A year that is
not positive may have other texts. -/
def Tells (fields : Fields) (layout : Layout) (text : List Char) : Item → Prop
  | .year width =>
    ∃ read, fields.year = some read ∧ (0 < read.value → text = width.write read.value.toNat)
  | .number field width =>
    ∃ (read : Located Int) (n : Nat),
      fields.number field = some read ∧ read.value = n ∧ text = width.write n
  | .hour cycle width =>
    ∃ (read : Located Int) (n : Nat),
      fields.hour = some (cycle, read) ∧ read.value = n ∧ text = width.write n
  | .literal index => text = (layout.literal index).toList
  | _ => False

theorem Tells.of_agree {left right : Fields} {layout : Layout} {text : List Char} {item : Item}
    (told : left.Tells layout text item) (agree : ∀ slot ∈ item.slot?, Agree right left slot) :
    right.Tells layout text item := by
  cases item with
  | year width =>
    have same : right.year = left.year := agree .year rfl
    simpa only [Tells, same] using told
  | number field width =>
    have same : right.number field = left.number field := agree (.number field) rfl
    simpa only [Tells, same] using told
  | hour cycle width =>
    have same : right.hour = left.hour := agree .hour rfl
    simpa only [Tells, same] using told
  | _ => exact told

end Fields

section Run

variable {layout : Layout} {context : ReadContext} {fields after : Fields} {cursor stop : Cursor}

/-- One step changes no slot but the one that its item fills. -/
theorem readItem_keepsOthers : KeepsOthers (layout.readItem context) := by
  intro item fields cursor after stop read slot other
  cases item with
  | number field width =>
    obtain ⟨⟨found, next⟩, -, read⟩ := bind_eq_ok_iff.mp read
    cases read
    exact Fields.setNumber_agree other
  | monthName style =>
    obtain ⟨⟨found, next⟩, -, read⟩ := bind_eq_ok_iff.mp read
    cases read
    exact Fields.setNumber_agree other
  | weekday =>
    obtain ⟨next, -, read⟩ := bind_eq_ok_iff.mp read
    cases read
    exact Fields.Agree.refl fields slot
  | literal index =>
    obtain ⟨next, -, read⟩ := bind_eq_ok_iff.mp read
    cases read
    exact Fields.Agree.refl fields slot
  -- The others put what they read in one place, if anywhere.
  | _ =>
    obtain ⟨⟨found, next⟩, -, read⟩ := bind_eq_ok_iff.mp read
    cases read
    cases slot <;> first | rfl | exact absurd rfl other

/-- One step takes off the front what is written for the slot that it fills. -/
theorem readItem_exact {item : Item} (plain : item.Plain)
    (read : layout.readItem context (fields, cursor) item = .ok (after, stop)) :
    ∃ text, cursor.rest = text ++ stop.rest ∧ after.Tells layout text item := by
  cases item with
  | year width =>
    obtain rfl : width = .fixed 4 := plain
    obtain ⟨⟨found, next⟩, taken, read⟩ := bind_eq_ok_iff.mp read
    cases read
    obtain ⟨text, whole, told⟩ := Cursor.year_exact taken
    exact ⟨text, whole, found, rfl, told⟩
  | number field width =>
    obtain rfl : width = .fixed field.digits := plain
    obtain ⟨⟨found, next⟩, taken, read⟩ := bind_eq_ok_iff.mp read
    cases read
    obtain ⟨n, value, whole⟩ := Cursor.number_exact field.digits_pos field.digits_le taken
    exact ⟨_, whole, found, n, by simp [Fields.setNumber], value, rfl⟩
  | hour cycle width =>
    obtain ⟨rfl, rfl⟩ : cycle = .from0To23 ∧ width = .fixed 2 := plain
    obtain ⟨⟨found, next⟩, taken, read⟩ := bind_eq_ok_iff.mp read
    cases read
    obtain ⟨n, value, whole⟩ := Cursor.hour_exact taken
    exact ⟨_, whole, found, n, rfl, value, rfl⟩
  | literal index =>
    obtain ⟨next, taken, read⟩ := bind_eq_ok_iff.mp read
    cases read
    exact ⟨_, Cursor.literal_exact taken, rfl⟩
  | _ => exact absurd plain id

/-- A run takes off the front what is written for the fields that it ends with, as no item fills the
slot of another. -/
theorem foldlM_exact {items : List Item} (plain : ∀ item ∈ items, item.Plain)
    (distinct : (items.filterMap Item.slot?).Nodup)
    (run : items.foldlM (layout.readItem context) (fields, cursor) = .ok (after, stop))
    {write : Item → List Char}
    (written : ∀ item ∈ items, ∀ text, after.Tells layout text item → text = write item) :
    cursor.rest = items.flatMap write ++ stop.rest := by
  induction items generalizing fields cursor with
  | nil =>
    cases run
    rfl
  | cons item items ih =>
    rw [List.foldlM_cons] at run
    obtain ⟨⟨middle, next⟩, step, run⟩ := bind_eq_ok_iff.mp run
    obtain ⟨text, whole, told⟩ := readItem_exact (plain item List.mem_cons_self) step
    have later : (items.filterMap Item.slot?).Nodup :=
      distinct.sublist ((List.sublist_cons_self item items).filterMap _)
    have fresh : ∀ slot ∈ item.slot?, slot ∉ items.filterMap Item.slot? := by
      intro slot filled
      rw [List.filterMap_cons_some filled] at distinct
      exact (List.nodup_cons.mp distinct).1
    have first : text = write item := by
      apply written item List.mem_cons_self
      exact told.of_agree fun slot filled => readItem_keepsOthers.run run slot (fresh slot filled)
    have others := ih (fun item member => plain item (List.mem_cons_of_mem _ member)) later run
      fun item member => written item (List.mem_cons_of_mem _ member)
    rw [whole, others, first, List.flatMap_cons, List.append_assoc]

end Run

/-! ### From the instant back to the text -/

namespace Fields

variable {fields : Fields} {n : Int}

theorem part_eq_ok {field : NumberField} {least greatest value : Nat} (bounds : least ≤ greatest)
    (read : fields.part field least greatest = .ok value) :
    value ≤ greatest ∧ ∀ found ∈ fields.number field, found.value = value := by
  unfold part at read
  split at read
  · next none =>
    cases read
    exact ⟨bounds, by simp [none]⟩
  · next found some =>
    split at read
    · next inside =>
      cases read
      constructor
      · omega
      · intro other same
        rw [some] at same
        cases same
        omega
    · cases read

theorem dateTime_eq_ok {t : DateTime} (read : fields.dateTime = .ok t) :
    fields.yearNumber = .ok t.year ∧ fields.part .month 1 12 = .ok t.month ∧
      fields.part .day 1 (daysInMonth (isLeapYear t.year) t.month) = .ok t.day ∧
      fields.hourOfDay = .ok t.hour ∧ fields.part .minute 0 59 = .ok t.minute ∧
      fields.part .second 0 59 = .ok t.second ∧
      ∃ millis micros nanos, fields.part .millisecond 0 999 = .ok millis ∧
        fields.part .microsecond 0 999 = .ok micros ∧ fields.part .nanosecond 0 999 = .ok nanos ∧
        t.nanosecond = millis * 1000000 + micros * 1000 + nanos := by
  obtain ⟨year, yearRead, read⟩ := bind_eq_ok_iff.mp read
  obtain ⟨month, monthRead, read⟩ := bind_eq_ok_iff.mp read
  obtain ⟨day, dayRead, read⟩ := bind_eq_ok_iff.mp read
  obtain ⟨hour, hourRead, read⟩ := bind_eq_ok_iff.mp read
  obtain ⟨minute, minuteRead, read⟩ := bind_eq_ok_iff.mp read
  obtain ⟨second, secondRead, read⟩ := bind_eq_ok_iff.mp read
  obtain ⟨millis, millisRead, read⟩ := bind_eq_ok_iff.mp read
  obtain ⟨micros, microsRead, read⟩ := bind_eq_ok_iff.mp read
  obtain ⟨nanos, nanosRead, read⟩ := bind_eq_ok_iff.mp read
  cases read
  exact ⟨yearRead, monthRead, dayRead, hourRead, minuteRead, secondRead, millis, micros, nanos,
    millisRead, microsRead, nanosRead, rfl⟩

/-- Numbers that give the date and time of an instant are those of the instant. -/
theorem number_of_dateTime (read : fields.dateTime = .ok (DateTime.ofInstant n))
    {field : NumberField} {found : Located Int} (held : fields.number field = some found) :
    found.value = field.value n := by
  obtain ⟨-, month, day, -, minute, second, millis, micros, nanos, millisRead, microsRead,
    nanosRead, sum⟩ := dateTime_eq_ok read
  have civil := DateTime.isCivil_ofInstant n
  have whole := DateTime.nanosOfSecond_eq n
  have range := DateTime.subsecond_lt n
  have millisBounds := part_eq_ok (by decide) millisRead
  have microsBounds := part_eq_ok (by decide) microsRead
  have nanosBounds := part_eq_ok (by decide) nanosRead
  change nanosOfSecond n = _ at sum
  cases field with
  | month => exact (part_eq_ok (by decide) month).2 found held
  | day =>
    have value := (part_eq_ok (Nat.le_trans civil.one_le_day civil.day_le) day).2 found held
    rw [value, NumberField.value, DateTime.dayOfMonth_eq]
  | minute => exact (part_eq_ok (by decide) minute).2 found held
  | second => exact (part_eq_ok (by decide) second).2 found held
  | millisecond =>
    rw [millisBounds.2 found held, NumberField.value]
    omega
  | microsecond =>
    rw [microsBounds.2 found held, NumberField.value]
    omega
  | nanosecond =>
    rw [nanosBounds.2 found held, NumberField.value]
    omega

/-- Fields that give an instant, without an era or a label for the half of the day, tell what is
written for it. -/
theorem Tells.eq_writeItem (instant : IsInstant n)
    (read : fields.dateTime = .ok (DateTime.ofInstant n))
    (common : fields.beforeCommonEra = false) (unlabelled : fields.pm = none) {layout : Layout}
    {text : List Char} {item : Item} (plain : item.Plain) (told : fields.Tells layout text item)
    (table : Locale.Table) (zoneName : String) :
    text = layout.writeItem table zoneName n item := by
  obtain ⟨year, -, -, hour, -⟩ := dateTime_eq_ok read
  cases item with
  | year width =>
    obtain rfl : width = .fixed 4 := plain
    obtain ⟨found, held, written⟩ := told
    have value : found.value = (yearOf n).number := by
      simp only [yearNumber, held, common, Bool.false_eq_true, if_false] at year
      split at year
      · exact Except.ok.inj year
      · cases year
    have bounds := instant.yearOf_bounds
    have wide : (Width.fixed 4).AtLeast 4 := Nat.le_refl 4
    rw [writeItem_year instant.fourDigitYear layout table zoneName wide, ← value]
    exact written (by omega)
  | number field width =>
    obtain ⟨found, m, held, value, rfl⟩ := told
    have same := number_of_dateTime read held
    have : m = field.value n := by omega
    rw [this]
    rfl
  | hour cycle width =>
    obtain ⟨rfl, rfl⟩ : cycle = .from0To23 ∧ width = .fixed 2 := plain
    obtain ⟨found, m, held, value, rfl⟩ := told
    have same : m = hourOf n := by
      have unmoved : ((none : Option Bool) == some true) = false := rfl
      simp only [hourOfDay, held, unlabelled, unmoved, Bool.false_and, Bool.false_eq_true, if_false,
        value] at hour
      split at hour
      · exact Except.ok.inj hour
      · cases hour
    have small : hourOf n < 24 := Nat.lt_succ_of_le (DateTime.isCivil_ofInstant n).hour_le
    rw [same]
    change _ = Width.write (.fixed 2) (hourOf n % 24)
    rw [Nat.mod_eq_of_lt small]
  | literal index => exact told
  | _ => exact absurd plain id

end Fields

/-! ### Layouts of plain items -/

namespace Item.Plain

variable {item : Item} {n : Int}

theorem slot (plain : item.Plain) :
    item.slot? ≠ some .era ∧ item.slot? ≠ some .halfOfDay ∧ item.slot? ≠ some .zone := by
  cases item <;> first | exact absurd plain id | simp [Item.slot?]

theorem width (plain : item.Plain) : ∀ width ∈ item.width?, width = .fixed item.digits := by
  intro width given
  cases item with
  | year other =>
    cases given
    exact plain
  | number field other =>
    cases given
    exact plain
  | hour cycle other =>
    cases given
    exact plain.2
  | literal index => cases given
  | _ => exact absurd plain id

theorem wide (plain : item.Plain) : item.Wide := by
  intro width given
  rw [plain.width width given]
  exact Nat.le_refl item.digits

theorem endsBefore (plain : item.Plain) (rest : List Char) : item.EndsBefore rest := by
  constructor
  · intro greedy
    cases plain.width .greedy greedy
  · intro name
    cases item <;> first | exact absurd plain id | cases name

/-- What a plain item writes takes neither a name nor a zone. -/
theorem writeItem_eq (plain : item.Plain) (layout : Layout) (table other : Locale.Table)
    (zoneName otherName : String) :
    layout.writeItem table zoneName n item = layout.writeItem other otherName n item := by
  cases item <;> first | exact absurd plain id | rfl

theorem not_isName (plain : item.Plain) : item.isName = false := by
  cases item <;> first | exact absurd plain id | rfl

end Item.Plain

section PlainItems

variable {items : List Item} {layout : Layout} {context : ReadContext} {fields : Fields}
  {cursor stop : Cursor} {n : Int}

theorem not_mem_plain_slots (plain : ∀ item ∈ items, item.Plain) {slot : Slot}
    (unfilled : ∀ item : Item, item.Plain → item.slot? ≠ some slot) :
    slot ∉ items.filterMap Item.slot? := by
  intro filled
  obtain ⟨item, member, same⟩ := List.mem_filterMap.mp filled
  exact unfilled item (plain item member) same

/-- A run over plain items takes off the front what is written for the instant that its fields
compose. -/
theorem foldlM_eq_write (plain : ∀ item ∈ items, item.Plain)
    (distinct : (items.filterMap Item.slot?).Nodup)
    (run : items.foldlM (layout.readItem context) ({}, cursor) = .ok (fields, stop)) {t : DateTime}
    (read : fields.dateTime = .ok t) (composed : t.toInstant = .ok n) (table : Locale.Table)
    (zoneName : String) :
    cursor.rest = items.flatMap (layout.writeItem table zoneName n) ++ stop.rest := by
  have common : fields.beforeCommonEra = false :=
    readItem_keepsOthers.run run .era (not_mem_plain_slots plain fun _ plain => plain.slot.1)
  have unlabelled : fields.pm = none :=
    readItem_keepsOthers.run run .halfOfDay (not_mem_plain_slots plain fun _ plain => plain.slot.2.1)
  obtain ⟨civil, instant, rfl⟩ := DateTime.toInstant_eq_ok_iff.mp composed
  rw [← civil.ofInstant_count] at read
  apply foldlM_exact plain distinct run
  intro item member text told
  exact told.eq_writeItem instant read common unlabelled (plain item member) table zoneName

/-- Plain items read what they write back in any context, and before any text. -/
theorem foldlM_write_plain (plain : ∀ item ∈ items, item.Plain) (fourDigits : FourDigitYear n)
    {done : List Item} (hold : fields.Hold n done) (table : Locale.Table) (zoneName : String)
    (position : Nat) (rest : List Char) :
    ∃ (after : Fields) (past : Nat),
      items.foldlM (layout.readItem context)
          (fields, ⟨position, items.flatMap (layout.writeItem table zoneName n) ++ rest⟩)
        = .ok (after, ⟨past, rest⟩) ∧
      after.Hold n (done ++ items) := by
  induction items generalizing fields done position with
  | nil => exact ⟨fields, position, rfl, by simpa using hold⟩
  | cons item items ih =>
    have first := plain item List.mem_cons_self
    have unnamed : item.isName = true → context.names.Legible := fun name =>
      absurd name (by simp [first.not_isName])
    obtain ⟨next, read, held⟩ := readItem_writeItem fourDigits unnamed first.wide
      (first.endsBefore (items.flatMap (layout.writeItem table zoneName n) ++ rest)) hold position
    obtain ⟨after, past, run, kept⟩ :=
      ih (fun item member => plain item (List.mem_cons_of_mem _ member)) held _
    refine ⟨after, past, ?_, by simpa using kept⟩
    rw [List.foldlM_cons, List.flatMap_cons, List.append_assoc,
      first.writeItem_eq layout table context.names zoneName "Z", read]
    exact run

end PlainItems

/-- The items are plain and none overwrites what another one reads. -/
structure Layout.Plain (layout : Layout) : Prop where
  items : ∀ item ∈ layout.items, item.Plain
  distinct : (layout.items.filterMap Item.slot?).Nodup

instance (layout : Layout) : Decidable layout.Plain :=
  decidable_of_iff ((∀ item ∈ layout.items, item.Plain) ∧ (layout.items.filterMap Item.slot?).Nodup)
    ⟨fun ⟨items, distinct⟩ => ⟨items, distinct⟩, fun plain => ⟨plain.items, plain.distinct⟩⟩

namespace Layout.Plain

variable {layout : Layout} {n : Int}

theorem format_eq (plain : layout.Plain) (table other : Option Locale.Table)
    (zoneName otherName : String) :
    layout.format n table zoneName = layout.format n other otherName := by
  apply Layout.format_congr
  intro item member
  exact (plain.items item member).writeItem_eq layout _ _ _ _

/-- A plain layout reads an instant from one text only, the one that it writes for it. -/
theorem eq_format (plain : layout.Plain) {context : ReadContext} {text : String}
    (parsed : layout.parse context text = .ok n) (table : Option Locale.Table) (zoneName : String) :
    IsInstant n ∧ text = layout.format n table zoneName := by
  rw [parse_eq_read] at parsed
  obtain ⟨⟨fields, stop⟩, run, parsed⟩ := bind_eq_ok_iff.mp parsed
  simp only at parsed
  split at parsed
  · next finished =>
    have zoneless : fields.zone = none :=
      readItem_keepsOthers.run run .zone (not_mem_plain_slots plain.items fun _ plain => plain.slot.2.2)
    obtain ⟨t, read, parsed⟩ := bind_eq_ok_iff.mp parsed
    obtain ⟨localTime, located, parsed⟩ := bind_eq_ok_iff.mp parsed
    rw [zoneless] at parsed
    cases parsed
    have composed : t.toInstant = .ok n := locate_eq_ok_iff.mp located
    have written := foldlM_eq_write plain.items plain.distinct run read composed
      (table.getD Locale.Standard.englishTable) zoneName
    rw [List.isEmpty_iff.mp finished, List.append_nil] at written
    obtain ⟨civil, instant, rfl⟩ := DateTime.toInstant_eq_ok_iff.mp composed
    refine ⟨instant, ?_⟩
    rw [← String.ofList_toList (s := text)]
    exact congrArg String.ofList written
  · cases parsed

theorem parse_format_shown (plain : layout.Plain) {context : ReadContext}
    (legible : context.names.Legible) (instant : IsInstant n) (year : Shows layout.items .year)
    (table : Option Locale.Table) (zoneName : String) :
    ∃ position, layout.parse context (layout.format n table zoneName)
      = locate position (DateTime.shown layout.items n).toInstant := by
  rw [plain.format_eq table context.locale zoneName "Z"]
  apply Layout.parse_format_shown legible instant year
  · exact fun item member => (plain.items item member).wide
  · exact separated_of_endsBefore fun item member => (plain.items item member).endsBefore

end Layout.Plain
end CivilTime
