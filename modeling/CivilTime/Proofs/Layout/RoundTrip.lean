import CivilTime.Proofs.Layout.ByteReaders
import CivilTime.Proofs.Layout.Shown

/-!
# Reading back what a layout wrote

One step of the reader takes one item's text off the front and keeps the invariant on the fields, so
a run over all items consumes the text and leaves fields that hold what the layout shows. A layout
that shows every part of the date and the time gives back the instant.
-/
namespace CivilTime

theorem FourDigitYear.isCommonEra {n : Int} (h : FourDigitYear n) :
    isCommonEra (yearOf n).number = true := by
  have lower := h.least
  simp only [CivilTime.isCommonEra, decide_eq_true_eq]
  omega

/-- Counted within its era or not, the year has the same number. -/
theorem FourDigitYear.yearWithinEra {n : Int} (h : FourDigitYear n) (layout : Layout) :
    (if layout.hasEra then yearOfEra (yearOf n).number else (yearOf n).number)
      = (yearOf n).number := by
  simp [yearOfEra, h.isCommonEra]

theorem writeItem_year {n : Int} (h : FourDigitYear n) (layout : Layout) (table : Locale.Table)
    (zoneName : String) {width : Width} (wide : width.AtLeast 4) :
    layout.writeItem table zoneName n (.year width) = width.write (yearOf n).number.toNat := by
  have lower := h.least
  simp only [Layout.writeItem, h.yearWithinEra]
  exact writeYear_of_pos (by omega) wide

theorem read?_utc (rest : List Char) :
    Zone.OffsetLiteral.read? ("Z".toList ++ rest) = some ⟨0, 1⟩ := by
  simp [Zone.OffsetLiteral.read?]

section Texts

variable {layout : Layout} {m n : Int} {table other : Option Locale.Table}
  {zoneName otherName : String}

theorem Layout.toList_format : (layout.format n table zoneName).toList
    = layout.write (table.getD Locale.Standard.englishTable) zoneName n :=
  String.toList_ofList

/-- A text depends on nothing but what the items of the layout write. -/
theorem Layout.format_congr
    (same : ∀ item ∈ layout.items,
      layout.writeItem (table.getD Locale.Standard.englishTable) zoneName m item
        = layout.writeItem (other.getD Locale.Standard.englishTable) otherName n item) :
    layout.format m table zoneName = layout.format n other otherName :=
  congrArg String.ofList (List.flatMap_congr same)

end Texts

/-- What each item writes ends where the text of the items after it begins. -/
def Separated (write : Item → List Char) : List Item → Prop
  | [] => True
  | item :: items => item.EndsBefore (items.flatMap write) ∧ Separated write items

instance (write : Item → List Char) : (items : List Item) → Decidable (Separated write items)
  | [] => inferInstanceAs (Decidable True)
  | _ :: items =>
    have := instDecidableSeparated write items
    inferInstanceAs (Decidable (_ ∧ Separated write items))

theorem Separated.congr {left right : Item → List Char} {items : List Item}
    (same : ∀ item ∈ items, left item = right item) (separated : Separated left items) :
    Separated right items := by
  induction items with
  | nil => exact trivial
  | cons item items ih =>
    have later : ∀ item ∈ items, left item = right item := fun item member =>
      same item (List.mem_cons_of_mem _ member)
    obtain ⟨ends, separated⟩ := separated
    refine ⟨?_, ih later separated⟩
    rwa [← List.flatMap_congr later]

theorem separated_of_endsBefore {write : Item → List Char} {items : List Item}
    (ends : ∀ item ∈ items, ∀ rest, item.EndsBefore rest) : Separated write items := by
  induction items with
  | nil => exact trivial
  | cons item items ih =>
    exact ⟨ends item List.mem_cons_self _, ih fun item member =>
      ends item (List.mem_cons_of_mem _ member)⟩

section Run

variable {layout : Layout} {context : ReadContext} {n : Int}

/-- One step: the item's text is read, and what the item shows joins the fields. Only names need a
locale that can read what it writes. -/
theorem readItem_writeItem (fourDigits : FourDigitYear n) {item : Item}
    (legible : item.isName = true → context.names.Legible) (wide : item.Wide) {rest : List Char}
    (ends : item.EndsBefore rest) {fields : Fields} {done : List Item} (hold : fields.Hold n done)
    (position : Nat) :
    ∃ after : Fields,
      layout.readItem context
          (fields, ⟨position, layout.writeItem context.names "Z" n item ++ rest⟩) item
        = .ok (after, ⟨position + (layout.writeItem context.names "Z" n item).length, rest⟩) ∧
      after.Hold n (done ++ [item]) := by
  -- Each kind of item has its reader, which takes off what was written, and its setter.
  cases item with
  | era =>
    have common := fourDigits.isCommonEra
    have read := Cursor.name_write ((legible rfl).era true) (ends.2 rfl) position .era
    refine ⟨{ fields with beforeCommonEra := false }, ?_, hold.setEra⟩
    simp only [Layout.readItem, Layout.writeItem, common, read, bind, Except.bind, pure, Except.pure]
    rfl
  | year width =>
    obtain ⟨least, greatest⟩ := fourDigits
    have lower : 1000 ≤ (yearOf n).number.toNat := by omega
    have upper : (yearOf n).number.toNat < 10 ^ 4 := by omega
    have room : width.AtLeast 4 := wide width rfl
    have next (greedy : width = .greedy) := ends.1 (congrArg some greedy)
    have read := Cursor.year_write lower upper room next context.window position
    refine ⟨_, ?_, hold.setYear width ⟨(yearOf n).number.toNat, position⟩ (by simp; omega)⟩
    simp only [Layout.readItem, writeItem_year ⟨least, greatest⟩ layout _ _ room, read, bind,
      Except.bind, pure, Except.pure]
  | number field width =>
    have small := field.value_lt n
    have room : width.AtLeast field.digits := wide width rfl
    have next (greedy : width = .greedy) := ends.1 (congrArg some greedy)
    have read := Cursor.number_write field.digits_pos small field.digits_le room next position
      field.quantity
    refine ⟨_, ?_, hold.setNumber rfl ⟨field.value n, position⟩ rfl⟩
    simp only [Layout.readItem, Layout.writeItem, read, bind, Except.bind, pure, Except.pure]
  | hour cycle width =>
    have room : width.AtLeast 2 := wide width rfl
    have next (greedy : width = .greedy) := ends.1 (congrArg some greedy)
    have read := Cursor.hour_write cycle (hourOf n) room next position
    refine ⟨_, ?_, hold.setHour cycle width ⟨(hourOf n % cycle.length : Nat), position⟩ rfl⟩
    simp only [Layout.readItem, Layout.writeItem, read, bind, Except.bind, pure, Except.pure]
  | monthName style =>
    have civil := DateTime.isCivil_ofInstant n
    have reads := (legible rfl).month (monthOf n (yearOf n)) style civil.one_le_month civil.month_le
    have read := Cursor.name_write reads (ends.2 rfl) position .monthName
    refine ⟨_, ?_, hold.setNumber rfl ⟨monthOf n (yearOf n), position⟩ rfl⟩
    simp only [Layout.readItem, Layout.writeItem, read, bind, Except.bind, pure, Except.pure]
  | weekdayName style =>
    obtain ⟨lower, upper⟩ := DateTime.weekdayOf_range n
    have reads := (legible rfl).weekday (weekdayOf n) style lower upper
    have read := Cursor.name_write reads (ends.2 rfl) position .weekdayName
    refine ⟨fields, ?_, hold.skip rfl⟩
    simp only [Layout.readItem, Layout.writeItem, read, bind, Except.bind, pure, Except.pure]
  | weekday =>
    obtain ⟨lower, upper⟩ := DateTime.weekdayOf_range n
    have read := Cursor.weekday_write lower upper position rest
    refine ⟨fields, ?_, hold.skip rfl⟩
    simp only [Layout.readItem, Layout.writeItem, read, bind, Except.bind, pure, Except.pure]
  | halfOfDay =>
    have reads := (legible rfl).halfOfDay (12 ≤ hourOf n)
    have read := Cursor.name_write reads (ends.2 rfl) position .halfOfDay
    refine ⟨_, ?_, hold.setHalfOfDay⟩
    simp only [Layout.readItem, Layout.writeItem, read, bind, Except.bind, pure, Except.pure]
  | zone =>
    have read : Cursor.zone ⟨position, "Z".toList ++ rest⟩ context
        = .ok (⟨.offset 0, position⟩, ⟨position + "Z".toList.length, rest⟩) := by
      simp only [Cursor.zone, read?_utc]
      rfl
    refine ⟨_, ?_, hold.setZone ⟨.offset 0, position⟩ rfl⟩
    simp only [Layout.readItem, Layout.writeItem, read, bind, Except.bind, pure, Except.pure]
  | literal index =>
    have read := Cursor.literal_write (layout.literal index) position rest
    refine ⟨fields, ?_, hold.skip rfl⟩
    simp only [Layout.readItem, Layout.writeItem, read, bind, Except.bind, pure, Except.pure]

/-- Reading takes the text of the item off the front where the text goes on behind it, and what the
item shows joins the fields. -/
def ReadsBack (layout : Layout) (context : ReadContext) (n : Int) (item : Item) : Prop :=
  ∀ ⦃rest : List Char⦄, item.EndsBefore rest →
    ∀ ⦃fields : Fields⦄ ⦃done : List Item⦄, fields.Hold n done → ∀ position : Nat,
      ∃ after : Fields,
        layout.readItem context
            (fields, ⟨position, layout.writeItem context.names "Z" n item ++ rest⟩) item
          = .ok (after, ⟨position + (layout.writeItem context.names "Z" n item).length, rest⟩) ∧
        after.Hold n (done ++ [item])

/-- A run over items that read back consumes the text and keeps the invariant. -/
theorem foldlM_readsBack {items : List Item} (back : ∀ item ∈ items, ReadsBack layout context n item)
    (separated : Separated (layout.writeItem context.names "Z" n) items) {fields : Fields}
    {done : List Item} (hold : fields.Hold n done) (position : Nat) :
    ∃ (after : Fields) (stop : Nat),
      items.foldlM (layout.readItem context)
          (fields, ⟨position, items.flatMap (layout.writeItem context.names "Z" n)⟩)
        = .ok (after, ⟨stop, []⟩) ∧
      after.Hold n (done ++ items) := by
  -- Each step carries the invariant; the items already read move over to `done`.
  induction items generalizing fields done position with
  | nil => exact ⟨fields, position, rfl, by simpa using hold⟩
  | cons item items ih =>
    obtain ⟨ends, separated⟩ := separated
    obtain ⟨next, read, held⟩ := back item List.mem_cons_self ends hold position
    obtain ⟨after, stop, run, kept⟩ :=
      ih (fun item member => back item (List.mem_cons_of_mem _ member)) separated held _
    refine ⟨after, stop, ?_, by simpa using kept⟩
    rw [List.foldlM_cons, List.flatMap_cons, read]
    exact run

theorem readsBack_of_wide (instant : IsInstant n) (legible : context.names.Legible) {item : Item}
    (wide : item.Wide) : ReadsBack layout context n item :=
  fun _ ends _ _ hold position =>
    readItem_writeItem instant.fourDigitYear (fun _ => legible) wide ends hold position

end Run

/-! ### Back to the instant -/

theorem Fields.Hold.instant_eq {fields : Fields} {n : Int} {items : List Item}
    (h : fields.Hold n items) (instant : IsInstant n) (complete : Complete items) (start : Nat) :
    fields.instant start = .ok n := by
  obtain ⟨position, same⟩ := h.instant_shown instant complete.year start
  rw [same, DateTime.shown_of_complete complete, DateTime.toInstant_ofInstant instant]
  rfl

/-- The locale is a standard one, or there is none. -/
def ReadContext.Standard (context : ReadContext) : Prop :=
  ∀ table ∈ context.locale, table.names ∈ Locale.Standard.all.map (·.2)

theorem ReadContext.Standard.legible {context : ReadContext} (h : context.Standard) :
    context.names.Legible := by
  have standard : context.names.names ∈ Locale.Standard.all.map (·.2) := by
    unfold ReadContext.names
    cases given : context.locale with
    | none => exact List.mem_cons_self
    | some table => exact h table given
  obtain ⟨locale, member, same⟩ := List.mem_map.mp standard
  exact (same ▸ Locale.Standard.delimited locale member).legible

/-- What is read from a text that the layout wrote is what the fields give at the end of the run. -/
theorem Layout.parse_format_of_run {layout : Layout} {context : ReadContext} {n : Int}
    {fields : Fields} {stop : Nat}
    (run : layout.items.foldlM (layout.readItem context)
        ({}, ⟨0, layout.items.flatMap (layout.writeItem context.names "Z" n)⟩)
      = .ok (fields, ⟨stop, []⟩)) :
    layout.parse context (layout.format n context.locale "Z") = fields.instant 0 := by
  have text : (layout.format n context.locale "Z").toList
      = layout.items.flatMap (layout.writeItem context.names "Z" n) := toList_format
  rw [parse_eq_read, Layout.read, text, run]
  rfl

/-- Parsing what was formatted gives back what the layout shows, as long as its fields end where the
text goes on. -/
theorem Layout.parse_format_shown {layout : Layout} {context : ReadContext} {n : Int}
    (legible : context.names.Legible) (instant : IsInstant n) (year : Shows layout.items .year)
    (wide : ∀ item ∈ layout.items, item.Wide)
    (separated : Separated (layout.writeItem context.names "Z" n) layout.items) :
    ∃ position, layout.parse context (layout.format n context.locale "Z")
      = locate position (DateTime.shown layout.items n).toInstant := by
  have back : ∀ item ∈ layout.items, ReadsBack layout context n item :=
    fun item member => readsBack_of_wide instant legible (wide item member)
  obtain ⟨fields, stop, run, hold⟩ := foldlM_readsBack back separated (Fields.Hold.start n) 0
  rw [Layout.parse_format_of_run run]
  exact hold.instant_shown instant year 0

/-- Items that read back and show all of the instant restore it. -/
theorem Layout.parse_format_of_readsBack {layout : Layout} {context : ReadContext} {n : Int}
    (back : ∀ item ∈ layout.items, ReadsBack layout context n item)
    (separated : Separated (layout.writeItem context.names "Z" n) layout.items)
    (instant : IsInstant n) (complete : Complete layout.items) :
    layout.parse context (layout.format n context.locale "Z") = .ok n := by
  obtain ⟨fields, stop, run, hold⟩ := foldlM_readsBack back separated (Fields.Hold.start n) 0
  rw [Layout.parse_format_of_run run]
  exact hold.instant_eq instant complete 0

/-- Formatting and then parsing restores the instant, for every layout that shows all of it and whose
fields end where the text goes on. -/
theorem parse_format (layout : Layout) (context : ReadContext) (n : Int)
    (standard : context.Standard) (instant : IsInstant n) (complete : Complete layout.items)
    (wide : ∀ item ∈ layout.items, item.Wide)
    (separated : Separated (layout.writeItem context.names "Z" n) layout.items) :
    layout.parse context (layout.format n context.locale "Z") = .ok n := by
  have back : ∀ item ∈ layout.items, ReadsBack layout context n item :=
    fun item member => readsBack_of_wide instant standard.legible (wide item member)
  exact Layout.parse_format_of_readsBack back separated instant complete

/-- A layout in words, with hours of half a day and numbers of no fixed width. -/
def wordyLayout : Layout where
  items :=
    [.weekdayName .long, .literal 0, .number .day .greedy, .literal 0, .monthName .long, .literal 0,
     .year .greedy, .literal 0, .era, .literal 0, .hour .from1To12 .greedy, .literal 1,
     .number .minute .greedy, .literal 1, .number .second .greedy, .literal 2,
     .number .millisecond (.fixed 3), .number .microsecond (.fixed 3),
     .number .nanosecond (.fixed 3), .literal 0, .halfOfDay, .literal 0, .zone]
  literals := [" ", ":", "."]

/-- The first instant, on a day that begins before the range of instants. -/
theorem parse_format_first_instant :
    wordyLayout.parse
        { locale := some ⟨"fr", Locale.Standard.french, []⟩, window := .around 2000 }
        (wordyLayout.format (minNanos + 1) (some ⟨"fr", Locale.Standard.french, []⟩) "Z")
      = .ok (minNanos + 1) := by
  apply parse_format wordyLayout
    { locale := some ⟨"fr", Locale.Standard.french, []⟩, window := .around 2000 }
  · intro table given
    rw [← Option.some.inj given]
    simp [Locale.Standard.all]
  · decide
  · exact ⟨by decide, by intro field; cases field <;> decide, .from1To12, by decide,
      .inr (by decide)⟩
  · decide
  · decide +kernel
end CivilTime
