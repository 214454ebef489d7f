import CivilTime.Instant
import CivilTime.Proofs.Calendar.Order
import CivilTime.Proofs.Layout.StandardLayouts
import CivilTime.Proofs.Text.Order

/-!
# Canonical texts of instants

What a plain item writes has one length for all instants, and is in the order of the numbers that it
shows. So texts of a layout of plain items are in the order of these numbers, read from the front,
and where the layout goes from the year down to the nanosecond this is the order of the instants.
The three ISO layouts differ in length, so the length of a text tells the only layout that can have
written it.
-/
namespace CivilTime

namespace Text

/-! ### Digits in order -/

theorem digits_eq_iff {a b width : Nat} : digits a width = digits b width ↔ a = b := by
  constructor
  · intro same
    rw [← digitsValue_digits a width, same, digitsValue_digits]
  · rintro rfl
    rfl

theorem lt_iff_digitsValue_lt {ds es : List Char} (length : ds.length = es.length)
    (left : ∀ c ∈ ds, c.isDigit = true) (right : ∀ c ∈ es, c.isDigit = true) :
    ds < es ↔ digitsValue ds < digitsValue es := by
  induction ds using List.reverseRecOn generalizing es with
  | nil =>
    obtain rfl := List.length_eq_zero_iff.mp length.symm
    simp
  | append_singleton ds c ih =>
    cases es using List.reverseRecOn with
    | nil => simp at length
    | append_singleton es e =>
      have others : ds.length = es.length := by simpa using length
      have leftRest : ∀ d ∈ ds, d.isDigit = true := fun d member => left d (by simp [member])
      have rightRest : ∀ d ∈ es, d.isDigit = true := fun d member => right d (by simp [member])
      have leftDigit := digit_bounds (left c (by simp))
      have rightDigit := digit_bounds (right e (by simp))
      have last : c < e ↔ c.toNat < e.toNat := Iff.rfl
      have same : ds = es ↔ digitsValue ds = digitsValue es :=
        ⟨congrArg digitsValue, eq_of_digitsValue_eq others leftRest rightRest⟩
      -- The last digit counts only where the numbers in front of it are the same.
      rw [append_lt_append_iff others, ih others leftRest rightRest, same, digitsValue_concat,
        digitsValue_concat, List.cons_lt_cons_iff, last]
      simp only [List.not_lt_nil, and_false, or_false]
      omega

theorem digits_lt_digits_iff {a b width : Nat} (positive : 0 < width) (left : a < 10 ^ width)
    (right : b < 10 ^ width) : digits a width < digits b width ↔ a < b := by
  have length := (length_digits positive left).trans (length_digits positive right).symm
  rw [lt_iff_digitsValue_lt length (fun _ => isDigit_of_mem_digits) (fun _ => isDigit_of_mem_digits),
    digitsValue_digits, digitsValue_digits]

end Text

/-! ### Plain items -/

namespace Item

/-- The number that a plain item shows of an instant, 0 for a fixed text. -/
def shown (n : Int) : Item → Nat
  | .year _ => (yearOf n).number.toNat
  | .number field _ => field.value n
  | .hour _ _ => hourOf n
  | _ => 0

/-- The number of characters that a plain item writes. -/
def textLength (layout : Layout) : Item → Nat
  | .literal index => (layout.literal index).length
  | item => item.digits

namespace Plain

variable {item : Item} {m n : Int}

variable (layout : Layout) (table : Locale.Table) (zoneName : String)

/-- A plain item is a fixed text, or it writes as many digits for each instant. -/
theorem writeItem_shown (plain : item.Plain) :
    (∃ index, item = .literal index) ∨
      item.textLength layout = item.digits ∧ 0 < item.digits ∧
        ∀ n, IsInstant n →
          layout.writeItem table zoneName n item = Text.digits (item.shown n) item.digits ∧
            item.shown n < 10 ^ item.digits := by
  cases item with
  | year width =>
    obtain rfl : width = .fixed 4 := plain
    refine .inr ⟨rfl, by decide, fun n instant => ?_⟩
    have bounds := instant.yearOf_bounds
    refine ⟨writeItem_year instant.fourDigitYear layout table zoneName (Nat.le_refl 4), ?_⟩
    simp only [shown, digits]
    omega
  | number field width =>
    obtain rfl : width = .fixed field.digits := plain
    exact .inr ⟨rfl, field.digits_pos, fun n _ => ⟨rfl, field.value_lt n⟩⟩
  | hour cycle width =>
    obtain ⟨rfl, rfl⟩ : cycle = .from0To23 ∧ width = .fixed 2 := plain
    refine .inr ⟨rfl, by decide, fun n _ => ?_⟩
    have small : hourOf n ≤ 23 := (DateTime.isCivil_ofInstant n).hour_le
    refine ⟨?_, Nat.lt_of_le_of_lt small (by decide)⟩
    -- The cycle from 0 to 23 shows the hour of the day as it is.
    change Text.digits (hourOf n % 24) 2 = Text.digits (hourOf n) 2
    rw [Nat.mod_eq_of_lt (Nat.lt_succ_of_le small)]
  | literal index => exact .inl ⟨index, rfl⟩
  | _ => exact absurd plain id

theorem length_writeItem (plain : item.Plain) (instant : IsInstant n) :
    (layout.writeItem table zoneName n item).length = item.textLength layout := by
  rcases plain.writeItem_shown layout table zoneName with ⟨index, rfl⟩ | ⟨length, positive, written⟩
  · exact String.length_toList
  · obtain ⟨text, small⟩ := written n instant
    rw [text, length, Text.length_digits positive small]

/-- What the item writes is in the order of what it shows, and tells what it shows. -/
theorem writeItem_order (plain : item.Plain) (first : IsInstant m) (second : IsInstant n) :
    (layout.writeItem table zoneName m item < layout.writeItem table zoneName n item ↔
      item.shown m < item.shown n) ∧
    (layout.writeItem table zoneName m item = layout.writeItem table zoneName n item ↔
      item.shown m = item.shown n) := by
  rcases plain.writeItem_shown layout table zoneName with ⟨index, rfl⟩ | ⟨-, positive, written⟩
  -- A fixed text is the same for both.
  · exact ⟨iff_of_false (List.lt_irrefl _) (Nat.lt_irrefl 0), iff_of_true rfl rfl⟩
  · obtain ⟨text, small⟩ := written m first
    obtain ⟨text', small'⟩ := written n second
    rw [text, text']
    exact ⟨Text.digits_lt_digits_iff positive small small', Text.digits_eq_iff⟩

end Plain
end Item

/-! ### Layouts of plain items -/

namespace Layout

/-- The fixed texts of the layout are of one byte a character. -/
def AsciiLiterals (layout : Layout) : Prop := ∀ text ∈ layout.literals, Text.IsAscii text.toList

instance (layout : Layout) : Decidable layout.AsciiLiterals :=
  List.decidableBAll (fun text : String => Text.IsAscii text.toList) layout.literals

/-- The number of characters that a plain layout writes. -/
def textLength (layout : Layout) : Nat := (layout.items.map (Item.textLength layout)).sum

theorem AsciiLiterals.literal {layout : Layout} (ascii : layout.AsciiLiterals) (index : Nat) :
    Text.IsAscii (layout.literal index).toList := by
  unfold Layout.literal
  cases found : layout.literals[index]? with
  | none => exact nofun
  | some text => exact ascii text (List.mem_of_getElem? found)

namespace Plain

variable {layout : Layout} {m n : Int} (table : Locale.Table) (zoneName : String)

theorem length_write (plain : layout.Plain) (instant : IsInstant n) :
    (layout.write table zoneName n).length = layout.textLength := by
  rw [write, List.length_flatMap, textLength]
  congr 1
  apply List.map_congr_left
  exact fun item member => (plain.items item member).length_writeItem _ _ _ instant

/-- Texts of a plain layout are in the order of the numbers that its items show. -/
theorem write_lt_iff (plain : layout.Plain) (first : IsInstant m) (second : IsInstant n) :
    layout.write table zoneName m < layout.write table zoneName n ↔
      layout.items.map (Item.shown m) < layout.items.map (Item.shown n) := by
  apply Text.flatMap_lt_flatMap_iff
  · intro item member
    have plain := plain.items item member
    rw [plain.length_writeItem _ _ _ first, plain.length_writeItem _ _ _ second]
  · exact fun item member => ((plain.items item member).writeItem_order _ _ _ first second).1
  · exact fun item member => ((plain.items item member).writeItem_order _ _ _ first second).2

theorem isAscii_write (plain : layout.Plain) (ascii : layout.AsciiLiterals)
    (instant : IsInstant n) : Text.IsAscii (layout.write table zoneName n) := by
  intro c member
  obtain ⟨item, listed, member⟩ := List.mem_flatMap.mp member
  rcases (plain.items item listed).writeItem_shown layout table zoneName with
    ⟨index, rfl⟩ | ⟨-, -, written⟩
  · exact ascii.literal index c member
  · rw [(written n instant).1] at member
    exact Text.isAscii_digits _ _ c member

end Plain
end Layout

/-! ### ISO layouts -/

namespace StandardLayout

variable {standard : StandardLayout} {unit : TimeUnit} {m n : Int}

/-- The ISO layouts, the most precise one first. -/
def isoLayouts : List StandardLayout := [isoNanos, isoMicros, isoMillis]

theorem toList_format (instant : IsInstant n) :
    (standard.format n).toList
      = standard.layout.write Locale.Standard.englishTable standard.zoneName n := by
  rw [format, if_neg (Int.ne_of_gt instant.1)]
  exact Layout.toList_format

theorem isAscii_format (precise : standard.precision? = some unit) (instant : IsInstant n) :
    Text.IsAscii (standard.format n).toList := by
  have ascii : standard.layout.AsciiLiterals := by
    cases standard <;> decide
  rw [toList_format instant]
  exact (plain precise).isAscii_write _ _ ascii instant

theorem length_bytes_format (precise : standard.precision? = some unit) (instant : IsInstant n) :
    (Text.bytes (standard.format n)).length = standard.layout.textLength := by
  rw [(isAscii_format precise instant).bytes_eq, List.length_map, toList_format instant]
  exact (plain precise).length_write _ _ instant

theorem byteLength_format (precise : standard.precision? = some unit) (instant : IsInstant n) :
    Text.byteLength (standard.format n).toList = standard.layout.textLength := by
  rw [(isAscii_format precise instant).byteLength_eq, toList_format instant]
  exact (plain precise).length_write _ _ instant

/-- The items go from the year down to the nanosecond, with fixed texts in between. -/
theorem shown_isoNanos_lt_iff (first : IsInstant m) (second : IsInstant n) :
    isoNanos.layout.items.map (Item.shown m) < isoNanos.layout.items.map (Item.shown n) ↔
      m < n := by
  have bounds := first.yearOf_bounds
  have bounds' := second.yearOf_bounds
  have year : (yearOf m).number < (yearOf n).number ↔
      (yearOf m).number.toNat < (yearOf n).number.toNat := by omega
  have sameYear : (yearOf m).number = (yearOf n).number ↔
      (yearOf m).number.toNat = (yearOf n).number.toNat := by omega
  rw [lt_iff_parts, year, sameYear]
  -- A fixed text shows the same for both and so decides nothing.
  simp only [layout, iso, dateItems, timeItems, fractionItems, List.map_cons, List.map_nil,
    List.cons_append, List.nil_append, Item.shown, NumberField.value, List.cons_lt_cons_iff,
    Nat.lt_irrefl, List.not_lt_nil, false_or, true_and, and_false, or_false]

/-- The texts with nanoseconds are in the order of the instants. -/
theorem bytes_isoNanos_lt_iff (first : IsInstant m) (second : IsInstant n) :
    Text.bytes (isoNanos.format m) < Text.bytes (isoNanos.format n) ↔ m < n := by
  have precise : isoNanos.precision? = some (.fixed .nanosecond) := rfl
  rw [Text.bytes_lt_bytes_iff, toList_format first, toList_format second,
    (plain precise).write_lt_iff _ _ first second, shown_isoNanos_lt_iff first second]

/-! ### Reading ISO texts -/

theorem parseIso_eq_parse (text : String) (catalogue : Zone.Catalogue) :
    ∃ standard ∈ isoLayouts, parseIso text catalogue = standard.parse text catalogue := by
  unfold parseIso
  split
  · exact ⟨isoNanos, by decide, rfl⟩
  · exact ⟨isoMicros, by decide, rfl⟩
  · exact ⟨isoMillis, by decide, rfl⟩

/-- The length of a text that an ISO layout wrote tells the layout. -/
theorem parseIso_format (member : standard ∈ isoLayouts) (instant : IsInstant n)
    (catalogue : Zone.Catalogue) :
    parseIso (standard.format n) catalogue = standard.parse (standard.format n) catalogue := by
  simp only [isoLayouts, List.mem_cons, List.not_mem_nil, or_false] at member
  rcases member with rfl | rfl | rfl
  · have length : Text.byteLength (isoNanos.format n).toList = 30 :=
      byteLength_format rfl instant
    simp only [parseIso, length]
  · have length : Text.byteLength (isoMicros.format n).toList = 27 :=
      byteLength_format rfl instant
    simp only [parseIso, length]
  · have length : Text.byteLength (isoMillis.format n).toList = 24 :=
      byteLength_format rfl instant
    simp only [parseIso, length]

/-- Rounding down to a unit of one length keeps its multiples and nothing else. -/
theorem floorToMultiple_eq_self_iff {length : Int} (instant : IsInstant n) :
    floorToMultiple n length = .ok n ↔ length ∣ n := by
  rw [floorToMultiple, asInstant_eq_ok_iff, Int.dvd_iff_emod_eq_zero]
  constructor
  · rintro ⟨-, same⟩
    omega
  · intro zero
    rw [zero, Int.sub_zero]
    exact ⟨instant, rfl⟩

/-- The unit of an ISO layout is a fraction of the second. -/
theorem floorTo_isoLayouts (member : standard ∈ isoLayouts) :
    ∃ unit, standard.precision? = some (.fixed unit) ∧
      ∀ n, floorTo n (.fixed unit) = floorToMultiple n unit.length := by
  simp only [isoLayouts, List.mem_cons, List.not_mem_nil, or_false] at member
  rcases member with rfl | rfl | rfl
  · exact ⟨.nanosecond, rfl, fun _ => rfl⟩
  · exact ⟨.microsecond, rfl, fun _ => rfl⟩
  · exact ⟨.millisecond, rfl, fun _ => rfl⟩

theorem parseIso_eq_ok_iff {text : String} {catalogue : Zone.Catalogue} :
    parseIso text catalogue = .ok n ↔
      IsInstant n ∧ ∃ standard ∈ isoLayouts, ∃ unit,
        standard.precision? = some (.fixed unit) ∧ unit.length ∣ n ∧ text = standard.format n := by
  constructor
  -- Whatever layout the length picks, it reads only what it writes.
  · intro parsed
    obtain ⟨standard, member, same⟩ := parseIso_eq_parse text catalogue
    obtain ⟨unit, precise, floor⟩ := floorTo_isoLayouts member
    rw [same, parse_eq_ok_iff precise, floor] at parsed
    obtain ⟨instant, whole, written⟩ := parsed
    exact ⟨instant, standard, member, unit, precise,
      (floorToMultiple_eq_self_iff instant).mp whole, written⟩
  · rintro ⟨instant, standard, member, unit, precise, divides, rfl⟩
    obtain ⟨unit', precise', floor⟩ := floorTo_isoLayouts member
    obtain rfl : unit = unit' := by
      rw [precise] at precise'
      exact TimeUnit.fixed.inj (Option.some.inj precise')
    rw [parseIso_format member instant catalogue, parse_eq_ok_iff precise, floor]
    exact ⟨instant, (floorToMultiple_eq_self_iff instant).mpr divides, rfl⟩

end StandardLayout

namespace Instant

/-- Texts of instants have one length, give the instant back and are in the order of the instants;
an ISO text is read if and only if its layout wrote it for an instant that it shows as a whole. -/
theorem text_canonical (catalogue : Zone.Catalogue) :
    (∀ a : Instant, IsInstant a.nanos →
      (Text.bytes a.toText).length = 30 ∧ Instant.ofText a.toText catalogue = .ok a) ∧
    (∀ a b : Instant, IsInstant a.nanos → IsInstant b.nanos →
      (compare a b = .lt ↔ Text.bytes a.toText < Text.bytes b.toText)) ∧
    ∀ text n, parseIso text catalogue = .ok n ↔
      IsInstant n ∧
        ∃ standard ∈ [StandardLayout.isoNanos, .isoMicros, .isoMillis], ∃ unit,
          standard.precision? = some (.fixed unit) ∧ unit.length ∣ n ∧
            text = standard.format n := by
  refine ⟨fun a instant => ⟨?_, ?_⟩, fun a b first second => ?_, fun text n => ?_⟩
  · exact StandardLayout.length_bytes_format rfl instant
  · have read : parseIso a.toText catalogue = .ok a.nanos := by
      rw [StandardLayout.parseIso_eq_ok_iff]
      exact ⟨instant, .isoNanos, by decide, .nanosecond, rfl, Int.one_dvd _, rfl⟩
    rw [ofText, read]
    rfl
  · have order : compare a b = compare a.nanos b.nanos := rfl
    rw [order, Int.compare_eq_lt, toText, toText]
    exact (StandardLayout.bytes_isoNanos_lt_iff first second).symm
  · exact StandardLayout.parseIso_eq_ok_iff

/-- The last instant before the epoch, the epoch, and the last instant of all. -/
theorem text_canonical_around_epoch :
    (⟨-1⟩ : Instant).toText = "1969-12-31T23:59:59.999999999Z" ∧
    Instant.ofText "1969-12-31T23:59:59.999999999Z" = .ok ⟨-1⟩ ∧
    Text.bytes "1969-12-31T23:59:59.999999999Z" < Text.bytes "1970-01-01T00:00:00.000000000Z" ∧
    parseIso "1970-01-01T00:00:00.001Z" = .ok 1000000 := by
  have before : (⟨-1⟩ : Instant).toText = "1969-12-31T23:59:59.999999999Z" := by decide +kernel
  have epoch : (⟨0⟩ : Instant).toText = "1970-01-01T00:00:00.000000000Z" := by decide +kernel
  have millis : "1970-01-01T00:00:00.001Z" = StandardLayout.isoMillis.format 1000000 := by
    decide +kernel
  obtain ⟨back, order, reads⟩ := text_canonical Zone.Bundled.catalogue
  have earlier := (order ⟨-1⟩ ⟨0⟩ (by decide) (by decide)).mp (by decide)
  rw [before, epoch] at earlier
  refine ⟨before, before ▸ (back ⟨-1⟩ (by decide)).2, earlier, (reads _ _).mpr ⟨by decide, ?_⟩⟩
  exact ⟨.isoMillis, by decide, .millisecond, rfl, ⟨1, rfl⟩, millis⟩

end Instant
end CivilTime
