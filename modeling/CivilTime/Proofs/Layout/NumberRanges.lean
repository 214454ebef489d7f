import CivilTime.Proofs.Layout.ErrorPlaces

/-!
# Numbers within 64 bits

Reading counts in 64 bits: a number digit by digit, a year behind a sign or in an era, an hour after
noon, the parts of a second. The steps are listed here with their exact results. None leaves the
range as long as the numbers that are read fit it, and then each number is the one that its digits
denote. Numbers as far as digits go are checked; those of fixed width are not, nor is the year that
the era before the common one moves past the end of the range.
-/
namespace CivilTime

/-! ### Digits -/

namespace Text

/-- The counts on the way from `n` over digits: ten times the count so far, then that with the digit
added. -/
def countsFrom (n : Nat) : List Nat → List Nat
  | [] => []
  | d :: ds => 10 * n :: (10 * n + d) :: countsFrom (10 * n + d) ds

theorem le_of_mem_countsFrom {n m : Nat} {ds : List Nat} (member : m ∈ countsFrom n ds) :
    m ≤ numberFrom n ds := by
  induction ds generalizing n with
  | nil => cases member
  | cons d ds ih =>
    have last := le_numberFrom (10 * n + d) ds
    rw [numberFrom_cons]
    simp only [countsFrom, List.mem_cons] at member
    rcases member with rfl | rfl | later
    · omega
    · exact last
    · exact ih later

/-- The last of the counts is the number that the digits denote. -/
theorem numberFrom_mem_countsFrom (n : Nat) {ds : List Nat} (some : ds ≠ []) :
    numberFrom n ds ∈ countsFrom n ds := by
  induction ds generalizing n with
  | nil => exact absurd rfl some
  | cons d ds ih =>
    rw [numberFrom_cons]
    cases ds with
    | nil => exact List.mem_cons_of_mem _ List.mem_cons_self
    | cons e es => exact List.mem_cons_of_mem _ (List.mem_cons_of_mem _ (ih _ (List.cons_ne_nil e es)))

end Text

/-- A number of fixed width, which is not checked, does not outgrow 64 bits. -/
def ByteCursor.FixedFits (cursor : ByteCursor) (width : Width) : Prop :=
  width ≠ .greedy → cursor.countAhead width ≤ maxNanos

namespace ByteCursor

variable {cursor after : ByteCursor} {width : Width} {quantity : Quantity} {found : Located Int}
  {length : Nat}

/-- A number that is read is the one that the digits denote, and as they are taken without a check in
a fixed width, it has to fit there. -/
theorem number_value (fits : cursor.FixedFits width)
    (read : cursor.number width quantity = .ok (found, length, after)) :
    found.value = cursor.countAhead width ∧ (cursor.countAhead width : Int) ≤ maxNanos := by
  obtain ⟨same, -, -, checked⟩ := number_ok read
  have bound : (cursor.countAhead width : Int) ≤ maxNanos := by
    cases width with
    | fixed count => exact fits Width.noConfusion
    | greedy => exact checked rfl
  have unchanged : (cursor.countAhead width : Int).bmod 18446744073709551616
      = cursor.countAhead width := by
    simp only [maxNanos] at bound
    exact Int.bmod_eq_of_le (by omega) (by omega)
  exact ⟨by simp only [same, unchanged], bound⟩

theorem number_tooLarge (fits : cursor.FixedFits width) (quantity : Quantity)
    (enough : width.least ≤ (cursor.digitsAhead width).length)
    (beyond : maxNanos < cursor.countAhead width) :
    cursor.number width quantity = .error ⟨.numberTooLarge quantity, some cursor.position⟩ := by
  cases width with
  | fixed count => exact absurd (fits Width.noConfusion) (Int.not_le.mpr beyond)
  | greedy =>
    have some : ¬ cursor.digitRun.length < Width.greedy.least := Nat.not_lt.mpr enough
    rw [number_eq, if_neg some, if_pos ⟨rfl, beyond⟩]
    rfl

/-- The digits of a number of fixed width are as many as the width says. -/
theorem length_digitsAhead_fixed {count : Nat}
    (read : cursor.number (.fixed count) quantity = .ok (found, length, after)) :
    (cursor.digitsAhead (.fixed count)).length = count := by
  have enough : count ≤ cursor.digitRun.length := (number_ok read).2.2.1
  exact List.length_take_of_le enough

end ByteCursor

/-! ### Items -/

/-- The number that the fields hold in a slot. -/
def Fields.value? (fields : Fields) : Slot → Option Int
  | .year => fields.year.map (·.value)
  | .number field => (fields.number field).map (·.value)
  | .hour => fields.hour.map (·.2.value)
  | _ => none

namespace Item

/-- The value that the digits at `here` denote for a numeric item: a year with its sign, or in its
century where it has two digits and no sign, and an hour from the first one of its cycle on. -/
def denoted? (window : YearWindow) (here : ByteCursor) : Item → Option Int
  | .year width =>
    let number := here.behindSign
    let count : Int := number.countAhead width
    if here.rest.head? = some '-' then some (-count)
    else if (number.digitsAhead width).length = 2 then some (window.expand count)
    else some count
  | .number _ width => some (here.countAhead width)
  | .hour cycle width => some (here.countAhead width % cycle.length)
  | _ => none

/-- What the item leaves in its slot is what the digits at `here` denote, and too many digits are
refused. -/
structure ReadsExactly (layout : Layout) (context : ReadContext) (here : ByteCursor) (item : Item) :
    Prop where
  value : ∀ fields after stop, layout.scanItem context (fields, here) item = .ok (after, stop) →
    ∀ n ∈ item.denoted? context.window here, ∀ slot ∈ item.slot?, after.value? slot = some n
  tooLarge : ∀ fields, ∀ width ∈ item.width?, ∀ quantity ∈ item.quantity?,
    width.least ≤ ((item.numberStart here).digitsAhead width).length →
    maxNanos < (item.numberStart here).countAhead width →
    layout.scanItem context (fields, here) item
      = .error ⟨.numberTooLarge quantity, some (item.numberStart here).position⟩

end Item

namespace ByteCursor

variable {cursor after : ByteCursor} {width : Width} {found : Located Int} {window : YearWindow}

/-- A year is taken for one of two digits where it has two digits. -/
theorem twoDigits_eq {length : Nat} (read : cursor.number width .year = .ok (found, length, after)) :
    (width == .fixed 2 || (width == .greedy && length == 2))
      = decide ((cursor.digitsAhead width).length = 2) := by
  have taken := (number_ok read).2.1
  cases width with
  | fixed count =>
    rw [length_digitsAhead_fixed read]
    by_cases two : count = 2 <;> simp [two]
  | greedy =>
    rw [← taken]
    by_cases two : length = 2 <;> simp [two]

theorem year_value (fits : cursor.behindSign.FixedFits width)
    (read : cursor.year width window = .ok (found, after)) :
    Item.denoted? window cursor (.year width) = some found.value := by
  obtain ⟨⟨number, length, stop⟩, counted, read⟩ := bind_eq_ok_iff.mp read
  have exact : cursor.behindSign.number width .year = .ok (number, length, stop) := counted
  have value := (number_value fits exact).1
  have twoDigits := twoDigits_eq exact
  cases read
  by_cases negative : cursor.rest.head? = some '-'
  · simp only [Item.denoted?, if_pos negative, value]
  · have start : cursor.behindSign = cursor := if_neg negative
    rw [start] at value twoDigits
    simp only [Item.denoted?, if_neg negative, start, twoDigits, value, decide_eq_true_eq]
    split
    · rfl
    · rfl

theorem hour_value {cycle : HourCycle} (read : cursor.hour cycle width = .ok (found, after)) :
    (0 ≤ found.value ∧ found.value < cycle.length) ∧
      (cursor.FixedFits width → found.value = cursor.countAhead width % cycle.length) := by
  obtain ⟨⟨number, length, stop⟩, counted, read⟩ := bind_eq_ok_iff.mp read
  simp only at read
  split at read
  next inCycle =>
    cases read
    simp only [← cycle.emod_length inCycle.1 inCycle.2]
    have length : (0 : Int) < cycle.length := by
      have := cycle.least_le_one.2
      omega
    refine ⟨⟨Int.emod_nonneg _ (by omega), Int.emod_lt_of_pos _ length⟩, fun fits => ?_⟩
    rw [← (number_value fits counted).1]
  next => cases read

end ByteCursor

/-- The numbers of the item that fit are read as they are. -/
theorem Item.readsExactly {layout : Layout} {context : ReadContext} {here : ByteCursor} {item : Item}
    (fits : ∀ width ∈ item.width?, (item.numberStart here).FixedFits width) :
    item.ReadsExactly layout context here := by
  constructor
  case value =>
    intro fields after stop read n denoted slot filled
    cases item with
    | year width =>
      obtain ⟨⟨found, next⟩, taken, read⟩ := bind_eq_ok_iff.mp read
      cases read
      cases filled
      rw [← denoted, ByteCursor.year_value (fits width rfl) taken]
      rfl
    | number field width =>
      obtain ⟨⟨found, length, next⟩, taken, read⟩ := bind_eq_ok_iff.mp read
      cases read
      cases filled
      have exact : found.value = here.countAhead width :=
        (ByteCursor.number_value (fits width rfl) taken).1
      rw [← denoted, denoted?, ← exact]
      simp [Fields.value?, Fields.setNumber]
    | hour cycle width =>
      obtain ⟨⟨found, next⟩, taken, read⟩ := bind_eq_ok_iff.mp read
      cases read
      cases filled
      have exact : found.value = here.countAhead width % cycle.length :=
        (ByteCursor.hour_value taken).2 (fits width rfl)
      rw [← denoted, denoted?, ← exact]
      rfl
    | _ => cases denoted
  case tooLarge =>
    intro fields width numeric quantity measured enough beyond
    have refused := ByteCursor.number_tooLarge (fits width numeric) quantity enough beyond
    -- The reader of a number is the first step of each numeric item, so its error is the item's.
    cases item with
    | year other =>
      cases numeric
      cases measured
      have start : here.behindSign
          = if here.rest.head? = some '-' then here.advance 1 else here := rfl
      rw [numberStart, start] at refused ⊢
      simp only [Layout.scanItem, ByteCursor.year, refused, bind, Except.bind]
    | number field other =>
      cases numeric
      cases measured
      simp only [numberStart] at refused ⊢
      simp only [Layout.scanItem, refused, bind, Except.bind]
    | hour cycle other =>
      cases numeric
      cases measured
      simp only [numberStart] at refused ⊢
      simp only [Layout.scanItem, ByteCursor.hour, refused, bind, Except.bind]
    | weekday =>
      cases numeric
      cases measured
      simp only [numberStart] at refused ⊢
      simp only [Layout.scanItem, ByteCursor.weekday, refused, bind, Except.bind]
    | _ => cases numeric

/-! ### The steps of a run -/

namespace Layout

variable (layout : Layout) (context : ReadContext) (start : ByteCursor)

/-- The exact results of the 64-bit steps of reading from `start`. -/
inductive Computes : Int → Prop
  /-- A number takes up its digits one by one. In a greedy one each step is checked, so what does not
  fit is refused, not computed. -/
  | digit {item : Item} {here : ByteCursor} {width : Width} {n : Nat}
      (met : layout.Meets context start item here)
      (numeric : item.width? = some width)
      (step : n ∈ Text.countsFrom 0 ((item.numberStart here).digitsAhead width))
      (checked : width = .greedy → n ≤ maxNanos) : Computes n
  /-- A year behind a minus sign is negated. -/
  | negation {width : Width} {here after : ByteCursor} {found : Located Int} {length : Nat}
      (met : layout.Meets context start (.year width) here)
      (signed : here.rest.head? = some '-')
      (read : here.behindSign.number width .year = .ok (found, length, after)) :
      Computes (-found.value)
  /-- Year 1 before the common era is year 0. -/
  | era {fields : Fields} {stop : ByteCursor} {year : Located Int}
      (run : layout.items.foldlM (layout.scanItem context) ({}, start) = .ok (fields, stop))
      (finished : stop.stop ≤ stop.position) (before : fields.beforeCommonEra = true)
      (held : fields.year = some year) : Computes (1 - year.value)
  /-- Hours after noon are moved by half a day. -/
  | afternoon {fields : Fields} {stop : ByteCursor} {cycle : HourCycle} {hour : Located Int}
      (run : layout.items.foldlM (layout.scanItem context) ({}, start) = .ok (fields, stop))
      (finished : stop.stop ≤ stop.position) (pm : fields.pm = some true)
      (held : fields.hour = some (cycle, hour)) : Computes (hour.value + 12)
  /-- The parts of a second, once checked, are added up. -/
  | subsecond {fields : Fields} {stop : ByteCursor} {millis micros nanos n : Nat}
      (run : layout.items.foldlM (layout.scanItem context) ({}, start) = .ok (fields, stop))
      (finished : stop.stop ≤ stop.position) (millisRead : fields.part .millisecond 0 999 = .ok millis)
      (microsRead : fields.part .microsecond 0 999 = .ok micros)
      (nanosRead : fields.part .nanosecond 0 999 = .ok nanos)
      (step : n ∈ [millis * 1000000, micros * 1000, millis * 1000000 + micros * 1000,
        millis * 1000000 + micros * 1000 + nanos]) : Computes n

/-- The numbers that reading from `start` does not check fit 64 bits: those of fixed width, and the
year that the era before the common one moves. -/
structure NumbersFit : Prop where
  fixed : ∀ item here, layout.Meets context start item here →
    ∀ width ∈ item.width?, (item.numberStart here).FixedFits width
  era : ∀ fields stop, layout.items.foldlM (layout.scanItem context) ({}, start) = .ok (fields, stop) →
    stop.stop ≤ stop.position → fields.beforeCommonEra = true →
      ∀ year ∈ fields.year, -maxNanos < year.value

end Layout

/-- The fields hold a year of 64 bits and an hour of its cycle, if any. -/
structure Fields.Bounded (fields : Fields) : Prop where
  year : ∀ read ∈ fields.year, -maxNanos ≤ read.value ∧ read.value ≤ maxNanos
  hour : ∀ cycle read, fields.hour = some (cycle, read) → 0 ≤ read.value ∧ read.value < cycle.length

theorem YearWindow.expand_bounds (window : YearWindow) (year : Int) :
    -2147483648 ≤ window.expand year ∧ window.expand year ≤ 2147483647 :=
  ⟨Int.le_bmod (by decide), Int.bmod_le (by decide)⟩

theorem ByteCursor.year_bounds {cursor after : ByteCursor} {width : Width} {window : YearWindow}
    {found : Located Int} (fits : cursor.behindSign.FixedFits width)
    (read : cursor.year width window = .ok (found, after)) :
    -maxNanos ≤ found.value ∧ found.value ≤ maxNanos := by
  have denoted := year_value fits read
  obtain ⟨⟨number, length, next⟩, counted, -⟩ := bind_eq_ok_iff.mp read
  have bound := (number_value fits counted).2
  simp only [maxNanos, Item.denoted?] at bound denoted ⊢
  split at denoted
  · have value := Option.some.inj denoted
    omega
  · split at denoted
    · have value := Option.some.inj denoted
      have expanded := window.expand_bounds (cursor.behindSign.countAhead width)
      omega
    · have value := Option.some.inj denoted
      omega

section Run

variable {layout : Layout} {context : ReadContext} {item : Item} {items : List Item}
  {state : Fields × ByteCursor} {fields after : Fields} {start cursor stop : ByteCursor}

theorem scanItem_bounded (fits : ∀ width ∈ item.width?, (item.numberStart cursor).FixedFits width)
    (bounded : fields.Bounded)
    (read : layout.scanItem context (fields, cursor) item = .ok (after, stop)) : after.Bounded := by
  constructor
  case year =>
    cases item with
    | year width =>
      obtain ⟨⟨found, next⟩, taken, read⟩ := bind_eq_ok_iff.mp read
      cases read
      rintro year ⟨⟩
      exact ByteCursor.year_bounds (fits width rfl) taken
    | _ =>
      have same : after.Agree fields .year := scanItem_keepsOthers read nofun
      exact fun year held => bounded.year year (same ▸ held)
  case hour =>
    cases item with
    | hour cycle width =>
      obtain ⟨⟨found, next⟩, taken, read⟩ := bind_eq_ok_iff.mp read
      cases read
      rintro cycle hour ⟨⟩
      exact (ByteCursor.hour_value taken).1
    | _ =>
      have same : after.Agree fields .hour := scanItem_keepsOthers read nofun
      exact fun cycle hour held => bounded.hour cycle hour (same ▸ held)

theorem foldlM_bounded
    (fits : ∀ item here, RunMeets (layout.scanItem context) state items item here →
      ∀ width ∈ item.width?, (item.numberStart here).FixedFits width)
    (bounded : state.1.Bounded)
    (run : items.foldlM (layout.scanItem context) state = .ok (after, stop)) : after.Bounded := by
  induction items generalizing state with
  | nil =>
    cases run
    exact bounded
  | cons item items ih =>
    rw [List.foldlM_cons] at run
    obtain ⟨next, step, run⟩ := bind_eq_ok_iff.mp run
    have kept := scanItem_bounded (fits item state.2 runMeets_head) bounded step
    exact ih (fun later here met => fits later here (met.tail step)) kept run

theorem Layout.NumbersFit.bounded (fit : layout.NumbersFit context start)
    (run : layout.items.foldlM (layout.scanItem context) ({}, start) = .ok (fields, stop)) :
    fields.Bounded :=
  foldlM_bounded fit.fixed ⟨nofun, nofun⟩ run

theorem Layout.NumbersFit.representable (fit : layout.NumbersFit context start) {n : Int}
    (computed : layout.Computes context start n) : Representable n := by
  simp only [Representable, minNanos, maxNanos]
  cases computed with
  | @digit item here width n met numeric step checked =>
    have bound : (n : Int) ≤ maxNanos := by
      cases width with
      | greedy => exact checked rfl
      | fixed count =>
        -- No count on the way is above the last one.
        have last := Text.le_of_mem_countsFrom step
        have fits := fit.fixed item here met (.fixed count) numeric Width.noConfusion
        exact Int.le_trans (Int.ofNat_le.mpr last) fits
    simp only [maxNanos] at bound
    omega
  | negation met signed read =>
    obtain ⟨value, bound⟩ := ByteCursor.number_value (fit.fixed _ _ met _ rfl) read
    simp only [maxNanos] at bound
    omega
  | era run finished before held =>
    have bounds := (fit.bounded run).year _ held
    have above := fit.era _ _ run finished before _ held
    simp only [maxNanos] at bounds above
    omega
  | @afternoon fields stop cycle hour run finished pm held =>
    have bounds := (fit.bounded run).hour cycle hour held
    have length : cycle.length ≤ 24 := by cases cycle <;> decide
    omega
  | subsecond run finished millisRead microsRead nanosRead step =>
    have millis := Fields.part_bounds (by decide) millisRead
    have micros := Fields.part_bounds (by decide) microsRead
    have nanos := Fields.part_bounds (by decide) nanosRead
    simp only [List.mem_cons, List.not_mem_nil, or_false] at step
    omega

/-- All steps stay within 64 bits exactly if the numbers that are not checked fit. -/
theorem Layout.numbersFit_iff :
    layout.NumbersFit context start ↔ ∀ n, layout.Computes context start n → Representable n := by
  refine ⟨fun fit n computed => fit.representable computed, fun within => ?_⟩
  constructor
  case fixed =>
    intro item here met width numeric unchecked
    by_cases some : (item.numberStart here).digitsAhead width = []
    · rw [ByteCursor.countAhead, some]
      decide
    -- The last count of a number is the number itself.
    · have last := Text.numberFrom_mem_countsFrom 0 some
      exact (within _ (.digit met numeric last fun greedy => absurd greedy unchecked)).2
  case era =>
    intro fields stop run finished before year held
    have moved := (within _ (.era run finished before held)).2
    simp only [maxNanos] at moved ⊢
    omega

/-- Widths of up to 18 digits leave every number within 64 bits, where no era moves the year. -/
theorem Layout.NumbersFit.of_narrow
    (narrow : ∀ item ∈ layout.items, ∀ count, item.width? = some (.fixed count) → count ≤ 18)
    (eraless : Item.era ∉ layout.items) : layout.NumbersFit context start := by
  constructor
  case fixed =>
    rintro item here ⟨before, after, fields, parts, -⟩ width numeric unchecked
    have member : item ∈ layout.items := by simp [parts]
    cases width with
    | greedy => exact absurd rfl unchecked
    | fixed count =>
      have short : ((item.numberStart here).digitsAhead (.fixed count)).length ≤ 18 :=
        Nat.le_trans (List.length_take_le _ _) (narrow item member count numeric)
      have digits : ∀ d ∈ (item.numberStart here).digitsAhead (.fixed count), d < 10 :=
        fun d digit => Text.lt_of_mem_digitRun (List.mem_of_mem_take digit)
      have bound := Text.numberFrom_lt (n := 0) digits
      have most : 10 ^ ((item.numberStart here).digitsAhead (.fixed count)).length ≤ 10 ^ 18 :=
        Nat.pow_le_pow_right (by decide) short
      have small : (item.numberStart here).countAhead (.fixed count) < 10 ^ 18 := by
        rw [ByteCursor.countAhead]
        omega
      simp only [maxNanos]
      omega
  case era =>
    intro fields stop run finished before
    have unfilled : Slot.era ∉ layout.items.filterMap Item.slot? := by
      intro filled
      obtain ⟨item, member, same⟩ := List.mem_filterMap.mp filled
      cases item <;> first | exact eraless member | cases same
    have common : fields.beforeCommonEra = false := scanItem_keepsOthers.run run .era unfilled
    rw [common] at before
    cases before

end Run

/-- No step of reading leaves 64 bits where the numbers that are not checked fit, as they always do
in narrow layouts without an era, and only there. A number that fits is the one that its digits
denote, and one that is checked and does not fit is refused. -/
theorem Layout.steps_stay_within_64_bits (layout : Layout) (context : ReadContext)
    (start : ByteCursor) :
    (layout.NumbersFit context start ↔
      ∀ n, layout.Computes context start n → Representable n) ∧
    ((∀ item ∈ layout.items, ∀ count, item.width? = some (.fixed count) → count ≤ 18) →
      Item.era ∉ layout.items → layout.NumbersFit context start) ∧
    ∀ (item : Item) (here : ByteCursor),
      (∀ width ∈ item.width?, (item.numberStart here).FixedFits width) →
        item.ReadsExactly layout context here :=
  ⟨numbersFit_iff, NumbersFit.of_narrow, fun _ _ fits => Item.readsExactly fits⟩

/-- A greedy year at the end of the range, and seconds of eighteen digits. -/
theorem Layout.steps_stay_within_64_bits_of_narrow :
    let layout : Layout := ⟨[.year .greedy, .literal 0, .number .second (.fixed 18)], [" "]⟩
    let start : ByteCursor := .whole "-9223372036854775807 000000000000000059"
    (∀ n, layout.Computes { window := .around 2000 } start n → Representable n) ∧
      (Item.year .greedy).ReadsExactly layout { window := .around 2000 } start ∧
      (Item.year .greedy).denoted? (.around 2000) start = some (-9223372036854775807) := by
  intro layout start
  have narrow : ∀ item ∈ layout.items, ∀ count, item.width? = some (.fixed count) → count ≤ 18 := by
    intro item member count fixed
    simp only [layout, List.mem_cons, List.not_mem_nil, or_false] at member
    rcases member with rfl | rfl | rfl <;> cases fixed
    decide
  obtain ⟨fits, ofNarrow, exact⟩ :=
    Layout.steps_stay_within_64_bits layout { window := .around 2000 } start
  refine ⟨fits.mp (ofNarrow narrow (by decide)), exact (.year .greedy) start ?_, ?_⟩
  · intro width given
    cases given
    exact fun fixed => absurd rfl fixed
  · decide +kernel

/-- Twenty digits for the month wrap to January without an error, and the era moves the year past the
end of the range. -/
theorem Layout.unchecked_numbers_leave_range :
    ofItems [.number .month (.fixed 20)] [] = .ok ⟨[.number .month (.fixed 20)], []⟩ ∧
    (⟨[.number .month (.fixed 20)], []⟩ : Layout).parse { window := .around 2000 }
      "18446744073709551617" = .ok 0 ∧
    (∃ n, (⟨[.number .month (.fixed 20)], []⟩ : Layout).Computes { window := .around 2000 }
      (.whole "18446744073709551617") n ∧ ¬ Representable n) ∧
    ∃ n, (⟨[.era, .year .greedy], []⟩ : Layout).Computes { window := .around 2000 }
      (.whole "BC-9223372036854775807") n ∧ ¬ Representable n := by
  let context : ReadContext := { window := .around 2000 }
  let digits : ByteCursor := .whole "18446744073709551617"
  let front : ByteCursor := .whole "BC-9223372036854775807"
  have twenty : digits.digitsAhead (.fixed 20) ≠ [] := by decide +kernel
  have beyond : ¬ Representable (digits.countAhead (.fixed 20) : Int) := by decide +kernel
  have label : front.name context.names.eraIndex .era = .ok (⟨false, 0⟩, front.advance 2) := by
    decide +kernel
  have year : (front.advance 2).year .greedy context.window
      = .ok (⟨-9223372036854775807, 2⟩, front.advance 22) := by decide +kernel
  have behindEra : (⟨[.era, .year .greedy], []⟩ : Layout).items.foldlM
      ((⟨[.era, .year .greedy], []⟩ : Layout).scanItem context) ({}, front)
        = .ok ({ beforeCommonEra := true, year := some ⟨-9223372036854775807, 2⟩ },
            front.advance 22) := by
    simp only [List.foldlM_cons, List.foldlM_nil, scanItem, label, year, bind, Except.bind, pure,
      Except.pure, Bool.not_false]
  have finished : (front.advance 22).stop ≤ (front.advance 22).position := by decide +kernel
  refine ⟨rfl, by decide +kernel, ⟨_, ?_, beyond⟩, ⟨1 - (-9223372036854775807), ?_, ?_⟩⟩
  · exact .digit runMeets_head rfl (Text.numberFrom_mem_countsFrom 0 twenty) nofun
  · exact .era behindEra finished rfl rfl
  · decide

end CivilTime
