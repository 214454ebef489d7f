import CivilTime.Layout.Standard
import CivilTime.Proofs.Layout.RoundTrip

/-!
# Showing again what was read

The text of a layout that shows the date, but not all of the time of day, is read as an instant of
that day, at that time or before it, of which the layout shows the same. Only the hour can get lost:
the last hour read counts alone, so an hour of the whole day is forgotten behind one of half a day
without a label.
-/
namespace CivilTime

/-- An hour after noon that a cycle of 24 shows is not lost: the hour that counts is of such a cycle
too, or a label gives the half of the day. -/
def KeepsHour (items : List Item) (n : Int) : Prop :=
  12 ≤ hourOf n → (∃ cycle ∈ items.filterMap Item.hourCycle?, cycle.length = 24) →
    (∃ cycle ∈ lastCycle items, cycle.length = 24) ∨ Shows items .halfOfDay

instance (items : List Item) (n : Int) : Decidable (KeepsHour items n) :=
  inferInstanceAs (Decidable (_ → _ → _ ∨ _))

section Parts

variable {items : List Item} {m n : Int}

theorem ofHour_shownHour (keeps : KeepsHour items n) {cycle : HourCycle}
    (shown : cycle ∈ items.filterMap Item.hourCycle?) :
    cycle.ofHour (shownHour items n) = cycle.ofHour (hourOf n) := by
  have hour : hourOf n ≤ 23 := (DateTime.isCivil_ofInstant n).hour_le
  unfold shownHour
  split
  · next last counts =>
    split
    · rfl
    · next unlabelled =>
      -- The hour of the morning stands for that of the afternoon, which a cycle of twelve shows alike.
      by_cases afternoon : 12 ≤ hourOf n
      · have half : cycle.length = 12 := by
          rcases cycle.length_eq with half | whole
          · exact half
          · rcases keeps afternoon ⟨cycle, shown, whole⟩ with ⟨other, found, full⟩ | label
            · rw [counts] at found
              cases found
              exact absurd (.inl full) unlabelled
            · exact absurd (.inr label) unlabelled
        rw [HourCycle.ofHour, HourCycle.ofHour, half, Nat.mod_mod]
      · rw [Nat.mod_eq_of_lt (by omega)]
  · next none =>
    rw [lastCycle, List.getLast?_eq_none_iff] at none
    rw [none] at shown
    cases shown

theorem noon_le_shownHour_iff (label : Shows items .halfOfDay) :
    12 ≤ shownHour items n ↔ 12 ≤ hourOf n := by
  have hour : hourOf n ≤ 23 := (DateTime.isCivil_ofInstant n).hour_le
  unfold shownHour
  split
  · simp [label]
  · by_cases afternoon : 12 ≤ hourOf n <;> simp [label, afternoon]

/-- Numbers that are shown stay the same. -/
theorem NumberField.value_eq_of_shown (same : DateTime.ofInstant m = DateTime.shown items n)
    (field : NumberField) (shows : Shows items (.number field)) : field.value m = field.value n := by
  have shown (least : Nat) : shownNumber items n field least = field.value n := if_pos shows
  have whole := DateTime.nanosOfSecond_eq m
  have range := DateTime.subsecond_lt m
  have shownRange := shown_subsecond_le items n
  have sum : nanosOfSecond m = (DateTime.shown items n).nanosecond :=
    congrArg DateTime.nanosecond same
  simp only [DateTime.shown] at sum
  cases field with
  | month => exact (congrArg DateTime.month same).trans (shown 1)
  | day =>
    rw [value, DateTime.dayOfMonth_eq]
    exact (congrArg DateTime.day same).trans (shown 1)
  | minute => exact (congrArg DateTime.minute same).trans (shown 0)
  | second => exact (congrArg DateTime.second same).trans (shown 0)
  -- The sum of the three parts tells each of them, as all are below a thousand.
  | millisecond | microsecond | nanosecond =>
    have shown := shown 0
    simp only [value] at shown ⊢
    omega

theorem epochDay_eq_of_shown (same : DateTime.ofInstant m = DateTime.shown items n)
    (month : Shows items (.number .month)) (day : Shows items (.number .day)) :
    epochDay m = epochDay n := by
  have date : (DateTime.ofInstant m).date = (DateTime.ofInstant n).date := by
    rw [same, DateTime.date_shown month day]
  have days := congrArg Date.toDay date
  rwa [DateTime.toDay_date_ofInstant, DateTime.toDay_date_ofInstant] at days

/-- What an item writes stays the same. -/
theorem writeItem_eq_of_shown (same : DateTime.ofInstant m = DateTime.shown items n)
    (month : Shows items (.number .month)) (day : Shows items (.number .day))
    (keeps : KeepsHour items n) {item : Item} (member : item ∈ items) (layout : Layout)
    (table : Locale.Table) (zoneName : String) :
    layout.writeItem table zoneName m item = layout.writeItem table zoneName n item := by
  have shows {slot : Slot} (filled : item.slot? = some slot) : Shows items slot :=
    List.mem_map.mpr ⟨item, member, filled⟩
  have year : (yearOf m).number = (yearOf n).number := congrArg DateTime.year same
  have hour : hourOf m = shownHour items n := congrArg DateTime.hour same
  have weekday : weekdayOf m = weekdayOf n :=
    congrArg weekdayOfDay (epochDay_eq_of_shown same month day)
  cases item with
  | era => simp only [Layout.writeItem, year]
  | year width => simp only [Layout.writeItem, year]
  | number field width =>
    simp only [Layout.writeItem, field.value_eq_of_shown same (shows rfl)]
  | hour cycle width =>
    have counted : cycle ∈ items.filterMap Item.hourCycle? :=
      List.mem_filterMap.mpr ⟨_, member, rfl⟩
    simp only [Layout.writeItem, hour, ofHour_shownHour keeps counted]
  | monthName style =>
    have number : monthOf m (yearOf m) = monthOf n (yearOf n) :=
      NumberField.month.value_eq_of_shown same month
    simp only [Layout.writeItem, number]
  | weekdayName style => simp only [Layout.writeItem, weekday]
  | weekday => simp only [Layout.writeItem, weekday]
  | halfOfDay => simp only [Layout.writeItem, hour, noon_le_shownHour_iff (shows rfl)]
  | zone => rfl
  | literal index => rfl

theorem shownNumber_le_value (items : List Item) (n : Int) (field : NumberField) :
    shownNumber items n field 0 ≤ field.value n := by
  unfold shownNumber
  split
  · exact Nat.le_refl _
  · exact Nat.zero_le _

theorem shownHour_le_hourOf : shownHour items n ≤ hourOf n := by
  unfold shownHour
  split <;> split <;> omega

/-- What is shown of an instant with its date is a time of the same day, and not a later one. -/
theorem count_shown_bounds (month : Shows items (.number .month)) (day : Shows items (.number .day)) :
    epochDay n * nsPerDay ≤ (DateTime.shown items n).count ∧ (DateTime.shown items n).count ≤ n := by
  have started := (DateTime.isCivil_shown items n).timeOfDay_bounds.1
  have earlier : (DateTime.shown items n).timeOfDay ≤ (DateTime.ofInstant n).timeOfDay := by
    have hour : shownHour items n ≤ hourOf n := shownHour_le_hourOf
    have minute := shownNumber_le_value items n .minute
    have second := shownNumber_le_value items n .second
    have millis := shownNumber_le_value items n .millisecond
    have micros := shownNumber_le_value items n .microsecond
    have nanos := shownNumber_le_value items n .nanosecond
    have sum := DateTime.nanosOfSecond_eq n
    simp only [NumberField.value] at minute second millis micros nanos
    simp only [DateTime.timeOfDay, DateTime.shown, DateTime.ofInstant, nsPerHour, nsPerMinute,
      nsPerSecond]
    omega
  have whole := DateTime.count_ofInstant n
  rw [DateTime.count_eq, DateTime.toDay_date_ofInstant] at whole
  rw [DateTime.count_eq, DateTime.date_shown month day, DateTime.toDay_date_ofInstant]
  omega

theorem writeItem_eq_of_slot {item : Item} (slot : item.slot? ≠ some .zone) (layout : Layout)
    (table : Locale.Table) (zoneName other : String) :
    layout.writeItem table zoneName n item = layout.writeItem table other n item := by
  cases item with
  | zone => exact absurd rfl slot
  | _ => rfl

end Parts

/-- Reading a text loses nothing of what it shows: the text is written again for what was read. Every
text of a day that starts within the range of instants is read. -/
theorem Layout.format_parse_format (layout : Layout) (context : ReadContext) (n : Int)
    (zoneName : String) (standard : context.Standard) (instant : IsInstant n)
    (year : Shows layout.items .year) (month : Shows layout.items (.number .month))
    (day : Shows layout.items (.number .day)) (zone : Shows layout.items .zone → zoneName = "Z")
    (wide : ∀ item ∈ layout.items, item.Wide)
    (separated : Separated (layout.writeItem context.names zoneName n) layout.items)
    (keeps : KeepsHour layout.items n) :
    (∀ m, layout.parse context (layout.format n context.locale zoneName) = .ok m →
      layout.format m context.locale zoneName = layout.format n context.locale zoneName) ∧
    (IsInstant (epochDay n * nsPerDay) →
      ∃ m, layout.parse context (layout.format n context.locale zoneName) = .ok m) := by
  have alike (k : Int) : ∀ item ∈ layout.items,
      layout.writeItem context.names zoneName k item = layout.writeItem context.names "Z" k item := by
    intro item member
    by_cases slot : item.slot? = some .zone
    · rw [zone (List.mem_map.mpr ⟨item, member, slot⟩)]
    · exact writeItem_eq_of_slot slot layout _ _ _
  have text (k : Int) : layout.format k context.locale zoneName
      = layout.format k context.locale "Z" := format_congr (alike k)
  obtain ⟨position, read⟩ := Layout.parse_format_shown standard.legible instant year wide
    (separated.congr (alike n))
  have civil := DateTime.isCivil_shown layout.items n
  simp only [text, read, locate_eq_ok_iff]
  constructor
  · intro m composed
    obtain ⟨-, -, rfl⟩ := DateTime.toInstant_eq_ok_iff.mp composed
    apply format_congr
    intro item member
    exact writeItem_eq_of_shown civil.ofInstant_count month day keeps member layout _ _
  · intro started
    obtain ⟨lower, upper⟩ := count_shown_bounds month day (n := n)
    have fits : IsInstant (DateTime.shown layout.items n).count :=
      ⟨Int.lt_of_lt_of_le started.1 lower, Int.le_trans upper instant.2⟩
    exact ⟨_, DateTime.toInstant_eq_ok_iff.mpr ⟨civil, fits, rfl⟩⟩

/-- Two hours and a label, but neither minutes nor seconds. -/
theorem Layout.format_parse_format_of_hours :
    let layout : Layout :=
      ⟨[.weekdayName .long, .literal 0, .monthName .short, .literal 1, .number .day .greedy, .literal 0,
        .year .greedy, .literal 1, .hour .from0To23 .greedy, .literal 2, .hour .from1To12 (.fixed 2),
        .halfOfDay], [", ", " ", "/"]⟩
    let text := "Thursday, Jan 1, 1970 15/03PM"
    layout.format 54321000000000 none "" = text ∧
      (∃ m, layout.parse { window := .around 2000 } text = .ok m) ∧
      ∀ m, layout.parse { window := .around 2000 } text = .ok m → layout.format m none "" = text := by
  intro layout text
  have written : layout.format 54321000000000 none "" = text := by decide +kernel
  have shown := Layout.format_parse_format layout { window := .around 2000 } 54321000000000 ""
    nofun (by decide) (by decide) (by decide) (by decide) (by decide) (by decide)
    (by decide +kernel) (by decide)
  rw [written] at shown
  exact ⟨written, shown.2 (by decide), shown.1⟩

/-- The last hour alone counts, and without a label it is one of the morning. -/
theorem Layout.format_parse_format_forgets_afternoon :
    let layout : Layout :=
      ⟨StandardLayout.dateItems ++ [.literal 1] ++ StandardLayout.timeItems 2 ++ [.literal 3]
        ++ StandardLayout.fractionItems [.millisecond, .microsecond, .nanosecond]
        ++ [.literal 1, .hour .from1To12 (.fixed 2)], ["-", " ", ":", "."]⟩
    (∀ item ∈ layout.items, item.Wide) ∧
      (∀ slot ∈ [Slot.year, .number .month, .number .day], Shows layout.items slot) ∧
      ¬ Shows layout.items .zone ∧
      Separated (layout.writeItem Locale.Standard.englishTable "" 54000000000000) layout.items ∧
      layout.format 54000000000000 none "" = "1970-01-01 15:00:00.000000000 03" ∧
      layout.parse { window := .around 2000 } "1970-01-01 15:00:00.000000000 03"
        = .ok 10800000000000 ∧
      layout.format 10800000000000 none "" = "1970-01-01 03:00:00.000000000 03" := by
  decide +kernel

end CivilTime
