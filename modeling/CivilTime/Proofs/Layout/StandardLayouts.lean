import CivilTime.Calendar.Rounding
import CivilTime.Layout.Standard
import CivilTime.Proofs.Layout.Exactness

/-!
# Texts of the standard layouts

The standard layouts of digits are plain, and what they show of an instant is the start of the unit
that they stop at.
-/
namespace CivilTime

namespace DateTime

variable {items : List Item}

/-- The items show the date and the time up to the second. -/
structure ShowSeconds (items : List Item) : Prop where
  hour : lastCycle items = some .from0To23
  number : ∀ field ∈ [NumberField.month, .day, .minute, .second], Shows items (.number field)

theorem ShowSeconds.count_shown (shows : ShowSeconds items) (n : Int) :
    (shown items n).count = n - n % nsPerSecond + (shown items n).nanosecond := by
  have whole := count_ofInstant n
  have part : ((ofInstant n).nanosecond : Int) = n % nsPerSecond :=
    Int.toNat_of_nonneg (Int.emod_nonneg n (by decide))
  have same : shown items n = { ofInstant n with nanosecond := (shown items n).nanosecond } := by
    simp only [shown, shownNumber, shownHour, shows.hour, if_pos (shows.number .month (by simp)),
      if_pos (shows.number .day (by simp)), if_pos (shows.number .minute (by simp)),
      if_pos (shows.number .second (by simp)), NumberField.value, dayOfMonth_eq]
    rfl
  rw [same]
  simp only [count, dayCount] at whole ⊢
  omega

/-- The last three digits are the only ones that are left out. -/
theorem ShowSeconds.count_shown_micros (shows : ShowSeconds items) (n : Int)
    (millis : Shows items (.number .millisecond)) (micros : Shows items (.number .microsecond))
    (nanos : ¬ Shows items (.number .nanosecond)) :
    (shown items n).count = n - n % nsPerMicrosecond := by
  rw [shows.count_shown]
  simp only [shown, shownNumber, if_pos millis, if_pos micros, if_neg nanos, NumberField.value,
    millisOfSecond, microsOfMilli, nsPerSecond, nsPerMillisecond, nsPerMicrosecond]
  omega

/-- So are the last six. -/
theorem ShowSeconds.count_shown_millis (shows : ShowSeconds items) (n : Int)
    (millis : Shows items (.number .millisecond)) (micros : ¬ Shows items (.number .microsecond))
    (nanos : ¬ Shows items (.number .nanosecond)) :
    (shown items n).count = n - n % nsPerMillisecond := by
  rw [shows.count_shown]
  simp only [shown, shownNumber, if_pos millis, if_neg micros, if_neg nanos, NumberField.value,
    millisOfSecond, nsPerSecond, nsPerMillisecond]
  omega

/-- The items show no part of the time of day. -/
structure HideTime (items : List Item) : Prop where
  hour : lastCycle items = none
  label : ¬ Shows items .halfOfDay
  number : ∀ field ∈ [NumberField.minute, .second, .millisecond, .microsecond, .nanosecond],
    ¬ Shows items (.number field)

theorem HideTime.timeOfDay_shown (hidden : HideTime items) (n : Int) :
    (shown items n).timeOfDay = 0 := by
  simp [timeOfDay, shown, shownHour, shownNumber, hidden.hour, hidden.label, hidden.number]

/-- Items that show a date without a time leave out all of the day. -/
theorem HideTime.count_shown_date (hidden : HideTime items) (n : Int)
    (month : Shows items (.number .month)) (day : Shows items (.number .day)) :
    (shown items n).count = n - n % nsPerDay := by
  have whole := Int.ediv_mul_add_emod n nsPerDay
  rw [count_eq, hidden.timeOfDay_shown, date_shown month day, toDay_date_ofInstant, epochDay]
  omega

/-- Items that show a month without a day leave out all days but the first. -/
theorem HideTime.count_shown_month (hidden : HideTime items) (n : Int)
    (month : Shows items (.number .month)) (day : ¬ Shows items (.number .day)) :
    (shown items n).count = { Date.ofDay (epochDay n) with day := 1 }.toDay * nsPerDay := by
  have same : (shown items n).date = { Date.ofDay (epochDay n) with day := 1 } := by
    simp only [shown, shownNumber, if_pos month, if_neg day, NumberField.value, date]
    rfl
  rw [count_eq, hidden.timeOfDay_shown, same, Int.add_zero]

end DateTime

namespace StandardLayout

variable {standard : StandardLayout} {unit : TimeUnit}

/-- The unit that the text of a layout of digits stops at. -/
def precision? : StandardLayout → Option TimeUnit
  | isoMillis => some (.fixed .millisecond)
  | isoMicros => some (.fixed .microsecond)
  | isoNanos => some (.fixed .nanosecond)
  | http => none
  | postgres => some (.fixed .microsecond)
  | date => some (.fixed .day)
  | yearMonth => some .month
  | compactDate => some (.fixed .day)

theorem plain (precise : standard.precision? = some unit) : standard.layout.Plain := by
  cases standard with
  | http => cases precise
  | _ => decide

theorem shows_year (precise : standard.precision? = some unit) :
    Shows standard.layout.items .year := by
  cases standard with
  | http => cases precise
  | _ => decide

/-- What a layout of digits shows of an instant is the start of its unit. -/
theorem toInstant_shown (precise : standard.precision? = some unit) (n : Int) :
    (DateTime.shown standard.layout.items n).toInstant = floorTo n unit := by
  rw [(DateTime.isCivil_shown _ n).toInstant_eq]
  cases standard with
  | http => cases precise
  | date =>
    cases precise
    have hidden : DateTime.HideTime StandardLayout.date.layout.items :=
      ⟨by decide, by decide, by decide⟩
    exact congrArg asInstant (hidden.count_shown_date n (by decide) (by decide))
  | compactDate =>
    cases precise
    have hidden : DateTime.HideTime compactDate.layout.items := ⟨by decide, by decide, by decide⟩
    exact congrArg asInstant (hidden.count_shown_date n (by decide) (by decide))
  | yearMonth =>
    cases precise
    have hidden : DateTime.HideTime yearMonth.layout.items := ⟨by decide, by decide, by decide⟩
    rw [hidden.count_shown_month n (by decide) (by decide), floorTo, floorMonth, instantOfDay,
      Int.add_zero]
  | isoMillis =>
    cases precise
    have shows : DateTime.ShowSeconds isoMillis.layout.items := ⟨by decide, by decide⟩
    exact congrArg asInstant (shows.count_shown_millis n (by decide) (by decide) (by decide))
  | isoMicros =>
    cases precise
    have shows : DateTime.ShowSeconds isoMicros.layout.items := ⟨by decide, by decide⟩
    exact congrArg asInstant (shows.count_shown_micros n (by decide) (by decide) (by decide))
  | postgres =>
    cases precise
    have shows : DateTime.ShowSeconds postgres.layout.items := ⟨by decide, by decide⟩
    exact congrArg asInstant (shows.count_shown_micros n (by decide) (by decide) (by decide))
  | isoNanos =>
    cases precise
    have complete : Complete isoNanos.layout.items :=
      ⟨by decide, by intro field; cases field <;> decide, .from0To23, by decide, .inl rfl⟩
    rw [DateTime.shown_of_complete complete, DateTime.count_ofInstant]
    apply congrArg asInstant
    rw [FixedUnit.length, Int.emod_one, Int.sub_zero]

variable (catalogue : Zone.Catalogue)

/-- The text of an instant is read as the start of its unit. -/
theorem parse_format_floor (precise : standard.precision? = some unit) {n : Int}
    (instant : IsInstant n) :
    ∃ position,
      standard.parse (standard.format n) catalogue = locate position (floorTo n unit) := by
  have english : ReadContext.Standard { bundled := catalogue, window := .around 2000 } := nofun
  have written : standard.format n = standard.layout.format n none standard.zoneName :=
    if_neg (Int.ne_of_gt instant.1)
  rw [written, ← toInstant_shown precise]
  exact (plain precise).parse_format_shown english.legible instant (shows_year precise) none
    standard.zoneName

variable {catalogue}

theorem eq_format (precise : standard.precision? = some unit) {text : String} {n : Int}
    (parsed : standard.parse text catalogue = .ok n) :
    IsInstant n ∧ text = standard.format n := by
  obtain ⟨instant, same⟩ := (plain precise).eq_format parsed none standard.zoneName
  refine ⟨instant, ?_⟩
  rw [same, format, if_neg (Int.ne_of_gt instant.1)]

theorem parse_format_eq_ok_iff (precise : standard.precision? = some unit) {n m : Int}
    (instant : IsInstant n) :
    standard.parse (standard.format n) catalogue = .ok m ↔ floorTo n unit = .ok m := by
  obtain ⟨position, read⟩ := parse_format_floor catalogue precise instant
  rw [read, locate_eq_ok_iff]

/-- A layout of digits reads what it writes for the starts of its unit. -/
theorem parse_eq_ok_iff (precise : standard.precision? = some unit) {text : String} {n : Int} :
    standard.parse text catalogue = .ok n ↔
      IsInstant n ∧ floorTo n unit = .ok n ∧ text = standard.format n := by
  constructor
  · intro parsed
    obtain ⟨instant, rfl⟩ := eq_format precise parsed
    exact ⟨instant, (parse_format_eq_ok_iff precise instant).mp parsed, rfl⟩
  · rintro ⟨instant, whole, rfl⟩
    exact (parse_format_eq_ok_iff precise instant).mpr whole

/-- A layout of digits reads an instant from one text only, the one that it writes for it, and only
where nothing of the instant is cut off. What it writes for any instant is read as the start of the
unit, as long as this is an instant itself. -/
theorem reads_only_what_it_writes (precise : standard.precision? = some unit)
    (catalogue : Zone.Catalogue) :
    (∀ text n, standard.parse text catalogue = .ok n ↔
        IsInstant n ∧ floorTo n unit = .ok n ∧ text = standard.format n) ∧
      ∀ n, IsInstant n →
        (∀ m, standard.parse (standard.format n) catalogue = .ok m ↔ floorTo n unit = .ok m) ∧
          ((∀ m, floorTo n unit ≠ .ok m) →
            ∃ e, standard.parse (standard.format n) catalogue = .error e ∧ e.kind = .range) := by
  refine ⟨fun _ _ => parse_eq_ok_iff precise, fun n instant =>
    ⟨fun _ => parse_format_eq_ok_iff precise instant, fun refused => ?_⟩⟩
  -- What is shown is civil, so only its count can be refused, and for its range.
  obtain ⟨position, read⟩ := parse_format_floor catalogue precise instant
  have floor := toInstant_shown precise n
  rw [(DateTime.isCivil_shown _ n).toInstant_eq, asInstant] at floor
  split at floor
  · exact absurd floor.symm (refused _)
  · rw [read, ← floor]
    exact ⟨_, rfl, rfl⟩

/-- The first instant is on a day that starts before the range of instants. -/
theorem date_refuses_first_day :
    date.format (minNanos + 1) = "1677-09-21" ∧
      ∃ e, date.parse "1677-09-21" = .error e ∧ e.kind = .range := by
  have written : date.format (minNanos + 1) = "1677-09-21" := by decide +kernel
  have early : floorTo (minNanos + 1) (.fixed .day) = fail .instantOutOfRange := rfl
  have refused : ∀ m, floorTo (minNanos + 1) (.fixed .day) ≠ .ok m := by
    intro m floor
    rw [early] at floor
    cases floor
  have reads := @reads_only_what_it_writes date (.fixed .day) rfl Zone.Bundled.catalogue
  have range := (reads.2 (minNanos + 1) (by decide)).2 refused
  exact ⟨written, written ▸ range⟩

end StandardLayout
end CivilTime
