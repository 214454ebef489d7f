import CivilTime.Proofs.Layout.Exactness
import CivilTime.Proofs.Layout.Readers

/-!
# Labels of eras

Of several labels and several years the last ones count, in whatever order they come. A year behind
the label of the era before the common one is counted back from the year 1, and where it is above
zero that leaves the instants, so it is refused. A year below zero is counted forward instead, and
may be accepted: that is the only way in which a label disagrees with the year of the instant.
-/
namespace CivilTime

namespace Layout

variable {layout : Layout} {context : ReadContext} {text : String} {n : Int}

/-- The last label of an era that is read is one of the common era, or one of the era before it. -/
def LastLabel (layout : Layout) (context : ReadContext) (text : String) (common : Bool) : Prop :=
  ∃ here read next, layout.MeetsLast context (.whole text) .era here ∧
    here.name context.names.eraIndex .era = .ok (read, next) ∧ read.value = common

/-- The last year that is read, with its sign or in its century. -/
def LastYear (layout : Layout) (context : ReadContext) (text : String) (value : Int) : Prop :=
  ∃ width here read next, layout.MeetsLast context (.whole text) (.year width) here ∧
    here.year width context.window = .ok (read, next) ∧ read.value = value

section Run

variable {fields : Fields} {stop : ByteCursor}
  (run : layout.items.foldlM (layout.scanItem context) ({}, .whole text) = .ok (fields, stop))

include run

theorem exists_lastLabel (era : .era ∈ layout.items) :
    ∃ common, layout.LastLabel context text common := by
  have shown : Shows layout.items .era := List.mem_map.mpr ⟨.era, era, rfl⟩
  obtain ⟨item, here, met, filled⟩ := exists_runMeetsLast run shown
  obtain rfl : item = .era := by cases item <;> first | rfl | cases filled
  obtain ⟨before, own, next, read, -⟩ := scanItem_keepsOthers.last run met
  obtain ⟨⟨found, behind⟩, named, -⟩ := bind_eq_ok_iff.mp read
  exact ⟨found.value, here, found, behind, met, named, rfl⟩

theorem LastLabel.era {common : Bool} (label : layout.LastLabel context text common) :
    fields.beforeCommonEra = !common := by
  obtain ⟨here, found, behind, met, named, rfl⟩ := label
  obtain ⟨before, own, next, read, agree⟩ := scanItem_keepsOthers.last run met
  obtain ⟨⟨again, _⟩, taken, read⟩ := bind_eq_ok_iff.mp read
  rw [named] at taken
  cases taken
  cases read
  exact agree .era rfl

theorem exists_lastYear (year : Shows layout.items .year) :
    ∃ value, layout.LastYear context text value := by
  obtain ⟨item, here, met, filled⟩ := exists_runMeetsLast run year
  obtain ⟨width, rfl⟩ : ∃ width, item = .year width := by
    cases item <;> first | exact ⟨_, rfl⟩ | cases filled
  obtain ⟨before, own, next, read, -⟩ := scanItem_keepsOthers.last run met
  obtain ⟨⟨found, behind⟩, counted, -⟩ := bind_eq_ok_iff.mp read
  exact ⟨found.value, width, here, found, behind, met, counted, rfl⟩

theorem LastYear.year {value : Int} (year : layout.LastYear context text value) :
    ∃ read, fields.year = some read ∧ read.value = value := by
  obtain ⟨width, here, found, behind, met, counted, rfl⟩ := year
  obtain ⟨before, own, next, read, agree⟩ := scanItem_keepsOthers.last run met
  obtain ⟨⟨again, _⟩, taken, read⟩ := bind_eq_ok_iff.mp read
  rw [counted] at taken
  cases taken
  cases read
  exact ⟨found, agree .year rfl, rfl⟩

end Run
end Layout

/-! ### The year of the instant -/

/-- Without a zone the year of the instant is the one that was read, counted in its era. -/
theorem Fields.yearOf_instant {fields : Fields} {start : Nat} {n : Int} {read : Located Int}
    (zoneless : fields.zone = none) (held : fields.year = some read)
    (composed : fields.instant start = .ok n) :
    IsInstant n ∧
      (yearOf n).number = if fields.beforeCommonEra then 1 - read.value else read.value := by
  obtain ⟨t, checked, composed⟩ := bind_eq_ok_iff.mp composed
  obtain ⟨localTime, located, composed⟩ := bind_eq_ok_iff.mp composed
  rw [zoneless] at composed
  cases composed
  obtain ⟨civil, instant, rfl⟩ := DateTime.toInstant_eq_ok_iff.mp (locate_eq_ok_iff.mp located)
  refine ⟨instant, ?_⟩
  have year := (dateTime_eq_ok checked).1
  have same := civil.yearOf_count
  simp only [yearNumber, held] at year
  generalize (if fields.beforeCommonEra = true then 1 - read.value else read.value) = counted
    at year ⊢
  split at year
  next =>
    cases year
    exact same
  next => cases year

/-- The last label and the last year give the year of the instant. The label is the one of the era
of that year exactly if the year that was read is not negative. -/
theorem Layout.label_agrees_iff {layout : Layout} {context : ReadContext} {text : String} {n : Int}
    (era : .era ∈ layout.items) (year : Shows layout.items .year) (zoneless : .zone ∉ layout.items)
    (parsed : layout.parse context text = .ok n) :
    (∃ common, layout.LastLabel context text common) ∧
    (∃ value, layout.LastYear context text value) ∧
    ∀ common value, layout.LastLabel context text common → layout.LastYear context text value →
      (yearOf n).number = (if common then value else 1 - value) ∧
      ((common = true ↔ 1 ≤ (yearOf n).number) ↔ 0 ≤ value) := by
  obtain ⟨⟨fields, stop⟩, run, parsed⟩ := bind_eq_ok_iff.mp (scan_of_parse parsed)
  simp only at parsed
  split at parsed
  next => cases parsed
  next =>
    have unfilled : Slot.zone ∉ layout.items.filterMap Item.slot? := by
      intro filled
      obtain ⟨item, member, same⟩ := List.mem_filterMap.mp filled
      cases item <;> first | exact zoneless member | cases same
    have offsetless : fields.zone = none := scanItem_keepsOthers.run run .zone unfilled
    refine ⟨exists_lastLabel run era, exists_lastYear run year, ?_⟩
    intro common value label last
    obtain ⟨read, held, rfl⟩ := last.year run
    obtain ⟨instant, counted⟩ := Fields.yearOf_instant offsetless held parsed
    have bounds := instant.yearOf_bounds
    rw [label.era run] at counted
    cases common with
    | true =>
      have same : (yearOf n).number = read.value := counted
      refine ⟨same, ?_⟩
      simp only [true_iff]
      omega
    | false =>
      have moved : (yearOf n).number = 1 - read.value := counted
      refine ⟨moved, ?_⟩
      simp only [Bool.false_eq_true, false_iff]
      omega

/-- The label that comes last is the one that agrees with the year. -/
theorem Layout.label_agrees_behind_other :
    let layout : Layout := ⟨[.era, .literal 0, .year .greedy, .literal 0, .era], [" "]⟩
    let context : ReadContext := { window := .around 2000 }
    Item.era ∈ layout.items ∧ Shows layout.items .year ∧ Item.zone ∉ layout.items ∧
      layout.parse context "BC 2021 AD" = .ok 1609459200000000000 ∧
      layout.LastLabel context "BC 2021 AD" true ∧ layout.LastYear context "BC 2021 AD" 2021 ∧
      (yearOf 1609459200000000000).number = 2021 := by
  intro layout context
  let front : ByteCursor := .whole "BC 2021 AD"
  have first : front.name context.names.eraIndex .era = .ok (⟨false, 0⟩, front.advance 2) := by
    decide +kernel
  have space : (front.advance 2).literal (layout.literal 0) = .ok (front.advance 3) := by
    decide +kernel
  have number : (front.advance 3).year .greedy context.window
      = .ok (⟨2021, 3⟩, front.advance 7) := by decide +kernel
  have again : (front.advance 7).literal (layout.literal 0) = .ok (front.advance 8) := by
    decide +kernel
  have second : (front.advance 8).name context.names.eraIndex .era
      = .ok (⟨true, 8⟩, front.advance 10) := by decide +kernel
  have behindLabel : [Item.era, .literal 0].foldlM (layout.scanItem context) ({}, front)
      = .ok ({ beforeCommonEra := true }, front.advance 3) := by
    simp only [List.foldlM_cons, List.foldlM_nil, scanItem, first, space, bind, Except.bind, pure,
      Except.pure, Bool.not_false]
  have behindYear : [Item.era, .literal 0, .year .greedy, .literal 0].foldlM
      (layout.scanItem context) ({}, front)
        = .ok ({ beforeCommonEra := true, year := some ⟨2021, 3⟩ }, front.advance 8) := by
    simp only [List.foldlM_cons, List.foldlM_nil, scanItem, first, space, number, again, bind,
      Except.bind, pure, Except.pure, Bool.not_false]
  have era : Item.era ∈ layout.items := by decide
  have year : Shows layout.items .year := by decide
  have zoneless : Item.zone ∉ layout.items := by decide
  have parsed : layout.parse context "BC 2021 AD" = .ok 1609459200000000000 := by decide +kernel
  have label : layout.LastLabel context "BC 2021 AD" true :=
    ⟨_, _, _, ⟨_, [], _, rfl, behindYear, by simp⟩, second, rfl⟩
  have last : layout.LastYear context "BC 2021 AD" 2021 :=
    ⟨_, _, _, _, ⟨_, [.literal 0, .era], _, rfl, behindLabel, by decide⟩, number, rfl⟩
  obtain ⟨-, -, agrees⟩ := Layout.label_agrees_iff era year zoneless parsed
  exact ⟨era, year, zoneless, parsed, label, last, (agrees true 2021 label last).1⟩

/-- A year below zero with the label of the era before the common one is accepted as the year 2021
of the common era. -/
theorem Layout.label_of_signed_year_disagrees :
    let layout : Layout := ⟨[.year .greedy, .literal 0, .era], [" "]⟩
    let context : ReadContext := { window := .around 2000 }
    Item.era ∈ layout.items ∧ Shows layout.items .year ∧ Item.zone ∉ layout.items ∧
      layout.parse context "-2020 BC" = .ok 1609459200000000000 ∧
      layout.LastLabel context "-2020 BC" false ∧ (yearOf 1609459200000000000).number = 2021 := by
  intro layout context
  let front : ByteCursor := .whole "-2020 BC"
  have number : front.year .greedy context.window = .ok (⟨-2020, 0⟩, front.advance 5) := by
    decide +kernel
  have space : (front.advance 5).literal (layout.literal 0) = .ok (front.advance 6) := by
    decide +kernel
  have label : (front.advance 6).name context.names.eraIndex .era
      = .ok (⟨false, 6⟩, front.advance 8) := by decide +kernel
  have behindYear : [Item.year .greedy, .literal 0].foldlM (layout.scanItem context) ({}, front)
      = .ok ({ year := some ⟨-2020, 0⟩ }, front.advance 6) := by
    simp only [List.foldlM_cons, List.foldlM_nil, scanItem, number, space, bind, Except.bind, pure,
      Except.pure]
  refine ⟨by decide, by decide, by decide, by decide +kernel, ?_, by decide +kernel⟩
  exact ⟨_, _, _, ⟨_, [], _, rfl, behindYear, by simp⟩, label, rfl⟩

end CivilTime
