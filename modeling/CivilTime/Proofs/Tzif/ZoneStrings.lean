import CivilTime.Proofs.Tzif.SwitchDays

/-!
# Zone strings

What the reader of zone strings admits: days in the ranges of their forms and times of less than a
week. Each part of the reader yields values of its own range, whatever the bytes are.
-/
namespace CivilTime.Tzif

namespace Reader

/-- Whatever the reader yields has the property. -/
def Yields {α : Type} (reader : Reader α) (property : α → Prop) : Prop :=
  ∀ bytes value rest, reader.run bytes = some (value, rest) → property value

namespace Yields

variable {α β : Type} {reader other : Reader α} {property : α → Prop} {next : α → Reader β}
  {final : β → Prop}

theorem any (reader : Reader α) : Yields reader fun _ => True := fun _ _ _ _ => trivial

theorem of_pure {value : α} (holds : property value) : Yields (pure value) property := by
  intro bytes value rest read
  cases read
  exact holds

theorem bind (first : Yields reader property)
    (second : ∀ value, property value → Yields (next value) final) :
    Yields (reader >>= next) final := by
  intro bytes value rest read
  rw [StateT.run_bind] at read
  obtain ⟨⟨value, rest⟩, firstRead, nextRead⟩ := Option.bind_eq_some_iff.mp read
  exact second value (first _ _ _ firstRead) _ _ _ nextRead

/-- What is read first may be anything. -/
theorem after (second : ∀ value, Yields (next value) final) : Yields (reader >>= next) final :=
  (any reader).bind fun value _ => second value

theorem ite {condition : Prop} [Decidable condition] (left : Yields reader property)
    (right : Yields other property) : Yields (if condition then reader else other) property := by
  split
  · exact left
  · exact right

theorem of_guard (condition : Prop) [Decidable condition] :
    Yields (guard condition) fun _ => condition := by
  intro bytes value rest read
  by_cases holds : condition
  · exact holds
  · rw [guard, if_neg holds] at read
    cases read

end Yields
end Reader

open Reader

/-! ### Numbers and days -/

namespace PosixZone

theorem numberIn_yields (least greatest : Nat) :
    Yields (numberIn least greatest) fun n => least ≤ n ∧ n ≤ greatest :=
  Yields.after fun _ => (Yields.of_guard _).bind fun _ range => Yields.of_pure range

theorem sixtieths_yields : Yields sixtieths fun n => 0 ≤ n ∧ n ≤ 59 :=
  Yields.after fun _ => Yields.ite (numberIn_yields 0 59) (Yields.of_pure (by decide))

theorem duration_yields (maxHours : Nat) :
    Yields (duration maxHours) fun seconds =>
      -(maxHours * 3600 + 3599) ≤ seconds ∧ seconds ≤ maxHours * 3600 + 3599 := by
  refine Yields.after fun negative => ?_
  extract_lets digits
  have kept : Yields (digits ()) fun seconds =>
      -(maxHours * 3600 + 3599) ≤ seconds ∧ seconds ≤ maxHours * 3600 + 3599 := by
    refine (numberIn_yields 0 maxHours).bind fun hours few => ?_
    refine sixtieths_yields.bind fun minutes _ => ?_
    refine sixtieths_yields.bind fun seconds _ => ?_
    exact Yields.ite (Yields.of_pure (by omega)) (Yields.of_pure (by omega))
  exact Yields.ite (Yields.after fun _ => kept) kept

theorem switchDay_yields : Yields switchDay SwitchDay.Valid := by
  refine Yields.after fun _ => Yields.ite ?_ (Yields.after fun _ => Yields.ite ?_ ?_)
  · refine (numberIn_yields 1 12).bind fun month months => Yields.after fun _ => ?_
    refine (numberIn_yields 1 5).bind fun week weeks => Yields.after fun _ => ?_
    exact (numberIn_yields 0 6).bind fun weekday weekdays =>
      Yields.of_pure ⟨months, weeks, weekdays.2⟩
  · exact (numberIn_yields 1 365).bind fun day days => Yields.of_pure days
  · exact (numberIn_yields 0 365).bind fun day days => Yields.of_pure days.2

end PosixZone

/-! ### Dates -/

/-- The day is in the range of its form, and the time is of a week at most. -/
structure SwitchDate.Valid (date : SwitchDate) : Prop where
  day : date.day.Valid
  time : -(7 * secondsPerDay) ≤ date.time ∧ date.time ≤ 7 * secondsPerDay

structure DaylightSaving.Valid (daylight : DaylightSaving) : Prop where
  start : daylight.start.Valid
  finish : daylight.finish.Valid

namespace PosixZone

/-- The dates, if there are any, are in the ranges of their forms. -/
def Valid (zone : PosixZone) : Prop := ∀ daylight ∈ zone.daylight, DaylightSaving.Valid daylight

theorem switchDate_yields : Yields switchDate SwitchDate.Valid := by
  refine switchDay_yields.bind fun day valid => Yields.after fun _ => ?_
  extract_lets timed
  have kept : ∀ time, -(7 * secondsPerDay) ≤ time ∧ time ≤ 7 * secondsPerDay →
      Yields (timed time) SwitchDate.Valid := fun time short => Yields.of_pure ⟨valid, short⟩
  refine Yields.ite ((duration_yields 167).bind fun time short => kept time ?_)
    (kept 7200 (by decide))
  simp only [secondsPerDay]
  omega

theorem daylightSaving_yields (standard : Int) :
    Yields (daylightSaving standard) DaylightSaving.Valid := by
  refine Yields.after fun _ => Yields.after fun _ => ?_
  extract_lets dated
  have kept : ∀ offset, Yields (dated offset) DaylightSaving.Valid := by
    intro offset
    refine Yields.after fun _ => switchDate_yields.bind fun start startValid => ?_
    refine Yields.after fun _ => switchDate_yields.bind fun finish finishValid => ?_
    exact Yields.of_pure ⟨startValid, finishValid⟩
  exact Yields.ite (Yields.after fun _ => kept _) (kept _)

theorem read_yields : Yields read Valid := by
  refine Yields.after fun _ => Yields.after fun offset => Yields.after fun _ => Yields.ite ?_ ?_
  · refine (daylightSaving_yields offset).bind fun daylight valid => Yields.of_pure ?_
    rintro _ ⟨⟩
    exact valid
  · exact Yields.of_pure nofun

/-- Whatever a text is, the zone that is read of it is in range. -/
theorem valid_of_ofText? {text : String} {zone : PosixZone} (found : ofText? text = some zone) :
    zone.Valid := by
  obtain ⟨⟨_, rest⟩, read, rfl⟩ := Option.map_eq_some_iff.mp found
  exact read_yields _ _ _ read

end PosixZone

end CivilTime.Tzif
