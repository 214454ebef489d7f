import CivilTime.Layout.Fields

/-!
# Places of what is read

Fields keep the places that their values were read from, and nothing but the place of an error
depends on them. So fields with other places give the same instant, or fail for the same cause at
the other place.
-/
namespace CivilTime

def TimeError.relocate (place : Nat → Nat) (e : TimeError) : TimeError :=
  { e with position := e.position.map place }

def Located.relocate {α : Type} (place : Nat → Nat) (read : Located α) : Located α :=
  { read with position := place read.position }

def Fields.relocate (place : Nat → Nat) (fields : Fields) : Fields where
  beforeCommonEra := fields.beforeCommonEra
  year := fields.year.map (·.relocate place)
  number := fun field => (fields.number field).map (·.relocate place)
  hour := fields.hour.map fun (cycle, read) => (cycle, read.relocate place)
  pm := fields.pm
  zone := fields.zone.map (·.relocate place)

/-- The result, changed where it succeeds, and with its error at the other place where it fails. -/
def moved {α β : Type} (place : Nat → Nat) (move : α → β) (result : Except TimeError α) :
    Except TimeError β :=
  (result.map move).mapError (·.relocate place)

section Moved

variable {α β γ δ : Type} {place : Nat → Nat}

@[simp]
theorem moved_ok (move : α → β) (a : α) : moved place move (.ok a) = .ok (move a) := rfl

@[simp]
theorem moved_error (move : α → β) (e : TimeError) :
    moved place move (.error e) = .error (e.relocate place) := rfl

/-- Two steps commute with a move if each of them does. -/
theorem moved_bind {move : α → β} {moveRest : γ → δ} {first : Except TimeError α}
    {next : α → Except TimeError γ} {movedNext : β → Except TimeError δ}
    (rest : ∀ a, movedNext (move a) = moved place moveRest (next a)) :
    moved place move first >>= movedNext = moved place moveRest (first >>= next) := by
  cases first with
  | error e => rfl
  | ok a => exact rest a

theorem locate_relocate (position : Nat) (result : Except TimeError α) :
    locate (place position) result = moved place id (locate position result) := by
  cases result <;> rfl

end Moved

namespace Fields

variable {fields : Fields} {place : Nat → Nat}

theorem setNumber_relocate (fields : Fields) (field : NumberField) (read : Located Int) :
    (fields.setNumber field read).relocate place
      = (fields.relocate place).setNumber field (read.relocate place) := by
  simp only [setNumber, relocate, apply_ite (Option.map _), Option.map_some]

theorem yearNumber_relocate :
    (fields.relocate place).yearNumber = moved place id fields.yearNumber := by
  cases held : fields.year with
  | none => simp only [yearNumber, relocate, held, Option.map_none, moved_ok, id]
  | some read =>
    simp only [yearNumber, relocate, held, Option.map_some, Located.relocate]
    generalize (if fields.beforeCommonEra = true then 1 - read.value else read.value) = year
    by_cases inRange : IsYear year
    · simp only [if_pos inRange, moved_ok, id]
    · simp only [if_neg inRange]
      rfl

theorem part_relocate (field : NumberField) (least greatest : Nat) :
    (fields.relocate place).part field least greatest
      = moved place id (fields.part field least greatest) := by
  cases held : fields.number field with
  | none => simp only [part, relocate, held, Option.map_none, moved_ok, id]
  | some read =>
    simp only [part, relocate, held, Option.map_some, Located.relocate]
    by_cases inside : (least : Int) ≤ read.value ∧ read.value ≤ greatest
    · simp only [if_pos inside, moved_ok, id]
    · simp only [if_neg inside]
      rfl

theorem hourOfDay_relocate :
    (fields.relocate place).hourOfDay = moved place id fields.hourOfDay := by
  cases held : fields.hour with
  | none => simp only [hourOfDay, relocate, held, Option.map_none, moved_ok, id]
  | some hour =>
    obtain ⟨cycle, read⟩ := hour
    simp only [hourOfDay, relocate, held, Option.map_some, Located.relocate]
    generalize (if (fields.pm == some true &&
      (cycle.length == 12 || decide (read.value < 12))) = true
        then read.value + 12 else read.value) = hour
    by_cases inDay : 0 ≤ hour ∧ hour ≤ 23
    · simp only [if_pos inDay, moved_ok, id]
    · simp only [if_neg inDay]
      rfl

theorem dateTime_relocate : (fields.relocate place).dateTime = moved place id fields.dateTime := by
  simp only [dateTime, yearNumber_relocate, part_relocate, hourOfDay_relocate]
  -- All nine checks commute with the move, and so does their sequence.
  refine moved_bind fun year => moved_bind fun month => moved_bind fun day => ?_
  refine moved_bind fun hour => moved_bind fun minute => moved_bind fun second => ?_
  refine moved_bind fun millisecond => moved_bind fun microsecond => moved_bind fun nanosecond => ?_
  rfl

theorem instant_relocate (start : Nat) :
    (fields.relocate place).instant (place start) = moved place id (fields.instant start) := by
  have position : ((fields.relocate place).year.map (·.position)).getD (place start)
      = place ((fields.year.map (·.position)).getD start) := by
    cases held : fields.year <;> simp only [relocate, held, Option.map_none, Option.map_some,
      Option.getD_none, Option.getD_some, Located.relocate]
  simp only [instant, dateTime_relocate, position, locate_relocate]
  refine moved_bind fun t => moved_bind fun localTime => ?_
  cases held : fields.zone with
  | none => simp only [relocate, held, Option.map_none]; rfl
  | some zone =>
    simp only [relocate, held, Option.map_some, Located.relocate, id]
    generalize localTime - offsetAt zone.value localTime t.year = n
    by_cases instant : IsInstant n
    · simp only [if_pos instant]
      rfl
    · simp only [if_neg instant]
      rfl

end Fields
end CivilTime
