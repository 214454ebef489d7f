import CivilTime.Instant
import CivilTime.Proofs.Calendar.DateTimes

/-!
# Operations yield instants

The count that marks a missing instant is never the result of an operation. Each operation ends in
one of few checks that let instants through and nothing else: the check of a computed count, the
composition of a date and time, and the shift of a local time by its offset. Hence the invariant of
a run of operations: from an instant, whatever succeeds or fails, one gets to an instant.
-/
namespace CivilTime

/-- What the operation gives, if anything, is an instant. -/
def YieldsInstant (result : Except TimeError Int) : Prop := ∀ n, result = .ok n → IsInstant n

/-- The operation fails with an error of the range kind. -/
def FailsOutOfRange {α : Type} (result : Except TimeError α) : Prop :=
  ∃ e, result = .error e ∧ e.kind = .range

/-- The operation gives this count if it is an instant, and fails with an error of the range kind
otherwise. -/
structure GivesExactly (result : Except TimeError Int) (exact : Int) : Prop where
  count : IsInstant exact → result = .ok exact
  refusal : ¬ IsInstant exact → FailsOutOfRange result

theorem failsOutOfRange_asInstant {n : Int} (outside : ¬ IsInstant n) :
    FailsOutOfRange (asInstant n) := ⟨_, if_neg outside, rfl⟩

namespace GivesExactly

theorem asInstant (n : Int) : GivesExactly (asInstant n) n :=
  ⟨fun instant => if_pos instant, failsOutOfRange_asInstant⟩

theorem of_outside {result : Except TimeError Int} {exact : Int} (outside : ¬ IsInstant exact)
    (failed : FailsOutOfRange result) : GivesExactly result exact :=
  ⟨fun instant => absurd instant outside, fun _ => failed⟩

end GivesExactly

namespace YieldsInstant

theorem ok {n : Int} (instant : IsInstant n) : YieldsInstant (.ok n) := by
  intro m same
  cases same
  exact instant

theorem error (e : TimeError) : YieldsInstant (.error e) := nofun

theorem checked (n : Int) (e : TimeError) :
    YieldsInstant (if IsInstant n then .ok n else .error e) := by
  split
  next instant => exact ok instant
  next => exact error e

theorem asInstant (n : Int) : YieldsInstant (asInstant n) := checked n _

theorem mapError {result : Except TimeError Int} (yields : YieldsInstant result)
    (change : TimeError → TimeError) : YieldsInstant (result.mapError change) := by
  intro n given
  cases result with
  | ok m => exact yields n given
  | error e => cases given

theorem ite {condition : Prop} [Decidable condition] {yes no : Except TimeError Int}
    (left : YieldsInstant yes) (right : YieldsInstant no) :
    YieldsInstant (if condition then yes else no) := by
  split
  · exact left
  · exact right

end YieldsInstant

/-! ### Dates and times -/

theorem DateTime.toInstant_yields (t : DateTime) : YieldsInstant t.toInstant := by
  intro n composed
  obtain ⟨-, instant, rfl⟩ := toInstant_eq_ok_iff.mp composed
  exact instant

theorem startOfYear_yields (year : Year) : YieldsInstant (startOfYear year) := .asInstant _

theorem endOfYear_yields (number : Int) : YieldsInstant (endOfYear number) :=
  .ite (.asInstant _) (.error _)

/-! ### Arithmetic and rounding -/

section Operations

variable {n : Int}

theorem addFixed_yields (n amount length : Int) : YieldsInstant (addFixed n amount length) :=
  .ite (.asInstant _) (.error _)

/-- Adding no months gives the count back unchecked, so it has to be an instant before. -/
theorem addMonths_yields (instant : IsInstant n) (months : Int) :
    YieldsInstant (addMonths n months) :=
  .ite (.ok instant) (.ite (.error _) (.ite (.error _) (.asInstant _)))

theorem addYears_yields (instant : IsInstant n) (years : Int) : YieldsInstant (addYears n years) :=
  .ite (addMonths_yields instant _) (.error _)

theorem addUnits_yields (instant : IsInstant n) (unit : TimeUnit) (amount : Int) :
    YieldsInstant (addUnits n unit amount) := by
  cases unit with
  | year => exact addYears_yields instant amount
  | month => exact addMonths_yields instant amount
  | fixed unit => exact addFixed_yields n amount unit.length

theorem floorToMultiple_yields (n length : Int) : YieldsInstant (floorToMultiple n length) :=
  .asInstant _

theorem ceilToMultiple_yields (n length : Int) : YieldsInstant (ceilToMultiple n length) :=
  .ite (.asInstant _) (.error _)

theorem floorTo_yields (n : Int) (unit : TimeUnit) : YieldsInstant (floorTo n unit) := by
  cases unit with
  | year => exact startOfYear_yields _
  | month => exact .asInstant _
  | fixed unit =>
    cases unit with
    | week => exact .asInstant _
    | _ => exact floorToMultiple_yields n _

theorem ceilTo_yields (n : Int) (unit : TimeUnit) : YieldsInstant (ceilTo n unit) := by
  cases unit with
  | year => exact endOfYear_yields _
  | month => exact .asInstant _
  | fixed unit =>
    cases unit with
    | week => exact .asInstant _
    | _ => exact ceilToMultiple_yields n _

end Operations

/-! ### Reading -/

theorem Fields.instant_yields (fields : Fields) (start : Nat) :
    YieldsInstant (fields.instant start) := by
  intro n given
  obtain ⟨t, -, given⟩ := bind_eq_ok_iff.mp given
  obtain ⟨localTime, composed, given⟩ := bind_eq_ok_iff.mp given
  -- Without a zone the local time is the result, so it has to be an instant itself.
  have instant := t.toInstant_yields localTime (locate_eq_ok_iff.mp composed)
  split at given
  · cases given
    exact instant
  -- The shift by the offset of the zone has a check of its own.
  · exact YieldsInstant.checked _ _ n given

namespace Layout

theorem scan_yields (layout : Layout) (context : ReadContext) (start : ByteCursor) :
    YieldsInstant (layout.scan context start) := by
  intro n read
  obtain ⟨⟨fields, stop⟩, -, read⟩ := bind_eq_ok_iff.mp read
  exact YieldsInstant.ite (.error _) (fields.instant_yields start.position) n read

theorem parseSpan_yields (layout : Layout) (context : ReadContext) (text : String)
    (start stop : Nat) : YieldsInstant (layout.parseSpan context text start stop) := by
  simp only [parseSpan]
  split
  -- Errors are located in the text, instants are left as they are.
  · exact (layout.scan_yields context _).mapError _
  · exact .error _

end Layout

/-! ### Runs -/

namespace Instant

/-- What can be done to an instant. A count is given in 64 bits. -/
inductive Step where
  | ofNanos (n : Int) (representable : Representable n)
  | ofText (text : String) (catalogue : Zone.Catalogue)
  | add (unit : TimeUnit) (amount : Int)
  | floor (unit : TimeUnit)
  | ceil (unit : TimeUnit)

def Step.apply (i : Instant) : Step → Except TimeError Instant
  | ofNanos n _ => Instant.ofNanos n
  | ofText text catalogue => Instant.ofText text catalogue
  | add unit amount => i.add unit amount
  | floor unit => i.floor unit
  | ceil unit => i.ceil unit

/-- A step that fails keeps the instant. -/
def step (i : Instant) (step : Step) : Instant :=
  match step.apply i with
  | .ok next => next
  | .error _ => i

def run (i : Instant) (steps : List Step) : Instant := steps.foldl step i

theorem present_eq_ok {i : Instant} {n : Int} (present : i.present = .ok n) : n = i.nanos := by
  unfold Instant.present at present
  split at present
  · cases present
  · cases present
    rfl

theorem ofNanos_isInstant {i : Instant} {n : Int} (representable : Representable n)
    (made : ofNanos n = .ok i) : IsInstant i.nanos := by
  unfold ofNanos at made
  split at made
  next => cases made
  next other =>
    cases made
    exact isInstant_iff.mpr ⟨representable, other⟩

theorem apply_isInstant {i next : Instant} {step : Step} (instant : IsInstant i.nanos)
    (applied : step.apply i = .ok next) : IsInstant next.nanos := by
  cases step with
  | ofNanos n representable => exact ofNanos_isInstant representable applied
  | ofText text catalogue =>
    obtain ⟨n, read, applied⟩ := bind_eq_ok_iff.mp applied
    cases applied
    exact Layout.parseSpan_yields _ _ _ _ _ n read
  | add unit amount =>
    obtain ⟨n, present, applied⟩ := bind_eq_ok_iff.mp applied
    obtain ⟨m, added, applied⟩ := bind_eq_ok_iff.mp applied
    cases applied
    exact addUnits_yields (present_eq_ok present ▸ instant) unit amount m added
  -- Rounding ends in a check whatever it starts from.
  | floor unit =>
    obtain ⟨n, -, applied⟩ := bind_eq_ok_iff.mp applied
    obtain ⟨m, floored, applied⟩ := bind_eq_ok_iff.mp applied
    cases applied
    exact floorTo_yields n unit m floored
  | ceil unit =>
    obtain ⟨n, -, applied⟩ := bind_eq_ok_iff.mp applied
    obtain ⟨m, ceiled, applied⟩ := bind_eq_ok_iff.mp applied
    cases applied
    exact ceilTo_yields n unit m ceiled

theorem step_isInstant {i : Instant} (instant : IsInstant i.nanos) (step : Step) :
    IsInstant (i.step step).nanos := by
  unfold Instant.step
  split
  next next applied => exact apply_isInstant instant applied
  next => exact instant

theorem run_isInstant {i : Instant} (instant : IsInstant i.nanos) (steps : List Step) :
    IsInstant (i.run steps).nanos := by
  induction steps generalizing i with
  | nil => exact instant
  | cons step steps ih => exact ih (step_isInstant instant step)

/-! ### Missing instants -/

theorem absent_present : absent.present = fail .absent := rfl

/-- What starts from a missing instant fails before it computes anything. -/
theorem failsOutOfRange_of_absent {α : Type} (next : Int → Except TimeError α) :
    FailsOutOfRange (absent.present >>= next) := ⟨_, rfl, rfl⟩

/-- Two operands are read one after the other, and the first may be there. -/
theorem unitsUntil_absent (i : Instant) (unit : TimeUnit) :
    FailsOutOfRange (i.unitsUntil absent unit) := by
  cases present : i.present with
  | error e =>
    refine ⟨e, by simp only [unitsUntil, present]; rfl, ?_⟩
    unfold Instant.present at present
    split at present
    · cases present
      rfl
    · cases present
  | ok n =>
    refine ⟨_, by simp only [unitsUntil, present, absent_present]; rfl, rfl⟩

/-- No run from an instant, no operation on instants and no reading of a text ever gives the count
that marks a missing instant, and a missing instant takes part in no operation. -/
theorem absent_never_produced :
    (∀ (i : Instant) (steps : List Step), IsInstant i.nanos → IsInstant (i.run steps).nanos) ∧
    (∀ n, IsInstant n →
      (∀ amount length, YieldsInstant (addFixed n amount length)) ∧
      (∀ amount, YieldsInstant (addDays n amount) ∧ YieldsInstant (addMonths n amount) ∧
        YieldsInstant (addYears n amount)) ∧
      (∀ unit amount, YieldsInstant (addUnits n unit amount)) ∧
      (∀ weekday, YieldsInstant (toNextOrSameWeekday n weekday) ∧
        YieldsInstant (toPreviousOrSameWeekday n weekday)) ∧
      (∀ round ∈ [floorDay, floorWeek, floorMonth, floorYear, ceilDay, ceilWeek, ceilMonth,
        ceilYear], YieldsInstant (round n)) ∧
      ∀ unit, YieldsInstant (floorTo n unit) ∧ YieldsInstant (ceilTo n unit)) ∧
    (∀ year, YieldsInstant (startOfYear year)) ∧
    (∀ number, YieldsInstant (endOfYear number)) ∧
    (∀ t : DateTime, YieldsInstant t.toInstant) ∧
    (∀ (layout : Layout) context text, YieldsInstant (layout.parse context text) ∧
      ∀ start stop, YieldsInstant (layout.parseSpan context text start stop)) ∧
    ∀ unit, (∀ amount, FailsOutOfRange (absent.add unit amount)) ∧
      FailsOutOfRange (absent.floor unit) ∧ FailsOutOfRange (absent.ceil unit) ∧
      ∀ other, FailsOutOfRange (absent.unitsUntil other unit) ∧
        FailsOutOfRange (other.unitsUntil absent unit) := by
  refine ⟨?runs, ?operations, ?starts, ?ends, ?composition, ?reading, ?missing⟩
  case runs => exact fun i steps instant => run_isInstant instant steps
  case operations =>
    intro n instant
    refine ⟨addFixed_yields n, ?_, addUnits_yields instant, ?_, ?_, ?_⟩
    · exact fun amount => ⟨addFixed_yields n amount _, addMonths_yields instant amount,
        addYears_yields instant amount⟩
    · exact fun weekday => ⟨addFixed_yields n _ _, addFixed_yields n _ _⟩
    · simp only [List.forall_mem_cons, List.not_mem_nil, false_imp_iff, implies_true, and_true]
      exact ⟨floorTo_yields n (.fixed .day), floorTo_yields n (.fixed .week),
        floorTo_yields n .month, floorTo_yields n .year, .asInstant _,
        ceilTo_yields n (.fixed .week), ceilTo_yields n .month, ceilTo_yields n .year⟩
    · exact fun unit => ⟨floorTo_yields n unit, ceilTo_yields n unit⟩
  case starts => exact startOfYear_yields
  case ends => exact endOfYear_yields
  case composition => exact DateTime.toInstant_yields
  case reading =>
    intro layout context text
    exact ⟨layout.parseSpan_yields context text _ _, layout.parseSpan_yields context text⟩
  case missing =>
    intro unit
    refine ⟨fun amount => failsOutOfRange_of_absent _, failsOutOfRange_of_absent _,
      failsOutOfRange_of_absent _, ?_⟩
    exact fun other => ⟨failsOutOfRange_of_absent _, unitsUntil_absent other unit⟩

/-- The first instant stays when it is lowered, as that fails, and goes on from the floor of its
next day. -/
theorem absent_not_produced_from_start :
    IsInstant (minNanos + 1) ∧
    ((⟨minNanos + 1⟩ : Instant).run [.add (.fixed .nanosecond) (-1), .floor .year,
      .ofNanos minNanos (by decide)]).nanos = minNanos + 1 ∧
    IsInstant ((⟨minNanos + 1⟩ : Instant).run [.add (.fixed .day) 1, .floor (.fixed .day)]).nanos ∧
    FailsOutOfRange (absent.add (.fixed .day) 1) := by
  have start : IsInstant (minNanos + 1) := by decide
  obtain ⟨runs, -, -, -, -, -, missing⟩ := absent_never_produced
  exact ⟨start, by decide, runs ⟨minNanos + 1⟩ _ start, (missing (.fixed .day)).1 1⟩

end Instant
end CivilTime
