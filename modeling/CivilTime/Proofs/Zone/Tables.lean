import CivilTime.Zone.Timeline
import Mathlib

/-!
# Timelines of tables

A table that a timeline is built from has one offset more than transitions, and the timeline keeps
both lists in nanoseconds. Whatever is asked of the timeline, it answers with an offset of the
description.
-/
namespace CivilTime.Zone

/-- The history that a table tells, in nanoseconds. -/
def TransitionTable.history (table : TransitionTable) : History where
  transitions := table.transitions.map (· * nsPerSecond)
  offsets := table.offsets.map (· * nsPerSecond)
  localEdges := edgesFrom minNanos (table.transitions.map (· * nsPerSecond))
    (table.offsets.map (· * nsPerSecond))
  rules := table.rules

theorem TransitionTable.validate_eq_ok {table : TransitionTable} (valid : table.validate = .ok ()) :
    table.offsets.length = table.transitions.length + 1 ∧
      table.transitions.Pairwise (· ≤ ·) ∧ table.rules.forM AnnualRule.validate = .ok () := by
  unfold validate at valid
  split at valid
  · cases valid
  · next sized =>
    split at valid
    · cases valid
    · next sorted => exact ⟨not_not.mp sized, not_not.mp sorted, valid⟩

/-- Without rules, and before the last transition, the transitions decide. -/
theorem TransitionTable.offsetAtUtc_historic {table : TransitionTable} {n : Int}
    (historic : table.rules = [] ∨ ∃ t ∈ table.transitions.getLast?, n < t * nsPerSecond) :
    table.history.offsetAtUtc n
      = table.history.offset (passed (table.transitions.map (· * nsPerSecond)) n) := by
  unfold History.offsetAtUtc
  split
  · rfl
  · next last ruled =>
    rcases historic with none | ⟨t, latest, early⟩
    · rw [history, none] at ruled
      cases ruled
    · have ahead : ¬ table.history.transitions.getLast?.getD minNanos ≤ n := by
        simpa only [history, List.getLast?_map, Option.mem_def.mp latest, Option.map_some,
          Option.getD_some, Int.not_le] using early
      rw [if_neg ahead]
      rfl

namespace Timeline

/-- The instants at which clocks show a local time. -/
def instantsShowing (timeline : Timeline) (localTime : Int) : Set Int :=
  { n | Representable n ∧ n + timeline.offsetAtUtc n = localTime }

theorem instants_eq_ok {seconds nanos : List Int} (fits : instants seconds = .ok nanos) :
    nanos = seconds.map (· * nsPerSecond) := by
  induction seconds generalizing nanos with
  | nil =>
    cases fits
    rfl
  | cons t seconds ih =>
    rw [instants, List.mapM_cons] at fits
    obtain ⟨first, checked, fits⟩ := bind_eq_ok_iff.mp fits
    obtain ⟨others, rest, fits⟩ := bind_eq_ok_iff.mp fits
    cases fits
    split at checked
    · cases checked
      rw [List.map_cons, ih rest]
    · cases checked

theorem instants_ok {seconds : List Int}
    (fits : ∀ t ∈ seconds, Representable (t * nsPerSecond)) :
    instants seconds = .ok (seconds.map (· * nsPerSecond)) := by
  induction seconds with
  | nil => rfl
  | cons t seconds ih =>
    have rest := ih fun s member => fits s (List.mem_cons_of_mem t member)
    rw [instants] at rest ⊢
    rw [List.mapM_cons, if_pos (fits t List.mem_cons_self), rest]
    rfl

/-- Of a table that is valid only the transitions can be refused. -/
theorem ofDescription_table_ok {table : TransitionTable} (valid : table.validate = .ok ())
    (fits : ∀ t ∈ table.transitions, Representable (t * nsPerSecond)) :
    ∃ timeline, ofDescription (.table table) = .ok timeline := by
  simp only [ofDescription, ofTable, valid, instants_ok fits, fromSource, Except.mapError, bind,
    Except.bind]
  split
  · exact ⟨_, rfl⟩
  · exact ⟨_, rfl⟩

/-- A table with transitions or rules becomes its history. -/
theorem ofDescription_table_eq_ok {table : TransitionTable} {timeline : Timeline}
    (built : ofDescription (.table table) = .ok timeline)
    (changes : ¬ (table.rules = [] ∧ table.transitions = [])) :
    table.validate = .ok () ∧ timeline = .history table.history := by
  obtain ⟨checked, valid, built⟩ := bind_eq_ok_iff.mp built
  obtain ⟨nanos, fits, built⟩ := bind_eq_ok_iff.mp built
  obtain rfl := instants_eq_ok fits
  have kept : ¬ (table.rules.isEmpty ∧ (table.transitions.map (· * nsPerSecond)).isEmpty) := by
    simpa using changes
  simp only [if_neg kept] at built
  cases built
  exact ⟨fromSource_eq_ok_iff.mp valid, rfl⟩

end Timeline

/-! ### Offsets of descriptions -/

/-- Offsets are counted in seconds of 32 bits. -/
def IsOffset (seconds : Int) : Prop := -2147483648 ≤ seconds ∧ seconds ≤ 2147483647

instance (seconds : Int) : Decidable (IsOffset seconds) := inferInstanceAs (Decidable (_ ∧ _))

/-- The offsets that local times have by the description. -/
def Description.offsets : Description → List Int
  | .fixed offset => [offset]
  | .table t => t.offsets ++ t.rules.flatMap fun rule => [rule.offsetBefore, rule.offsetAfter]

/-- The timeline is that of a description whose offsets are counted in 32 bits. -/
def Timeline.Described (timeline : Timeline) : Prop :=
  ∃ description : Description, (∀ seconds ∈ description.offsets, IsOffset seconds) ∧
    Timeline.ofDescription description = .ok timeline

section Offsets

variable {table : TransitionTable} {P : Int → Prop}

theorem History.offsetFromRules_induction (zero : P 0)
    (offsets : ∀ offset ∈ table.history.offsets, P offset)
    (rules : ∀ rule ∈ table.rules, P rule.before ∧ P rule.after) (localTime : Int) (year : Year) :
    P (table.history.offsetFromRules localTime year) := by
  unfold offsetFromRules
  split
  next rule found => exact (rules rule (List.mem_of_find?_eq_some found)).1
  next =>
    split
    next rule last => exact (rules rule (List.mem_of_getLast? last)).2
    next =>
      cases last : table.history.offsets.getLast? with
      | none => exact zero
      | some offset => exact offsets offset (List.mem_of_getLast? last)

theorem History.offset_induction {h : History} (zero : P 0) (offsets : ∀ offset ∈ h.offsets, P offset)
    (i : Nat) : P (h.offset i) := by
  unfold offset
  cases found : h.offsets[i]? with
  | none => exact zero
  | some offset => exact offsets offset (List.mem_of_getElem? found)

theorem History.offsetBeforeCutoff_induction {h : History} (zero : P 0)
    (offsets : ∀ offset ∈ h.offsets, P offset) (localTime : Int) :
    P (h.offsetBeforeCutoff localTime) := by
  unfold offsetBeforeCutoff
  split
  next => exact offset_induction zero offsets 0
  next edge _ =>
    simp only
    split
    · exact offset_induction zero offsets (edge / 2 + 1)
    · exact offset_induction zero offsets (edge / 2)

/-- What holds of zero and of the offsets of a description holds of the offset at each local time. -/
theorem Timeline.offsetAt_induction {description : Description} {timeline : Timeline}
    (built : ofDescription description = .ok timeline) (zero : P 0)
    (offsets : ∀ seconds ∈ description.offsets, P (seconds * nsPerSecond)) (localTime : Int)
    (year : Year) : P (timeline.offsetAt localTime year) := by
  cases description with
  | fixed offset =>
    cases built
    exact offsets offset List.mem_cons_self
  | table table =>
    have listed : ∀ offset ∈ table.offsets.map (· * nsPerSecond), P offset := by
      intro offset member
      obtain ⟨seconds, given, rfl⟩ := List.mem_map.mp member
      exact offsets seconds (List.mem_append_left _ given)
    by_cases changes : table.rules = [] ∧ table.transitions = []
    -- Without changes the first offset stays for good.
    · obtain ⟨checked, -, built⟩ := bind_eq_ok_iff.mp built
      obtain ⟨nanos, fits, built⟩ := bind_eq_ok_iff.mp built
      obtain rfl := instants_eq_ok fits
      simp only [changes.1, changes.2, List.map_nil, List.isEmpty_nil, and_self, if_true] at built
      cases built
      cases first : (table.offsets.map (· * nsPerSecond)).head? with
      | none => exact zero
      | some offset => exact listed offset (List.mem_of_head? first)
    · obtain ⟨-, rfl⟩ := ofDescription_table_eq_ok built changes
      have ruled : ∀ rule ∈ table.rules, P rule.before ∧ P rule.after := by
        intro rule member
        have both (seconds : Int) (own : seconds ∈ [rule.offsetBefore, rule.offsetAfter]) :
            P (seconds * nsPerSecond) :=
          offsets seconds (List.mem_append_right _ (List.mem_flatMap.mpr ⟨rule, member, own⟩))
        exact ⟨both _ List.mem_cons_self, both _ (List.mem_cons_of_mem _ List.mem_cons_self)⟩
      simp only [offsetAt, History.offsetAt]
      split
      · exact History.offsetFromRules_induction zero listed ruled localTime year
      · exact History.offsetBeforeCutoff_induction zero listed localTime

end Offsets

/-- Offsets of 32-bit seconds leave room between any of them and the ends of the range. -/
theorem Timeline.Described.isInstant_sub {timeline : Timeline} (described : timeline.Described)
    (localTime : Int) (year : Year) : IsInstant (0 - timeline.offsetAt localTime year) := by
  obtain ⟨description, fits, built⟩ := described
  apply offsetAt_induction (P := fun offset => IsInstant (0 - offset)) built
  · decide
  · intro seconds member
    have bounds := fits seconds member
    simp only [IsOffset, IsInstant, minNanos, maxNanos, nsPerSecond] at bounds ⊢
    omega

end CivilTime.Zone
