import CivilTime.Proofs.Zone.HistoricTables
import CivilTime.Tzif.Description

/-!
# The offsets that a file tells

The transitions of a block ascend, so those that are too early come first and those that are too
late last. What is kept between them has the offset that the early ones left in front. A look-up in
the kept transitions therefore ends at the last transition of the whole block that an instant has
reached, or in front of all of them.
-/
namespace CivilTime

/-- The transitions of a description, none with one offset. -/
def Zone.Description.transitions : Description → List Int
  | fixed _ => []
  | table t => t.transitions

namespace Tzif

open Zone (Description TransitionTable Timeline History AnnualRule passed passed_cons)

/-! ### Reached transitions -/

variable {α : Type}

/-- The last of the given transitions that is at or before an instant, in the order given. -/
def lastReached (transitions : List (Int × α)) (n : Int) : Option (Int × α) :=
  (transitions.filter fun transition => transition.1 * nsPerSecond ≤ n).getLast?

/-- The local time type in force at an instant: the one that the last transition reached starts, or
the first one. -/
def Block.typeAt (block : Block) (n : Int) : Option LocalTimeType :=
  match lastReached (block.transitionTimes.zip block.transitionTypes) n with
  | some (_, place) => block.types[place]?
  | none => block.types.head?

theorem lastReached_append (xs ys : List (Int × α)) (n : Int) :
    lastReached (xs ++ ys) n = (lastReached ys n).or (lastReached xs n) := by
  rw [lastReached, List.filter_append, List.getLast?_append]
  rfl

theorem lastReached_cons (transition : Int × α) (later : List (Int × α)) (n : Int) :
    lastReached (transition :: later) n
      = (lastReached later n).or
          (if transition.1 * nsPerSecond ≤ n then some transition else none) := by
  rw [← List.singleton_append, lastReached_append]
  by_cases reached : transition.1 * nsPerSecond ≤ n <;> simp [lastReached, reached]

theorem lastReached_of_reached {transitions : List (Int × α)} {n : Int}
    (reached : ∀ transition ∈ transitions, transition.1 * nsPerSecond ≤ n) :
    lastReached transitions n = transitions.getLast? := by
  rw [lastReached, List.filter_eq_self.mpr]
  intro transition member
  exact decide_eq_true (reached transition member)

theorem lastReached_of_ahead {transitions : List (Int × α)} {n : Int}
    (ahead : ∀ transition ∈ transitions, n < transition.1 * nsPerSecond) :
    lastReached transitions n = none := by
  rw [lastReached, List.filter_eq_nil_iff.mpr, List.getLast?_nil]
  intro transition member
  simpa using ahead transition member

/-- Transitions in ascending order. -/
abbrev Ascending (transitions : List (Int × α)) : Prop :=
  transitions.Pairwise fun early late => early.1 ≤ late.1

theorem ascending_zip {times : List Int} (ascending : times.Pairwise (· ≤ ·)) (values : List α) :
    Ascending (times.zip values) := by
  induction times generalizing values with
  | nil => exact List.Pairwise.nil
  | cons time times ih =>
    obtain ⟨after, ascending⟩ := List.pairwise_cons.mp ascending
    cases values with
    | nil => exact List.Pairwise.nil
    | cons value values =>
      refine List.pairwise_cons.mpr ⟨?_, ih ascending values⟩
      intro other member
      exact after other.1 (List.of_mem_zip member).1

/-- Counting the transitions reached finds the offset that the last one leaves. -/
theorem offset_passed {first : Int} {transitions : List (Int × Int)} (ascending : Ascending transitions)
    (n : Int) :
    (first :: transitions.map (·.2))[passed (transitions.map (·.1 * nsPerSecond)) n]?
      = some ((lastReached transitions n).elim first (·.2)) := by
  induction transitions generalizing first with
  | nil => rfl
  | cons transition later ih =>
    obtain ⟨after, ascending⟩ := List.pairwise_cons.mp ascending
    rw [List.map_cons, List.map_cons, passed_cons]
    split
    · next reached =>
      rw [List.getElem?_cons_succ, ih ascending, lastReached_cons, if_pos reached]
      cases lastReached later n with
      | none => rfl
      | some last => rfl
    · next ahead =>
      rw [lastReached_of_ahead]
      · rfl
      · intro other member
        rcases List.mem_cons.mp member with rfl | member
        · omega
        · have := after other member
          simp only [nsPerSecond] at ahead ⊢
          omega

/-! ### Kept transitions -/

theorem checkOffset_eq_ok {seconds offset : Int} (checked : checkOffset seconds = .ok offset) :
    offset = seconds := by
  unfold checkOffset at checked
  split at checked
  · cases checked
    rfl
  · cases checked

namespace Block

variable {block : Block}

theorem offsetOf_eq_ok {place : Nat} {offset : Int} (found : block.offsetOf place = .ok offset) :
    ∃ type, block.types[place]? = some type ∧ type.offset = offset := by
  unfold offsetOf at found
  split at found
  · cases found
  · next type present => exact ⟨type, present, (checkOffset_eq_ok found).symm⟩

/-- A transition stands for one of the block. -/
def Tells (block : Block) (source : Int × Nat) (transition : Int × Int) : Prop :=
  transition.1 = source.1 ∧ block.offsetOf source.2 = .ok transition.2

/-- How ascending transitions are kept: those that are too early leave the offset `first`, those that
are too late nothing, and those between them stay. -/
structure Keeps (block : Block) (initial : Int) (early within late : List (Int × Nat))
    (first : Int) (transitions : List (Int × Int)) : Prop where
  early_lt : ∀ source ∈ early, source.1 < firstTransition
  within_range : ∀ source ∈ within, firstTransition ≤ source.1 ∧ source.1 ≤ lastTransition
  lt_late : ∀ source ∈ late, lastTransition < source.1
  first_of_nil : early = [] → first = initial
  first_of_last : ∀ source ∈ early.getLast?, block.offsetOf source.2 = .ok first
  tells : List.Forall₂ block.Tells within transitions

theorem kept_eq_ok {initial first : Int} {sources : List (Int × Nat)}
    {transitions : List (Int × Int)} (ascending : Ascending sources)
    (kept : block.kept initial sources = .ok (first, transitions)) :
    ∃ early within late, sources = early ++ within ++ late ∧
      block.Keeps initial early within late first transitions := by
  induction sources generalizing initial first transitions with
  | nil =>
    cases kept
    exact ⟨[], [], [], rfl, by simp, by simp, by simp, fun _ => rfl, by simp, .nil⟩
  | cons source later ih =>
    obtain ⟨time, place⟩ := source
    obtain ⟨after, ascending⟩ := List.pairwise_cons.mp ascending
    rw [Block.kept] at kept
    obtain ⟨offset, checked, kept⟩ := bind_eq_ok_iff.mp kept
    simp only at kept
    split at kept
    · next tooEarly =>
      obtain ⟨early, within, late, rfl, keeps⟩ := ih ascending kept
      refine ⟨(time, place) :: early, within, late, rfl,
        { keeps with early_lt := ?_, first_of_nil := by simp, first_of_last := ?_ }⟩
      · intro source member
        rcases List.mem_cons.mp member with rfl | member
        · exact tooEarly
        · exact keeps.early_lt source member
      · intro source last
        cases early with
        | nil =>
          cases last
          rw [keeps.first_of_nil rfl]
          exact checked
        | cons next early => exact keeps.first_of_last source last
    · next notEarly =>
      split at kept
      · next tooLate =>
        cases kept
        refine ⟨[], [], (time, place) :: later, rfl, by simp, by simp, ?_, fun _ => rfl, by simp,
          .nil⟩
        intro source member
        rcases List.mem_cons.mp member with rfl | member
        · exact tooLate
        · exact Int.lt_of_lt_of_le tooLate (after source member)
      · next notLate =>
        obtain ⟨rest, found, kept⟩ := bind_eq_ok_iff.mp kept
        cases kept
        obtain ⟨early, within, late, rfl, keeps⟩ := ih ascending found
        -- Nothing behind a transition that is kept is too early.
        have none : early = [] := by
          apply List.eq_nil_iff_forall_not_mem.mpr
          intro source member
          have bound := after source (by simp [member])
          have := keeps.early_lt source member
          omega
        subst none
        refine ⟨[], (time, place) :: within, late, rfl,
          { keeps with within_range := ?_, tells := .cons ⟨rfl, checked⟩ keeps.tells }⟩
        intro source member
        rcases List.mem_cons.mp member with rfl | member
        · exact ⟨Int.not_lt.mp notEarly, Int.not_lt.mp notLate⟩
        · exact keeps.within_range source member

theorem times_tells {within : List (Int × Nat)} {transitions : List (Int × Int)}
    (tells : List.Forall₂ block.Tells within transitions) :
    transitions.map (·.1) = within.map (·.1) := by
  induction tells with
  | nil => rfl
  | cons told rest ih => rw [List.map_cons, List.map_cons, told.1, ih]

/-- Transitions told one by one are reached together. -/
theorem lastReached_tells {within : List (Int × Nat)} {transitions : List (Int × Int)}
    (tells : List.Forall₂ block.Tells within transitions) (n : Int) :
    Option.Rel block.Tells (lastReached within n) (lastReached transitions n) := by
  induction tells with
  | nil => exact .none
  | @cons source transition within transitions told rest ih =>
    rw [lastReached_cons, lastReached_cons, told.1]
    generalize lastReached within n = latest at ih
    generalize lastReached transitions n = latest at ih
    cases ih with
    | some told => exact .some told
    | none =>
      split
      · exact .some told
      · exact .none

namespace Keeps

variable {initial first n : Int} {early within late : List (Int × Nat)}
  {transitions : List (Int × Int)}

/-- Once the early transitions are all reached, only those that are kept decide: the late ones never
are. -/
theorem lastReached_eq (keeps : block.Keeps initial early within late first transitions)
    (passed : ∀ source ∈ early, source.1 * nsPerSecond ≤ n) (upper : n ≤ maxNanos) :
    lastReached (early ++ within ++ late) n = (lastReached within n).or early.getLast? := by
  have ahead : lastReached late n = none := by
    apply lastReached_of_ahead
    intro source member
    have bound : 9223372036 < source.1 := keeps.lt_late source member
    simp only [maxNanos, nsPerSecond] at upper ⊢
    omega
  rw [lastReached_append, lastReached_append, ahead, lastReached_of_reached passed, Option.none_or]

theorem typeAt_of_passed (keeps : block.Keeps initial early within late first transitions)
    (sources : block.transitionTimes.zip block.transitionTypes = early ++ within ++ late)
    {head : LocalTimeType} (leads : block.types.head? = some head) (starts : head.offset = initial)
    (passed : ∀ source ∈ early, source.1 * nsPerSecond ≤ n) (upper : n ≤ maxNanos) :
    ∃ type, block.typeAt n = some type ∧
      type.offset = (lastReached transitions n).elim first (·.2) := by
  have together := lastReached_tells keeps.tells n
  rw [Block.typeAt, sources, keeps.lastReached_eq passed upper]
  generalize lastReached within n = source at together
  generalize lastReached transitions n = transition at together
  cases together with
  | some told => exact offsetOf_eq_ok told.2
  | none =>
    cases last : early.getLast? with
    | some source => exact offsetOf_eq_ok (keeps.first_of_last source last)
    | none =>
      refine ⟨head, leads, ?_⟩
      rw [starts]
      exact (keeps.first_of_nil (List.getLast?_eq_none_iff.mp last)).symm

/-- From the first transition that can be kept on, the early ones are all reached. -/
theorem typeAt (keeps : block.Keeps initial early within late first transitions)
    (sources : block.transitionTimes.zip block.transitionTypes = early ++ within ++ late)
    {head : LocalTimeType} (leads : block.types.head? = some head) (starts : head.offset = initial)
    (lower : firstTransition * nsPerSecond ≤ n) (upper : n ≤ maxNanos) :
    ∃ type, block.typeAt n = some type ∧
      type.offset = (lastReached transitions n).elim first (·.2) := by
  refine keeps.typeAt_of_passed sources leads starts ?_ upper
  intro source member
  have bound := keeps.early_lt source member
  simp only [nsPerSecond] at lower ⊢
  omega

theorem representable (keeps : block.Keeps initial early within late first transitions) :
    ∀ t ∈ transitions.map (·.1), Representable (t * nsPerSecond) := by
  rw [times_tells keeps.tells]
  intro t told
  obtain ⟨source, member, rfl⟩ := List.mem_map.mp told
  obtain ⟨lower, upper⟩ := keeps.within_range source member
  have earliest : -9223372035 ≤ source.1 := lower
  have latest : source.1 ≤ 9223372036 := upper
  simp only [Representable, minNanos, maxNanos, nsPerSecond]
  omega

end Keeps
end Block

/-! ### Descriptions -/

namespace File

theorem describeTable_eq_ok {initial : Int} {transitions : List (Int × Int)}
    {rules : List AnnualRule} {description : Description}
    (described : describeTable initial transitions rules = .ok description) :
    ∃ table : TransitionTable, description = .table table ∧ table.validate = .ok () ∧
      table.transitions = transitions.map (·.1) ∧ table.rules = rules ∧
      (transitions ≠ [] → table.offsets = initial :: transitions.map (·.2)) := by
  obtain ⟨checked, valid, described⟩ := bind_eq_ok_iff.mp described
  cases described
  refine ⟨_, rfl, valid, rfl, rfl, ?_⟩
  intro some
  cases transitions with
  | nil => contradiction
  | cons transition transitions => rfl

/-- How a description is made of the offset in front, the kept transitions and the zone string. -/
inductive DescribedAs (file : File) (first : Int) (transitions : List (Int × Int)) :
    Description → Prop
  | first (bare : file.footer = none) (empty : transitions = []) :
      DescribedAs file first transitions (.fixed first)
  | zone {zone : PosixZone} {offset : Int} (footer : file.footer = some zone)
      (empty : transitions = []) (constant : zone.daylight = none)
      (checked : checkOffset (-zone.offset) = .ok offset) :
      DescribedAs file first transitions (.fixed offset)
  | history {description : Description} (bare : file.footer = none) (nonempty : transitions ≠ [])
      (tabled : describeTable first transitions [] = .ok description) :
      DescribedAs file first transitions description
  | rules {zone : PosixZone} {rules : List AnnualRule} {description : Description}
      (footer : file.footer = some zone) (ruled : zone.rules = .ok rules)
      (saving : transitions = [] → zone.daylight.isSome)
      (tabled : describeTable first transitions rules = .ok description) :
      DescribedAs file first transitions description

theorem describe_cases {file : File} {description : Description}
    (described : file.describe = .ok description) :
    ∃ head first transitions, file.block.types.head? = some head ∧
      file.block.kept head.offset (file.block.transitionTimes.zip file.block.transitionTypes)
        = .ok (first, transitions) ∧
      file.DescribedAs first transitions description := by
  unfold describe at described
  cases leads : file.block.types.head? with
  | none =>
    simp only [leads] at described
    cases described
  | some head =>
    simp only [leads] at described
    obtain ⟨initial, checked, described⟩ := bind_eq_ok_iff.mp described
    obtain rfl := checkOffset_eq_ok checked
    obtain ⟨⟨first, transitions⟩, kept, described⟩ := bind_eq_ok_iff.mp described
    refine ⟨head, first, transitions, rfl, kept, ?_⟩
    cases footer : file.footer with
    | none =>
      simp only [footer] at described
      split at described
      · next none =>
        cases described
        exact .first footer (List.isEmpty_iff.mp none)
      · next some => exact .history footer (by simpa using some) described
    | some zone =>
      simp only [footer] at described
      split at described
      · next none =>
        obtain ⟨offset, checked, described⟩ := bind_eq_ok_iff.mp described
        cases described
        exact .zone footer (List.isEmpty_iff.mp none.1) (Option.isNone_iff_eq_none.mp none.2) checked
      · next some =>
        obtain ⟨rules, ruled, described⟩ := bind_eq_ok_iff.mp described
        refine .rules footer ruled (fun none => ?_) described
        by_contra constant
        exact some ⟨List.isEmpty_iff.mpr none, by simpa using constant⟩

/-- A description has the kept transitions, or there are none and it is one offset. -/
theorem describe_eq_ok {file : File} {description : Description}
    (described : file.describe = .ok description) :
    ∃ head first transitions, file.block.types.head? = some head ∧
      file.block.kept head.offset (file.block.transitionTimes.zip file.block.transitionTypes)
        = .ok (first, transitions) ∧
      ((transitions = [] ∧ ∃ offset, description = .fixed offset ∧
          (file.footer = none → offset = first)) ∨
        ∃ rules, describeTable first transitions rules = .ok description ∧
          (file.footer = none → rules = [] ∧ transitions ≠ [])) := by
  obtain ⟨head, first, transitions, leads, kept, made⟩ := describe_cases described
  refine ⟨head, first, transitions, leads, kept, ?_⟩
  cases made with
  | first bare none => exact .inl ⟨none, first, rfl, fun _ => rfl⟩
  | zone footer none constant checked => exact .inl ⟨none, _, rfl, by simp [footer]⟩
  | history bare some tabled => exact .inr ⟨[], tabled, fun _ => ⟨rfl, some⟩⟩
  | rules footer ruled saving tabled => exact .inr ⟨_, tabled, by simp [footer]⟩

end File

/-- A table of ascending transitions is looked up by the last one reached. -/
theorem offset_table {table : TransitionTable} {first : Int} {transitions : List (Int × Int)}
    (ascending : Ascending transitions) (times : table.transitions = transitions.map (·.1))
    (offsets : table.offsets = first :: transitions.map (·.2)) (n : Int) :
    table.history.offset (passed (table.transitions.map (· * nsPerSecond)) n)
      = (lastReached transitions n).elim first (·.2) * nsPerSecond := by
  have found : (first :: transitions.map (·.2))[passed (transitions.map (·.1 * nsPerSecond)) n]?
      = some ((lastReached transitions n).elim first (·.2)) := offset_passed ascending n
  rw [History.offset, TransitionTable.history, times, offsets, List.getElem?_map, List.map_map]
  change (Option.map _ (_ :: _)[passed (transitions.map (·.1 * nsPerSecond)) n]?).getD 0 = _
  rw [found]
  rfl

/-- The offsets of a description are the ones of the file at every instant that transitions decide:
without a zone string all of them, else those before the last transition that is kept. The range of
what can be kept is where instants begin. -/
theorem File.describe_keeps_offsets {file : File} {description : Description}
    (ascending : file.block.transitionTimes.Pairwise (· ≤ ·))
    (described : file.describe = .ok description) :
    ∃ timeline, Timeline.ofDescription description = .ok timeline ∧
      ∀ n, Representable n → -9223372035 * nsPerSecond ≤ n →
        (file.footer = none ∨ ∃ t ∈ description.transitions.getLast?, n < t * nsPerSecond) →
          ∃ type, file.block.typeAt n = some type ∧
            timeline.offsetAtUtc n = type.offset * nsPerSecond := by
  obtain ⟨head, first, transitions, leads, kept, outcome⟩ := describe_eq_ok described
  obtain ⟨early, within, late, sources, keeps⟩ :=
    Block.kept_eq_ok (ascending_zip ascending file.block.transitionTypes) kept
  rcases outcome with ⟨rfl, offset, rfl, bare⟩ | ⟨rules, tabled, bare⟩
  · refine ⟨_, rfl, ?_⟩
    rintro n ⟨-, upper⟩ lower (none | ⟨t, last, -⟩)
    · obtain ⟨type, found, same⟩ := keeps.typeAt sources leads rfl lower upper
      refine ⟨type, found, ?_⟩
      rw [same, ← bare none]
      rfl
    · cases last
  · obtain ⟨table, rfl, valid, times, rfl, offsets⟩ := describeTable_eq_ok tabled
    obtain ⟨timeline, built⟩ :=
      Timeline.ofDescription_table_ok valid (by simpa only [times] using keeps.representable)
    refine ⟨timeline, built, ?_⟩
    rintro n ⟨-, upper⟩ lower decided
    have some : transitions ≠ [] := by
      rcases decided with none | ⟨t, last, -⟩
      · exact (bare none).2
      · rintro rfl
        simp [Description.transitions, times] at last
    have historic : table.rules = [] ∨ ∃ t ∈ table.transitions.getLast?, n < t * nsPerSecond :=
      decided.imp_left fun none => (bare none).1
    obtain ⟨-, rfl⟩ :=
      Timeline.ofDescription_table_eq_ok built fun none => some (by simpa [times] using none.2)
    obtain ⟨type, found, same⟩ := keeps.typeAt sources leads rfl lower upper
    refine ⟨type, found, ?_⟩
    have sorted := (TransitionTable.validate_eq_ok valid).2.1
    rw [times] at sorted
    change table.history.offsetAtUtc n = _
    rw [TransitionTable.offsetAtUtc_historic historic,
      offset_table (List.pairwise_map.mp sorted) times (offsets some), same]

/-- A file with a transition that is too early, two at one time and one that is too late. -/
def crowdedFile : File where
  firstBlock :=
    { transitionTimes := [-9223372100, 0, 0, 9223372037]
      transitionTypes := [1, 2, 1, 2]
      types := [⟨0, false⟩, ⟨3600, true⟩, ⟨7200, true⟩] }
  secondBlock := none
  footer := none

/-- From the epoch on it is the second of the two transitions there that counts. -/
theorem File.describe_keeps_second_of_two :
    ∃ description timeline, crowdedFile.describe = .ok description ∧
      Timeline.ofDescription description = .ok timeline ∧
      timeline.offsetAtUtc 0 = 3600 * nsPerSecond := by
  have described : crowdedFile.describe
      = .ok (.table { transitions := [0, 0], offsets := [3600, 7200, 3600], rules := [] }) := rfl
  obtain ⟨timeline, built, offsets⟩ := File.describe_keeps_offsets (by decide) described
  obtain ⟨type, found, offset⟩ := offsets 0 (by decide) (by decide) (.inl rfl)
  refine ⟨_, timeline, described, built, ?_⟩
  rw [offset, Option.some.inj (found.symm.trans rfl : some type = some ⟨3600, true⟩)]

end Tzif
end CivilTime
