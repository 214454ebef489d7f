import CivilTime.Proofs.Tzif.OffsetHistory
import CivilTime.Proofs.Tzif.ZoneStrings
import CivilTime.Proofs.Zone.LatestTransitions

/-!
# The transitions that a description keeps

A table keeps the transitions whose time is representable in nanoseconds, in their order, and starts
from the type that the earlier ones leave behind. Where none is representable the zone string tells
all, and the table starts from the offset in front of its first rule.

The first second that is representable is an exception. The reader of files leaves a transition at
that second out, like an earlier one.
-/
namespace CivilTime.Tzif

open Reader
open Zone (Description TransitionTable AnnualRule)

/-! ### Blocks that have been read -/

/-- The times ascend, and each transition has its type. -/
structure Block.WellFormed (block : Block) : Prop where
  ascending : block.transitionTimes.Pairwise (· ≤ ·)
  paired : block.transitionTimes.length = block.transitionTypes.length

theorem Reader.times_yields {α : Type} (read : Reader α) (count : Nat) :
    Yields (times read count) fun as => as.length = count := by
  induction count with
  | zero => exact Yields.of_pure rfl
  | succ count ih =>
    exact Yields.after fun a => ih.bind fun as length => Yields.of_pure (congrArg (· + 1) length)

theorem Block.read_yields (timeSize : Nat) (header : Header) :
    Yields (Block.read timeSize header) Block.WellFormed := by
  refine (times_yields _ _).bind fun transitionTimes times => Yields.after fun _ => ?_
  refine (Yields.of_guard _).bind fun _ ascending => ?_
  refine (times_yields _ _).bind fun transitionTypes types => Yields.after fun _ => ?_
  refine Yields.after fun _ => Yields.after fun _ => Yields.after fun _ => Yields.after fun _ => ?_
  refine Yields.after fun _ => Yields.after fun _ => Yields.of_pure ?_
  exact ⟨ascending, times.trans types.symm⟩

theorem File.read_yields : Yields File.read fun file => file.block.WellFormed := by
  refine Yields.after fun header => (Block.read_yields 4 header).bind fun first wellFormed => ?_
  refine Yields.ite (Yields.of_pure wellFormed) (Yields.after fun header => ?_)
  refine (Block.read_yields 8 header).bind fun second wellFormed => ?_
  exact Yields.after fun _ => Yields.of_pure wellFormed

/-- Whatever the bytes of a file are, what is read of them is in order. -/
theorem File.wellFormed_of_ofBytes? {bytes : List UInt8} {file : File}
    (parsed : File.ofBytes? bytes = some file) : file.block.WellFormed := by
  obtain ⟨⟨_, rest⟩, read, rfl⟩ := Option.map_eq_some_iff.mp parsed
  exact File.read_yields _ _ _ read

/-! ### Representable times -/

namespace Block

variable {block : Block} {initial first : Int} {early within late : List (Int × Nat)}
  {transitions : List (Int × Int)}

theorem WellFormed.transitionTimes_eq (wellFormed : block.WellFormed) :
    block.transitionTimes = (block.transitionTimes.zip block.transitionTypes).map (·.1) :=
  (List.map_fst_zip (Nat.le_of_eq wellFormed.paired)).symm

namespace Keeps

/-- Apart from the first second that is representable, what is too early to be kept is too early to
be represented. -/
theorem early_lt_minNanos (keeps : block.Keeps initial early within late first transitions)
    (apart : ∀ source ∈ early, source.1 ≠ -9223372036) :
    ∀ source ∈ early, source.1 * nsPerSecond < minNanos := by
  intro source member
  have below : source.1 < -9223372035 := keeps.early_lt source member
  have := apart source member
  simp only [nsPerSecond, minNanos]
  omega

theorem maxNanos_lt_late (keeps : block.Keeps initial early within late first transitions) :
    ∀ source ∈ late, maxNanos < source.1 * nsPerSecond := by
  intro source member
  have above : 9223372036 < source.1 := keeps.lt_late source member
  simp only [nsPerSecond, maxNanos]
  omega

theorem times_eq_filter (keeps : block.Keeps initial early within late first transitions)
    (apart : ∀ source ∈ early, source.1 ≠ -9223372036) :
    transitions.map (·.1)
      = ((early ++ within ++ late).map (·.1)).filter fun t => Representable (t * nsPerSecond) := by
  have noEarly : (early.map (·.1)).filter (fun t => Representable (t * nsPerSecond)) = [] := by
    simp only [List.filter_eq_nil_iff, List.forall_mem_map, decide_eq_true_eq]
    intro source member representable
    exact Int.not_lt.mpr representable.1 (keeps.early_lt_minNanos apart source member)
  have noLate : (late.map (·.1)).filter (fun t => Representable (t * nsPerSecond)) = [] := by
    simp only [List.filter_eq_nil_iff, List.forall_mem_map, decide_eq_true_eq]
    intro source member representable
    exact Int.not_lt.mpr representable.2 (keeps.maxNanos_lt_late source member)
  have all : (transitions.map (·.1)).filter (fun t => Representable (t * nsPerSecond))
      = transitions.map (·.1) :=
    List.filter_eq_self.mpr fun t told => decide_eq_true (keeps.representable t told)
  rw [List.map_append, List.map_append, List.filter_append, List.filter_append, noEarly, noLate,
    ← times_tells keeps.tells, all, List.nil_append, List.append_nil]

/-- Where representable counts begin, only the early transitions have happened. -/
theorem typeAt_minNanos (keeps : block.Keeps initial early within late first transitions)
    (sources : block.transitionTimes.zip block.transitionTypes = early ++ within ++ late)
    (apart : ∀ source ∈ early, source.1 ≠ -9223372036)
    {head : LocalTimeType} (leads : block.types.head? = some head) (starts : head.offset = initial) :
    ∃ type, block.typeAt minNanos = some type ∧ type.offset = first := by
  have passed : ∀ source ∈ early, source.1 * nsPerSecond ≤ minNanos := fun source member =>
    Int.le_of_lt (keeps.early_lt_minNanos apart source member)
  obtain ⟨type, found, offset⟩ := keeps.typeAt_of_passed sources leads starts passed (by decide)
  refine ⟨type, found, ?_⟩
  rw [offset, lastReached_of_ahead]
  · rfl
  · intro transition member
    have range := keeps.representable _ (List.mem_map_of_mem member)
    -- No whole second is at the least count itself.
    simp only [Representable, minNanos, nsPerSecond] at range ⊢
    omega

end Keeps
end Block

/-! ### Tables -/

namespace File

theorem describeTable_nil_eq_ok {first : Int} {rule : AnnualRule} {later : List AnnualRule}
    {table : TransitionTable}
    (tabled : describeTable first [] (rule :: later) = .ok (.table table)) :
    table.rules = rule :: later ∧ table.offsets = [rule.offsetBefore] := by
  obtain ⟨_, -, tabled⟩ := bind_eq_ok_iff.mp tabled
  cases tabled
  exact ⟨rfl, rfl⟩

/-- The transitions of a table are those of the file that are representable in nanoseconds. The
offset in front of them is that of the last type which earlier transitions start, or of the first
type. Without such a transition it is the offset in front of the first rule. -/
theorem describe_keeps_representable {file : File} {table : TransitionTable}
    (wellFormed : file.block.WellFormed) (apart : -9223372036 ∉ file.block.transitionTimes)
    (described : file.describe = .ok (.table table)) :
    table.transitions
        = file.block.transitionTimes.filter (fun t => Representable (t * nsPerSecond)) ∧
      (table.transitions ≠ [] → ∃ type, file.block.typeAt minNanos = some type ∧
        table.offsets.head? = some type.offset) ∧
      (table.transitions = [] → ∃ rule, table.rules.head? = some rule ∧
        table.offsets = [rule.offsetBefore]) := by
  obtain ⟨head, first, transitions, leads, kept, made⟩ := describe_cases described
  obtain ⟨early, within, late, sources, keeps⟩ :=
    Block.kept_eq_ok (ascending_zip wellFormed.ascending file.block.transitionTypes) kept
  have earlyApart : ∀ source ∈ early, source.1 ≠ -9223372036 := by
    intro source member same
    rw [wellFormed.transitionTimes_eq, sources] at apart
    exact apart (same ▸ List.mem_map_of_mem (by simp [member]))
  have exact := keeps.times_eq_filter earlyApart
  rw [← sources, ← wellFormed.transitionTimes_eq] at exact
  obtain ⟨type, found, leaves⟩ := keeps.typeAt_minNanos sources earlyApart leads rfl
  -- A table comes of kept transitions, or of a zone string with rules.
  cases made with
  | history bare nonempty tabled =>
    obtain ⟨_, ⟨⟩, -, times, -, offsets⟩ := describeTable_eq_ok tabled
    rw [times]
    refine ⟨exact, fun _ => ⟨type, found, ?_⟩, fun none => ?_⟩
    · rw [offsets nonempty, leaves]
      rfl
    · exact absurd (List.map_eq_nil_iff.mp none) nonempty
  | @rules zone rules _ footer ruled saving tabled =>
    obtain ⟨_, ⟨⟩, -, times, -, offsets⟩ := describeTable_eq_ok tabled
    rw [times]
    refine ⟨exact, fun some => ⟨type, found, ?_⟩, fun none => ?_⟩
    · rw [offsets (mt List.map_eq_nil_iff.mpr some), leaves]
      rfl
    · obtain rfl := List.map_eq_nil_iff.mp none
      obtain ⟨start, finish, rfl, -⟩ := PosixZone.rules_eq_pair (saving rfl) ruled
      obtain ⟨same, offsets⟩ := describeTable_nil_eq_ok tabled
      exact ⟨start, by rw [same]; rfl, offsets⟩

end File

/-! ### Files at the edges -/

/-- The last `size` bytes of a number in two's complement. -/
def bigEndian (size : Nat) (n : Int) : List UInt8 :=
  (List.range size).reverse.map fun place => UInt8.ofNat (n / 256 ^ place % 256).toNat

/-- The header of a block whose types have names of no letters. -/
def headerBytes (timeCount typeCount : Nat) : List UInt8 :=
  magic ++ [0x32] ++ List.replicate 27 0
    ++ [timeCount, typeCount, 1].flatMap fun count => bigEndian 4 count

/-- A file of the second version. Its block of 32-bit times has no transitions. -/
def fileBytes (transitions : List (Int × UInt8)) (offsets : List Int) (zone : String) :
    List UInt8 :=
  headerBytes 0 1 ++ [0, 0, 0, 0, 0, 0] ++ [0]
    ++ headerBytes transitions.length offsets.length
    ++ transitions.flatMap (fun transition => bigEndian 8 transition.1)
    ++ transitions.map (·.2)
    ++ offsets.flatMap (fun offset => bigEndian 4 offset ++ [0, 0])
    ++ [0]
    ++ [0x0A] ++ zone.toList.map (fun c => UInt8.ofNat c.toNat) ++ [0x0A]

/-- Transitions on either side of both ends of the representable times. -/
def edgeBytes : List UInt8 :=
  fileBytes [(-9223372037, 1), (-9223372035, 2), (9223372036, 1), (9223372037, 0)]
    [0, 3600, 7200] "UTC0"

def edgeFile : File where
  firstBlock := { transitionTimes := [], transitionTypes := [], types := [⟨0, false⟩] }
  secondBlock := some
    { transitionTimes := [-9223372037, -9223372035, 9223372036, 9223372037]
      transitionTypes := [1, 2, 1, 0]
      types := [⟨0, false⟩, ⟨3600, false⟩, ⟨7200, false⟩] }
  footer := some { offset := 0, daylight := none }

/-- The inner two of the transitions stay, and the first one leaves its offset in front. -/
theorem File.describe_keeps_inner_edges :
    ∃ table, File.ofBytes? edgeBytes = some edgeFile ∧
      edgeFile.describe = .ok (.table table) ∧
      table.transitions = edgeFile.block.transitionTimes.filter
        (fun t => Representable (t * nsPerSecond)) ∧
      table.transitions = [-9223372035, 9223372036] ∧ table.offsets.head? = some 3600 := by
  have parsed : File.ofBytes? edgeBytes = some edgeFile := by decide +kernel
  have described : edgeFile.describe = .ok (.table
      { transitions := [-9223372035, 9223372036]
        offsets := [3600, 7200, 3600]
        rules := [] }) := rfl
  obtain ⟨exact, leads, -⟩ :=
    File.describe_keeps_representable (File.wellFormed_of_ofBytes? parsed) (by decide) described
  obtain ⟨type, found, offset⟩ := leads (by decide)
  refine ⟨_, parsed, described, exact, rfl, ?_⟩
  rw [offset, Option.some.inj (found.symm.trans rfl : some type = some ⟨3600, false⟩)]

/-- Two files with a table that tells less. Without transitions it is the zone string, not the first
type, that gives the offset in front. And a transition at the first representable second is lost. -/
theorem File.describe_misses_representable :
    (∃ file table, File.ofBytes? (fileBytes [] [0] "EST5EDT,M3.2.0,M11.1.0") = some file ∧
        file.describe = .ok (.table table) ∧
        file.block.typeAt minNanos = some ⟨0, false⟩ ∧ table.offsets.head? = some (-18000)) ∧
      ∃ file table,
        File.ofBytes? (fileBytes [(-9223372036, 1), (0, 0)] [0, 3600] "UTC0") = some file ∧
        file.describe = .ok (.table table) ∧
        file.block.transitionTimes = [-9223372036, 0] ∧
        Representable (-9223372036 * nsPerSecond) ∧ table.transitions = [0] := by
  let bare : Block := { transitionTimes := [], transitionTypes := [], types := [⟨0, false⟩] }
  let early : Block :=
    { transitionTimes := [-9223372036, 0]
      transitionTypes := [1, 0]
      types := [⟨0, false⟩, ⟨3600, false⟩] }
  let ruled : TransitionTable :=
    { transitions := []
      offsets := [-18000]
      rules := [Zone.secondSundayOfMarch, Zone.firstSundayOfNovember] }
  refine ⟨⟨⟨bare, some bare, some Zone.marchToNovember⟩, ruled, ?_, by rfl, rfl, rfl⟩,
    ⟨⟨bare, some early, some ⟨0, none⟩⟩, ⟨[0], [3600, 0], []⟩, ?_, rfl, rfl, by decide, rfl⟩⟩
  · decide +kernel
  · decide +kernel

end CivilTime.Tzif
