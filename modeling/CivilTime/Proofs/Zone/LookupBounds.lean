import CivilTime.Proofs.Zone.HistoricTables
import CivilTime.Proofs.Zone.RuleSteps

/-!
# Look-ups within bounds

A history that was built from a description is well formed, however close its transitions are and
wherever clamps moved their edges. Each look-up is written out a second time in single steps, which
end without a result where an entry is missing, where marks to search are out of order, or where a
sum or a product leaves its word. In a well-formed history no step does: the look-ups in steps have
a result for every instant, every local time and every year with either leap flag, and it is the
one of the plain look-ups.
-/
namespace CivilTime.Zone

/-! ### Look-ups in steps -/

/-- How many of the `marks` are at or before `n`, if all of these come first. -/
def passed? (marks : List Int) (n : Int) : Option Nat :=
  if ∀ mark ∈ marks.drop (passed marks n), n < mark then some (passed marks n) else none

theorem lt_of_mem_drop_passed {marks : List Int} (ascending : marks.Pairwise (· ≤ ·)) {n : Int} :
    ∀ mark ∈ marks.drop (passed marks n), n < mark := by
  induction marks with
  | nil => nofun
  | cons first marks ih =>
    obtain ⟨least, ascending⟩ := List.pairwise_cons.mp ascending
    rw [passed_cons]
    split
    · exact ih ascending
    -- The first mark ahead is the least of those that are left.
    · next ahead =>
      intro mark member
      rcases List.mem_cons.mp member with rfl | later
      · exact Int.not_le.mp ahead
      · have above := least mark later
        omega

theorem passed?_eq {marks : List Int} (ascending : marks.Pairwise (· ≤ ·)) (n : Int) :
    passed? marks n = some (passed marks n) :=
  if_pos (lt_of_mem_drop_passed ascending)

theorem passed_le (marks : List Int) (n : Int) : passed marks n ≤ marks.length :=
  (List.takeWhile_prefix _).length_le

/-- The year of a local time or an instant, one step at a time. -/
def yearOf? (n : Int) : Option Year := do
  let number ← Year.numberOfDayIn .checking (epochDay n)
  return ⟨number, isLeapYearInWord number⟩

namespace History

/-- The offset at a local time before the cutoff, if the entries it is looked up from exist. -/
def offsetBeforeCutoff? (h : History) (localTime : Int) : Option Int := do
  match ← passed? h.localEdges localTime with
  | 0 => h.offsets[0]?
  | edge + 1 =>
    let before ← h.offsets[edge / 2]?
    let after ← h.offsets[edge / 2 + 1]?
    return if edge % 2 = 1 ∨ before < after then after else before

/-- The offset at a local time that the rules decide, one step at a time. -/
def offsetFromRules? (h : History) (localTime : Int) (year : Year) : Option Int := do
  let ahead ← h.rules.findM? fun rule => do
    let transition ← rule.localTransitionIn .checking year
    return decide (localTime < transition)
  match ahead with
  | some rule => return rule.before
  | none =>
    match h.rules.getLast? with
    | some rule => return rule.after
    | none => return h.offsets.getLast?.getD 0

/-- The offset at a local time of the year `year`, one step at a time. -/
def offsetAt? (h : History) (localTime : Int) (year : Year) : Option Int :=
  if h.cutoff ≤ localTime then
    h.offsetFromRules? localTime year
  else
    h.offsetBeforeCutoff? localTime

def offsetAtLocal? (h : History) (localTime : Int) : Option Int := do
  let year ← yearOf? localTime
  h.offsetAt? localTime year

/-- The offset at an instant that is behind all rules but the last ones, `rules`. The rules before
them leave `offset`. -/
def offsetBehind? (n : Int) (year : Year) (offset : Int) : List AnnualRule → Option Int
  | [] => some offset
  | rule :: rules => do
    let transition ← rule.localTransitionIn .checking year
    if n < clamp (transition - rule.before) then
      return rule.before
    else
      offsetBehind? n year rule.after rules

/-- The offset at an instant, one step at a time. -/
def offsetAtUtc? (h : History) (n : Int) : Option Int :=
  if h.transitions.getLast?.getD minNanos ≤ n ∧ h.rules ≠ [] then do
    let year ← yearOf? n
    let first ← h.rules[0]?
    offsetBehind? n year first.before h.rules
  else do
    let transition ← passed? h.transitions n
    h.offsets[transition]?

/-- All that a history counts in nanoseconds. -/
def counts (h : History) : List Int :=
  h.transitions ++ h.offsets ++ h.localEdges ++
    h.rules.flatMap fun rule => [rule.before, rule.after, rule.standard, rule.time * nsPerSecond]

/-- The parts of a history fit together. -/
structure WellFormed (h : History) : Prop where
  ascending : h.transitions.Pairwise (· ≤ ·)
  offsets : h.offsets.length = h.transitions.length + 1
  edges : h.localEdges.length = 2 * h.transitions.length
  edgesAscending : h.localEdges.Pairwise (· ≤ ·)
  /-- The cutoff is the last edge, or the least count without any. -/
  cutoff : h.localEdges.getLast? = some h.cutoff ∨ h.localEdges = [] ∧ h.cutoff = minNanos
  /-- Something changes the offset. -/
  changes : h.transitions ≠ [] ∨ h.rules ≠ []
  /-- Wherever edges were moved to, all counts fit in 64 bits. -/
  fits : ∀ n ∈ h.counts, Representable n

/-- The rules of a history are valid and kept in words. -/
def RulesInWords (h : History) : Prop := ∀ rule ∈ h.rules, rule.Valid ∧ rule.InWords

end History

theorem isYear_yearOf {n : Int} (fits : Representable n) : IsYear (yearOf n).number := by
  have bounds := fits.fourDigitYear
  exact ⟨Int.le_trans (by decide) bounds.least, Int.le_trans bounds.greatest (by decide)⟩

theorem yearOf?_eq {n : Int} (fits : Representable n) : yearOf? n = some (yearOf n) := by
  obtain ⟨least, greatest⟩ := fits.fourDigitYear
  have near := Year.estimateOfDay_near (epochDay n)
  have year : Year.numberOfDay (epochDay n) = (yearOf n).number := rfl
  have low : minYear < Year.estimateOfDay (epochDay n) := by
    unfold minYear
    omega
  have high : Year.estimateOfDay (epochDay n) < maxYear := by
    unfold maxYear
    omega
  have years : minYear ≤ epochDay n * 400 / 146097 := by
    unfold Year.estimateOfDay at near
    unfold minYear
    omega
  have found := (Year.numberOfDayIn_checking_iff low high).mpr years
  simp only [yearOf?, found, isLeapYearInWord_eq]
  rfl

/-- A search in steps finds what the plain search does if each step gives the plain answer. -/
theorem findM?_eq_find? {α : Type} {as : List α} {test? : α → Option Bool} {test : α → Bool}
    (agree : ∀ a ∈ as, test? a = some (test a)) : as.findM? test? = some (as.find? test) := by
  induction as with
  | nil => rfl
  | cons a as ih =>
    have rest := ih fun b member => agree b (List.mem_cons_of_mem a member)
    rw [List.findM?, agree a List.mem_cons_self, List.find?_cons]
    cases test a with
    | true => rfl
    | false => exact rest

namespace History

variable {h : History}

namespace WellFormed

/-- Behind each transition there is an offset, and one before all of them. -/
theorem offset_eq (well : h.WellFormed) {i : Nat} (within : i ≤ h.transitions.length) :
    h.offsets[i]? = some (h.offset i) := by
  have bound : i < h.offsets.length := by
    rw [well.offsets]
    exact Nat.lt_succ_of_le within
  rw [offset, List.getElem?_eq_getElem bound]
  rfl

theorem offsetBeforeCutoff?_eq (well : h.WellFormed) (localTime : Int) :
    h.offsetBeforeCutoff? localTime = some (h.offsetBeforeCutoff localTime) := by
  have bound := passed_le h.localEdges localTime
  rw [well.edges] at bound
  rw [offsetBeforeCutoff?, passed?_eq well.edgesAscending, offsetBeforeCutoff]
  cases edges : passed h.localEdges localTime with
  | zero => exact well.offset_eq (Nat.zero_le _)
  -- Of the two edges of a transition, the one at twice its number comes first.
  | succ edge =>
    rw [edges] at bound
    have before : h.offsets[edge / 2]? = some (h.offset (edge / 2)) := well.offset_eq (by omega)
    have after : h.offsets[edge / 2 + 1]? = some (h.offset (edge / 2 + 1)) :=
      well.offset_eq (by omega)
    change (h.offsets[edge / 2]?.bind fun before => h.offsets[edge / 2 + 1]?.bind fun after => _) = _
    rw [before, after]
    rfl

end WellFormed

theorem offsetFromRules?_eq (ruled : h.RulesInWords) (localTime : Int) {year : Year}
    (inWord : IsYear year.number) :
    h.offsetFromRules? localTime year = some (h.offsetFromRules localTime year) := by
  have searched : (h.rules.findM? fun rule => do
        let transition ← rule.localTransitionIn .checking year
        return decide (localTime < transition))
      = some (h.rules.find? fun rule => localTime < rule.localTransition year) := by
    apply findM?_eq_find?
    intro rule member
    obtain ⟨valid, held⟩ := ruled rule member
    rw [AnnualRule.localTransitionIn_eq WordArithmetic.exact_checking valid held inWord]
    rfl
  rw [offsetFromRules?, searched, offsetFromRules]
  cases h.rules.find? fun rule => localTime < rule.localTransition year with
  | some rule => rfl
  | none => cases h.rules.getLast? <;> rfl

/-- The rules that are left decide, and behind all of them the offset after the last one. -/
theorem offsetBehind?_eq {n : Int} {year : Year} (inWord : IsYear year.number) (offset : Int)
    {rules : List AnnualRule} (ruled : ∀ rule ∈ rules, rule.Valid ∧ rule.InWords) :
    offsetBehind? n year offset rules
      = some (((rules.find? fun rule => n < rule.utcTransition year).map (·.before)).getD
          ((rules.getLast?.map (·.after)).getD offset)) := by
  induction rules generalizing offset with
  | nil => rfl
  | cons rule rules ih =>
    obtain ⟨valid, held⟩ := ruled rule List.mem_cons_self
    have rest := ih rule.after fun later member => ruled later (List.mem_cons_of_mem rule member)
    rw [offsetBehind?,
      AnnualRule.localTransitionIn_eq WordArithmetic.exact_checking valid held inWord,
      List.find?_cons]
    change (if n < rule.utcTransition year then some rule.before else _) = _
    by_cases ahead : n < rule.utcTransition year
    · simp [ahead]
    · rw [if_neg ahead, rest]
      simp [ahead, List.getLast?_cons]

theorem WellFormed.offsetAt?_eq (well : h.WellFormed) (ruled : h.RulesInWords) (localTime : Int)
    {year : Year} (inWord : IsYear year.number) :
    h.offsetAt? localTime year = some (h.offsetAt localTime year) := by
  unfold offsetAt? offsetAt
  split
  · exact offsetFromRules?_eq ruled localTime inWord
  · exact well.offsetBeforeCutoff?_eq localTime

theorem WellFormed.offsetAtLocal?_eq (well : h.WellFormed) (ruled : h.RulesInWords)
    {localTime : Int} (fits : Representable localTime) :
    h.offsetAtLocal? localTime = some (h.offsetAt localTime (yearOf localTime)) := by
  rw [offsetAtLocal?, yearOf?_eq fits]
  exact well.offsetAt?_eq ruled localTime (isYear_yearOf fits)

theorem WellFormed.offsetAtUtc?_eq (well : h.WellFormed) (ruled : h.RulesInWords) {n : Int}
    (fits : Representable n) : h.offsetAtUtc? n = some (h.offsetAtUtc n) := by
  have historic : (passed? h.transitions n).bind (h.offsets[·]?)
      = some (h.offset (passed h.transitions n)) := by
    rw [passed?_eq well.ascending]
    exact well.offset_eq (passed_le _ _)
  unfold offsetAtUtc? offsetAtUtc
  cases last : h.rules.getLast? with
  | none =>
    rw [if_neg fun decided => decided.2 (List.getLast?_eq_none_iff.mp last)]
    exact historic
  | some rule =>
    have ruleful : h.rules ≠ [] := by
      rintro none
      rw [none] at last
      cases last
    by_cases behind : h.transitions.getLast?.getD minNanos ≤ n
    · obtain ⟨first, later, listed⟩ := List.exists_cons_of_ne_nil ruleful
      have first? : h.rules[0]? = some first := by rw [listed]; rfl
      rw [if_pos ⟨behind, ruleful⟩, yearOf?_eq fits, first?]
      change offsetBehind? n (yearOf n) first.before h.rules = _
      rw [offsetBehind?_eq (isYear_yearOf fits) first.before ruled, last]
      simp only [if_pos behind, offsetFromRulesUtc]
      cases h.rules.find? fun rule => n < rule.utcTransition (yearOf n) <;> rfl
    · rw [if_neg fun decided => behind decided.1]
      simp only [if_neg behind]
      exact historic

end History

/-! ### Histories of descriptions -/

/-- No edge is before the last one, whatever the offsets and however close the transitions. -/
theorem isChain_edgesFrom (previous : Int) (transitions offsets : List Int) :
    (previous :: edgesFrom previous transitions offsets).IsChain (· ≤ ·) := by
  fun_induction edgesFrom previous transitions offsets with
  | case1 previous t transitions before after offsets start stop ih =>
    have opened : previous ≤ start := Int.le_max_right _ _
    have closed : start ≤ stop := Int.le_max_right _ _
    exact .cons_cons opened (.cons_cons closed ih)
  | case2 => exact List.isChain_singleton _

theorem length_edgesFrom {transitions offsets : List Int} (around : Surrounds offsets transitions)
    (previous : Int) : (edgesFrom previous transitions offsets).length = 2 * transitions.length := by
  induction around generalizing previous with
  | last offset => rfl
  | step t before rest ih =>
    rw [edgesFrom, List.length_cons, List.length_cons, ih, List.length_cons]
    omega

theorem representable_of_mem_edgesFrom {previous : Int} {transitions offsets : List Int}
    (fits : Representable previous) :
    ∀ edge ∈ edgesFrom previous transitions offsets, Representable edge := by
  fun_induction edgesFrom previous transitions offsets with
  | case1 previous t transitions before after offsets start stop ih =>
    have opened : Representable start := max_rec' Representable (clamp_representable _) fits
    have closed : Representable stop := max_rec' Representable (clamp_representable _) opened
    intro edge member
    rcases List.mem_cons.mp member with rfl | member
    · exact opened
    · rcases List.mem_cons.mp member with rfl | member
      · exact closed
      · exact ih closed edge member
  | case2 => nofun

/-- Offsets are kept in words of 32 bits, and so are the parts of the rules that are no smaller. -/
structure TransitionTable.InWords (table : TransitionTable) : Prop where
  offsets : ∀ offset ∈ table.offsets, IsOffset offset
  rules : ∀ rule ∈ table.rules, rule.InWords

def Description.InWords : Description → Prop
  | fixed offset => IsOffset offset
  | table t => t.InWords

theorem IsOffset.representable {seconds : Int} (held : IsOffset seconds) :
    Representable (seconds * nsPerSecond) := by
  unfold IsOffset at held
  unfold Representable minNanos maxNanos nsPerSecond
  omega

theorem AnnualRule.InWords.representable {rule : AnnualRule} (held : rule.InWords) :
    ∀ n ∈ [rule.before, rule.after, rule.standard, rule.time * nsPerSecond], Representable n := by
  simp only [List.forall_mem_cons]
  exact ⟨held.offsetBefore.representable, held.offsetAfter.representable,
    held.standardOffset.representable, held.time.representable, nofun⟩

namespace TransitionTable

variable {table : TransitionTable}

theorem valid_of_mem_rules (valid : table.validate = .ok ()) :
    ∀ rule ∈ table.rules, rule.Valid := by
  have checked := (validate_eq_ok valid).2.2
  generalize table.rules = rules at checked
  induction rules with
  | nil => nofun
  | cons rule rules ih =>
    obtain ⟨⟨⟩, first, checked⟩ := bind_eq_ok_iff.mp checked
    intro other member
    rcases List.mem_cons.mp member with rfl | later
    · exact AnnualRule.validate_eq_ok_iff.mp first
    · exact ih checked other later

theorem wellFormed_history (valid : table.validate = .ok ()) (held : table.InWords)
    (fits : ∀ t ∈ table.transitions, Representable (t * nsPerSecond))
    (changes : ¬ (table.rules = [] ∧ table.transitions = [])) : table.history.WellFormed := by
  obtain ⟨sized, sorted, -⟩ := validate_eq_ok valid
  constructor
  case ascending =>
    refine List.pairwise_map.mpr (sorted.imp fun ordered => ?_)
    exact Int.mul_le_mul_of_nonneg_right ordered (by decide)
  case offsets => simp [history, sized]
  case edges =>
    rw [history, length_edgesFrom (surrounds valid)]
  case edgesAscending => exact (isChain_edgesFrom _ _ _).tail.pairwise
  case cutoff =>
    cases last : table.history.localEdges.getLast? with
    | none => exact .inr ⟨List.getLast?_eq_none_iff.mp last, by rw [History.cutoff, last]; rfl⟩
    | some edge => exact .inl (by rw [History.cutoff, last]; rfl)
  case changes =>
    by_contra none
    simp [history] at none
    exact changes ⟨none.2, none.1⟩
  case fits =>
    intro n member
    simp only [History.counts, List.mem_append] at member
    rcases member with ((transition | offset) | edge) | count
    · obtain ⟨t, given, rfl⟩ := List.mem_map.mp transition
      exact fits t given
    · obtain ⟨seconds, given, rfl⟩ := List.mem_map.mp offset
      exact (held.offsets seconds given).representable
    · exact representable_of_mem_edgesFrom (by decide) n edge
    · obtain ⟨rule, given, part⟩ := List.mem_flatMap.mp count
      exact (held.rules rule given).representable n part

end TransitionTable

namespace Timeline

theorem instants_fit {seconds nanos : List Int} (fits : instants seconds = .ok nanos) :
    ∀ t ∈ seconds, Representable (t * nsPerSecond) := by
  induction seconds generalizing nanos with
  | nil => nofun
  | cons t seconds ih =>
    rw [instants, List.mapM_cons] at fits
    obtain ⟨first, checked, fits⟩ := bind_eq_ok_iff.mp fits
    obtain ⟨others, rest, -⟩ := bind_eq_ok_iff.mp fits
    intro s member
    rcases List.mem_cons.mp member with rfl | later
    · by_contra outside
      rw [if_neg outside] at checked
      cases checked
    · exact ih rest s later

/-- What a description that becomes a history says. -/
theorem ofDescription_eq_history {description : Description} {h : History}
    (built : ofDescription description = .ok (.history h)) :
    ∃ table, description = .table table ∧ h = table.history ∧ table.validate = .ok () ∧
      (∀ t ∈ table.transitions, Representable (t * nsPerSecond)) ∧
      ¬ (table.rules = [] ∧ table.transitions = []) := by
  cases description with
  | fixed offset => cases built
  | table table =>
    obtain ⟨⟨⟩, valid, rest⟩ := bind_eq_ok_iff.mp built
    obtain ⟨nanos, fits, rest⟩ := bind_eq_ok_iff.mp rest
    have changes : ¬ (table.rules = [] ∧ table.transitions = []) := by
      rintro ⟨ruleless, none⟩
      obtain rfl := instants_eq_ok fits
      simp only [ruleless, none, List.map_nil, List.isEmpty_nil, and_self, if_true] at rest
      cases rest
    obtain ⟨-, same⟩ := ofDescription_table_eq_ok built changes
    cases same
    exact ⟨table, rfl, rfl, fromSource_eq_ok_iff.mp valid, instants_fit fits, changes⟩

/-- The history of a description is well formed, so that no look-up in it misses an entry, searches
marks out of order or leaves a word. -/
theorem lookups_stay_within_history {description : Description} {h : History}
    (held : description.InWords) (built : ofDescription description = .ok (.history h)) :
    h.WellFormed ∧
      (∀ localTime year, IsYear year.number →
        h.offsetAt? localTime year = some ((history h).offsetAt localTime year)) ∧
      ∀ n, Representable n →
        h.offsetAtLocal? n = some ((history h).offsetAtLocal n) ∧
        h.offsetAtUtc? n = some ((history h).offsetAtUtc n) := by
  obtain ⟨table, rfl, rfl, valid, fits, changes⟩ := ofDescription_eq_history built
  have well := TransitionTable.wellFormed_history valid held fits changes
  have ruled : table.history.RulesInWords := fun rule member =>
    ⟨TransitionTable.valid_of_mem_rules valid rule member, held.rules rule member⟩
  exact ⟨well, fun localTime _ inWord => well.offsetAt?_eq ruled localTime inWord,
    fun _ bounds => ⟨well.offsetAtLocal?_eq ruled bounds, well.offsetAtUtc?_eq ruled bounds⟩⟩

/-- A rule whose parts are at the ends of their words. -/
def lastOfAllDays : AnnualRule where
  offsetBefore := 2147483647
  offsetAfter := 0
  standardOffset := -2147483648
  month := 12
  monthDay := 32767
  weekday := some 7
  time := -2147483648
  endOfDay := false
  clock := .standard

/-- Two transitions at once, in the last second of the range. -/
def lastSecond : TransitionTable where
  transitions := [9223372036, 9223372036]
  offsets := [0, 7200, -3600]
  rules := [lastOfAllDays]

/-- Three edges are moved to the end of the range. The last count is looked up by the rule, in the
first year of its word and with the wrong leap flag, and the one before it in the gap. -/
theorem lookups_stay_within_lastSecond :
    ∃ h, ofDescription (.table lastSecond) = .ok (.history h) ∧
      h.localEdges = [9223372036 * nsPerSecond, maxNanos, maxNanos, maxNanos] ∧ h.WellFormed ∧
      h.offsetAt? maxNanos ⟨-2147483648, false⟩ = some 0 ∧
      h.offsetAtLocal? (maxNanos - 1) = some (7200 * nsPerSecond) ∧
      h.offsetAtUtc? minNanos = some 0 := by
  have held : (Description.table lastSecond).InWords := by
    constructor
    · decide
    · intro rule member
      obtain rfl := List.mem_singleton.mp member
      constructor <;> decide
  have built : ofDescription (.table lastSecond) = .ok (.history lastSecond.history) := rfl
  obtain ⟨well, byYear, byCount⟩ := lookups_stay_within_history held built
  refine ⟨lastSecond.history, built, by decide, well, ?_, ?_, ?_⟩
  · rw [byYear maxNanos ⟨-2147483648, false⟩ (by decide)]
    decide
  · rw [(byCount (maxNanos - 1) (by decide)).1]
    decide
  · rw [(byCount minNanos (by decide)).2]
    decide

end Timeline
end CivilTime.Zone
