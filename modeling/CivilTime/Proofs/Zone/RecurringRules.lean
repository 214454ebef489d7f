import CivilTime.Proofs.Zone.RuleWindows
import CivilTime.Proofs.Zone.Tables

/-!
# Local times of recurring rules

Two annual rules that take turns have one window each in every year, and all these windows form one
row of transitions. An instant is looked up in the windows of its own year, and so is a local time,
though the two years may differ. Both look-ups agree with the walk along the whole row, since
earlier years have passed and later ones have not begun.
-/
namespace CivilTime.Zone

/-- The windows of two rules in consecutive years. -/
def windowsFrom (early late : AnnualRule) (first : Int) : Nat → List Window
  | 0 => []
  | count + 1 =>
    early.window (Year.of first) :: late.window (Year.of first) ::
      windowsFrom early late (first + 1) count

/-- The windows of two rules in the years that are representable as a whole. -/
def allWindows (early late : AnnualRule) : List Window := windowsFrom early late 1678 584

theorem mem_windowsFrom {early late : AnnualRule} {first : Int} {count : Nat} {w : Window}
    (member : w ∈ windowsFrom early late first count) :
    ∃ number, first ≤ number ∧ number < first + count ∧
      ∃ rule ∈ [early, late], w = rule.window (Year.of number) := by
  induction count generalizing first with
  | zero => cases member
  | succ count ih =>
    rcases List.mem_cons.mp member with rfl | member
    · exact ⟨first, by omega, by omega, early, by simp, rfl⟩
    rcases List.mem_cons.mp member with rfl | member
    · exact ⟨first, by omega, by omega, late, by simp, rfl⟩
    · obtain ⟨number, lower, upper, found⟩ := ih member
      exact ⟨number, by omega, by omega, found⟩

/-! ### Look-ups by two rules -/

namespace History

variable {early late : AnnualRule}

theorem offsetAtUtc_pair (h : History) (recurring : h.rules = [early, late])
    (recent : h.transitions = []) {n : Int} (bounds : Representable n) :
    h.offsetAtUtc n
      = if n < early.utcTransition (yearOf n) then early.before
        else if n < late.utcTransition (yearOf n) then late.before
        else late.after := by
  have last : h.rules.getLast? = some late := by rw [recurring]; rfl
  have decided : h.transitions.getLast?.getD minNanos ≤ n := by
    rw [recent]
    exact bounds.1
  unfold offsetAtUtc
  rw [last]
  simp only [if_pos decided, offsetFromRulesUtc, recurring, List.find?_cons, List.find?_nil]
  by_cases first : n < early.utcTransition (yearOf n)
  · simp [first]
  · by_cases second : n < late.utcTransition (yearOf n) <;> simp [first, second]

theorem offsetAtUtc_mem_pair (h : History) (recurring : h.rules = [early, late])
    (recent : h.transitions = []) (back : late.after = early.before) {n : Int}
    (bounds : Representable n) : h.offsetAtUtc n ∈ [early.before, late.before] := by
  rw [h.offsetAtUtc_pair recurring recent bounds, back]
  split_ifs <;> simp

theorem offsetAt_pair (h : History) (recurring : h.rules = [early, late])
    (edgeless : h.localEdges = []) {localTime : Int} (bounds : Representable localTime)
    (year : Year) :
    h.offsetAt localTime year
      = if localTime < early.localTransition year then early.before
        else if localTime < late.localTransition year then late.before
        else late.after := by
  have last : h.rules.getLast? = some late := by rw [recurring]; rfl
  have decided : h.cutoff ≤ localTime := by
    rw [cutoff, edgeless]
    exact bounds.1
  unfold offsetAt
  rw [if_pos decided, offsetFromRules, last]
  simp only [recurring, List.find?_cons, List.find?_nil]
  by_cases first : localTime < early.localTransition year
  · simp [first]
  · by_cases second : localTime < late.localTransition year <;> simp [first, second]

end History

namespace TakeTurns

variable {early late : AnnualRule}

theorem chain (turns : TakeTurns early late) {first : Int} {count : Nat} (lower : 1678 ≤ first)
    (upper : first + count ≤ 2262) :
    (windowsFrom early late first count).IsChain Window.Precedes := by
  induction count generalizing first with
  | zero => exact List.isChain_nil
  | succ count ih =>
    have rest : (windowsFrom early late (first + 1) count).IsChain Window.Precedes :=
      ih (by omega) (by omega)
    have within := turns.apart first lower (by omega)
    refine List.isChain_cons_cons.mpr ⟨⟨turns.after_early, within⟩, ?_⟩
    cases count with
    | zero => exact List.isChain_singleton _
    | succ count =>
      -- The next window begins in a later year than this one ends.
      have ended := (turns.inYear first lower (by omega)).2.stop
      have begun := (turns.inYear (first + 1) (by omega) (by omega)).1.start
      have across := lt_of_yearOf_lt (m := (late.window (Year.of first)).stop)
        (n := (early.window (Year.of (first + 1))).start) (by omega)
      exact List.isChain_cons_cons.mpr ⟨⟨turns.after_late, Int.le_of_lt across⟩, rest⟩

/-! ### The walk along all years -/

/-- Nothing has changed before the first year. -/
theorem offsetAtInstant_before (turns : TakeTurns early late) {first n : Int} {count : Nat}
    (lower : 1678 ≤ first) (upper : first + count ≤ 2262) (ahead : (yearOf n).number < first) :
    Window.offsetAtInstant late.after (windowsFrom early late first count) n = late.after := by
  cases count with
  | zero => rfl
  | succ count =>
    have transition := (turns.inYear first lower (by omega)).1.instant
    rw [← transition] at ahead
    rw [windowsFrom, Window.offsetAtInstant, if_pos (lt_of_yearOf_lt ahead)]
    exact turns.after_late.symm

theorem offsetAtReading_before (turns : TakeTurns early late) {first localTime : Int} {count : Nat}
    (lower : 1678 ≤ first) (upper : first + count ≤ 2262)
    (ahead : (yearOf localTime).number < first) :
    Window.offsetAtReading late.after (windowsFrom early late first count) localTime
      = late.after := by
  cases count with
  | zero => rfl
  | succ count =>
    have begun := (turns.inYear first lower (by omega)).1.start
    rw [← begun] at ahead
    rw [windowsFrom, Window.offsetAtReading, if_pos (lt_of_yearOf_lt ahead)]
    exact turns.after_late.symm

/-- Only the windows of its own year decide about an instant. -/
theorem offsetAtInstant_windowsFrom (turns : TakeTurns early late) {first n : Int} {count : Nat}
    (lower : 1678 ≤ first) (upper : first + count ≤ 2262) (begun : first ≤ (yearOf n).number)
    (ended : (yearOf n).number < first + count) :
    Window.offsetAtInstant late.after (windowsFrom early late first count) n
      = Window.offsetAtInstant late.after [early.window (yearOf n), late.window (yearOf n)] n := by
  induction count generalizing first with
  | zero => omega
  | succ count ih =>
    rcases Int.lt_or_eq_of_le begun with past | same
    -- Both transitions of an earlier year have passed.
    · obtain ⟨one, two⟩ := turns.inYear first lower (by omega)
      have passedOne : (early.window (Year.of first)).instant < n :=
        lt_of_yearOf_lt (by rwa [one.instant])
      have passedTwo : (late.window (Year.of first)).instant < n :=
        lt_of_yearOf_lt (by rwa [two.instant])
      rw [windowsFrom, Window.offsetAtInstant, if_neg (by omega), Window.offsetAtInstant,
        if_neg (by omega)]
      exact ih (by omega) (by omega) (by omega) (by omega)
    · subst same
      have rest : Window.offsetAtInstant late.after
          (windowsFrom early late ((yearOf n).number + 1) count) n = late.after :=
        turns.offsetAtInstant_before (by omega) (by omega) (by omega)
      simp only [windowsFrom, Window.offsetAtInstant, AnnualRule.window, rest]
      rfl

theorem offsetAtReading_windowsFrom (turns : TakeTurns early late) {first localTime : Int}
    {count : Nat} (lower : 1678 ≤ first) (upper : first + count ≤ 2262)
    (begun : first ≤ (yearOf localTime).number) (ended : (yearOf localTime).number < first + count) :
    Window.offsetAtReading late.after (windowsFrom early late first count) localTime
      = Window.offsetAtReading late.after
          [early.window (yearOf localTime), late.window (yearOf localTime)] localTime := by
  induction count generalizing first with
  | zero => omega
  | succ count ih =>
    rcases Int.lt_or_eq_of_le begun with past | same
    -- Both windows of an earlier year are behind.
    · obtain ⟨one, two⟩ := turns.inYear first lower (by omega)
      have behindOne : (early.window (Year.of first)).stop < localTime :=
        lt_of_yearOf_lt (by rwa [one.stop])
      have behindTwo : (late.window (Year.of first)).stop < localTime :=
        lt_of_yearOf_lt (by rwa [two.stop])
      have orderOne := (early.window (Year.of first)).start_le_stop
      have orderTwo := (late.window (Year.of first)).start_le_stop
      rw [windowsFrom, Window.offsetAtReading, if_neg (by omega), if_neg (by omega),
        Window.offsetAtReading, if_neg (by omega), if_neg (by omega)]
      exact ih (by omega) (by omega) (by omega) (by omega)
    · subst same
      have rest : Window.offsetAtReading late.after
          (windowsFrom early late ((yearOf localTime).number + 1) count) localTime = late.after :=
        turns.offsetAtReading_before (by omega) (by omega) (by omega)
      simp only [windowsFrom, Window.offsetAtReading, AnnualRule.window, rest]
      rfl

/-! ### Look-ups in one year -/

theorem utcTransition_eq (turns : TakeTurns early late) {rule : AnnualRule}
    (member : rule ∈ [early, late]) {number : Int} (lower : 1678 ≤ number)
    (upper : number ≤ 2261) :
    rule.utcTransition (Year.of number) = (rule.window (Year.of number)).instant := by
  have inYear := (turns.staysIn member lower upper).instant
  have fits : Representable (rule.window (Year.of number)).instant :=
    representable_of_year (by omega) (by omega)
  exact clamp_of_representable fits

theorem offsetAtUtc_eq (turns : TakeTurns early late) {h : History}
    (recurring : h.rules = [early, late]) (recent : h.transitions = []) {n : Int}
    (lower : 1678 ≤ (yearOf n).number) (upper : (yearOf n).number ≤ 2261) :
    h.offsetAtUtc n
      = Window.offsetAtInstant late.after [early.window (yearOf n), late.window (yearOf n)] n := by
  have bounds := representable_of_year lower upper
  have one : early.utcTransition (yearOf n) = (early.window (yearOf n)).instant :=
    turns.utcTransition_eq (by simp) lower upper
  have two : late.utcTransition (yearOf n) = (late.window (yearOf n)).instant :=
    turns.utcTransition_eq (by simp) lower upper
  rw [h.offsetAtUtc_pair recurring recent bounds, one, two]
  rfl

theorem offsetAt_eq (turns : TakeTurns early late) {h : History}
    (recurring : h.rules = [early, late]) (edgeless : h.localEdges = []) {localTime : Int}
    (lower : 1678 ≤ (yearOf localTime).number) (upper : (yearOf localTime).number ≤ 2261) :
    h.offsetAt localTime (yearOf localTime)
      = Window.offsetAtReading late.after
          [early.window (yearOf localTime), late.window (yearOf localTime)] localTime := by
  have bounds := representable_of_year lower upper
  have apart : (early.window (yearOf localTime)).stop ≤ (late.window (yearOf localTime)).start :=
    turns.apart _ lower upper
  have link := turns.after_early
  have back := turns.after_late
  rw [h.offsetAt_pair recurring edgeless bounds]
  -- In a gap the rule is passed already, and the next one starts from the offset after it.
  simp only [Window.offsetAtReading, Window.start, Window.stop, AnnualRule.window] at apart ⊢
  split_ifs <;> omega

/-! ### Instants in neighbouring years -/

theorem sides (turns : TakeTurns early late) {w : Window} (member : w ∈ allWindows early late) :
    w.before ∈ [early.before, late.before] ∧ w.after ∈ [early.before, late.before] := by
  obtain ⟨number, lower, upper, rule, side, rfl⟩ := mem_windowsFrom member
  have link := turns.after_early
  have back := turns.after_late
  rcases List.mem_pair.mp side with rfl | rfl
  · simp [AnnualRule.window, link]
  · simp [AnnualRule.window, back]

/-- The offsets are less than a year. -/
theorem year_of_sub (turns : TakeTurns early late) {localTime offset : Int}
    (member : offset ∈ [early.before, late.before]) (lower : 1679 ≤ (yearOf localTime).number)
    (upper : (yearOf localTime).number ≤ 2260) :
    1678 ≤ (yearOf (localTime - offset)).number ∧ (yearOf (localTime - offset)).number ≤ 2261 := by
  obtain ⟨one, two⟩ := turns.inYear 1678 (by decide) (by decide)
  have short : -(365 * nsPerDay) < offset ∧ offset < 365 * nsPerDay := by
    rcases List.mem_pair.mp member with rfl | rfl
    · exact one.before_bounds
    · exact two.before_bounds
  have begun := le_yearOf_iff.mp lower
  have ended := yearOf_lt_iff.mp (Int.lt_add_one_of_le upper)
  have firstYear : (Year.of 1678).firstDay * nsPerDay + 365 * nsPerDay
      = (Year.of 1679).firstDay * nsPerDay := by decide
  have lastYear : (Year.of (2260 + 1)).firstDay * nsPerDay + 365 * nsPerDay
      = (Year.of (2261 + 1)).firstDay * nsPerDay := by decide
  constructor
  · rw [le_yearOf_iff]
    omega
  · rw [← Int.lt_add_one_iff, yearOf_lt_iff]
    omega

/-- The instants that show a local time lie in years that are representable as a whole, where the
rules follow the row of windows. -/
theorem instantsShowing_eq (turns : TakeTurns early late) {h : History}
    (recurring : h.rules = [early, late]) (recent : h.transitions = []) {localTime : Int}
    (lower : 1679 ≤ (yearOf localTime).number) (upper : (yearOf localTime).number ≤ 2260) :
    (Timeline.history h).instantsShowing localTime
      = Window.solutions late.after (allWindows early late) localTime := by
  have agree : ∀ n, 1678 ≤ (yearOf n).number → (yearOf n).number ≤ 2261 →
      h.offsetAtUtc n = Window.offsetAtInstant late.after (allWindows early late) n := by
    intro n begun ended
    rw [turns.offsetAtUtc_eq recurring recent begun ended, allWindows,
      turns.offsetAtInstant_windowsFrom (by decide) (by decide) begun (by omega)]
  ext n
  rw [Window.mem_solutions]
  -- Either way the offset is one of two, which keeps the instant near the local time.
  constructor
  · rintro ⟨bounds, shown⟩
    change n + h.offsetAtUtc n = localTime at shown
    have member := h.offsetAtUtc_mem_pair recurring recent turns.after_late bounds
    obtain ⟨begun, ended⟩ := turns.year_of_sub member lower upper
    rw [show localTime - h.offsetAtUtc n = n by omega] at begun ended
    rw [← agree n begun ended, shown]
  · intro shown
    have base : late.after ∈ [early.before, late.before] := by simp [turns.after_late]
    have member := Window.offsetAtInstant_mem base (fun w => turns.sides) n
    obtain ⟨begun, ended⟩ := turns.year_of_sub member lower upper
    rw [show localTime - Window.offsetAtInstant late.after (allWindows early late) n = n by omega]
      at begun ended
    refine ⟨representable_of_year begun ended, ?_⟩
    change n + h.offsetAtUtc n = localTime
    rw [agree n begun ended, shown]

end TakeTurns

/-- Where two rules take turns, resolving a local time by them finds the least instant that shows
it. Only a local time in the gap of a rule has none, and it resolves to the offset after the gap. -/
theorem Timeline.offsetAtLocal_inverts_recurring_rules {table : TransitionTable}
    {timeline : Timeline} {early late : AnnualRule} {localTime : Int}
    (built : ofDescription (.table table) = .ok timeline) (recent : table.transitions = [])
    (recurring : table.rules = [early, late]) (turns : TakeTurns early late)
    (lower : 1679 ≤ (yearOf localTime).number) (upper : (yearOf localTime).number ≤ 2260) :
    ((timeline.instantsShowing localTime).Nonempty →
        IsLeast (timeline.instantsShowing localTime)
          (localTime - timeline.offsetAtLocal localTime)) ∧
      (timeline.instantsShowing localTime = ∅ →
        ∃ rule ∈ table.rules, (rule.window (yearOf localTime)).Skips localTime ∧
          timeline.offsetAtLocal localTime = rule.after) := by
  obtain ⟨valid, rfl⟩ := ofDescription_table_eq_ok built (by simp [recurring])
  have rules : table.history.rules = [early, late] := recurring
  have transitions : table.history.transitions = [] := by simp [TransitionTable.history, recent]
  have edges : table.history.localEdges = [] := by
    simp [TransitionTable.history, recent, edgesFrom]
  have read : (history table.history).offsetAtLocal localTime
      = Window.offsetAtReading late.after (allWindows early late) localTime := by
    rw [allWindows, turns.offsetAtReading_windowsFrom (by decide) (by decide) (by omega) (by omega)]
    exact turns.offsetAt_eq rules edges (by omega) (by omega)
  rw [read, turns.instantsShowing_eq rules transitions lower upper]
  rcases Window.offsetAtReading_resolves late.after (allWindows early late) localTime
    (turns.chain (by decide) (by decide)) with least | ⟨none, w, member, skipped, offset⟩
  · exact ⟨fun _ => least, fun none => absurd none least.nonempty.ne_empty⟩
  · refine ⟨fun some => absurd none some.ne_empty, fun _ => ?_⟩
    -- The window in which the local time is skipped belongs to a rule in the year of the local time.
    obtain ⟨number, begun, ended, rule, side, rfl⟩ := mem_windowsFrom member
    have stays := turns.staysIn side begun (by omega)
    have same := stays.readings localTime skipped.2.1 (Int.le_of_lt skipped.2.2)
    subst same
    exact ⟨rule, by rwa [recurring], skipped, offset⟩

/-- Clocks go forward on the second Sunday of March at two. -/
def secondSundayOfMarch : AnnualRule where
  offsetBefore := -18000
  offsetAfter := -14400
  standardOffset := -18000
  month := 3
  monthDay := 8
  weekday := some 7
  time := 7200
  endOfDay := false
  clock := .wall

/-- Clocks go back on the first Sunday of November at two. -/
def firstSundayOfNovember : AnnualRule where
  offsetBefore := -14400
  offsetAfter := -18000
  standardOffset := -18000
  month := 11
  monthDay := 1
  weekday := some 7
  time := 7200
  endOfDay := false
  clock := .wall

/-- Half past two on March 10 of 2024 is skipped, half past one on November 3 shown twice. -/
theorem offsetAtLocal_inverts_sundays :
    ∃ timeline, Timeline.ofDescription (.table ⟨[], [-18000],
        [secondSundayOfMarch, firstSundayOfNovember]⟩) = .ok timeline ∧
      IsLeast (timeline.instantsShowing (1730597400 * nsPerSecond)) (1730611800 * nsPerSecond) ∧
      timeline.offsetAtLocal (1710037800 * nsPerSecond) = -14400 * nsPerSecond := by
  let table : TransitionTable := ⟨[], [-18000], [secondSundayOfMarch, firstSundayOfNovember]⟩
  let timeline := Timeline.history table.history
  have built : Timeline.ofDescription (.table table) = .ok timeline := rfl
  have turns : TakeTurns secondSundayOfMarch firstSundayOfNovember := by
    apply TakeTurns.of_seasons <;> first | decide | constructor <;> decide
  have shown : (timeline.instantsShowing (1730597400 * nsPerSecond)).Nonempty :=
    ⟨1730611800 * nsPerSecond, by decide, by decide⟩
  have skipped : timeline.instantsShowing (1710037800 * nsPerSecond) = ∅ := by
    apply Set.eq_empty_of_forall_notMem
    rintro n ⟨bounds, reading⟩
    change n + table.history.offsetAtUtc n = _ at reading
    -- Each of the two offsets leaves one instant, and neither has that offset.
    rcases List.mem_pair.mp (table.history.offsetAtUtc_mem_pair rfl rfl rfl bounds) with
      offset | offset
    · have instant : n = 1710055800 * nsPerSecond := by
        rw [offset] at reading
        simp only [AnnualRule.before, secondSundayOfMarch, nsPerSecond] at reading ⊢
        omega
      subst instant
      exact absurd offset (by decide)
    · have instant : n = 1710052200 * nsPerSecond := by
        rw [offset] at reading
        simp only [AnnualRule.before, firstSundayOfNovember, nsPerSecond] at reading ⊢
        omega
      subst instant
      exact absurd offset (by decide)
  have least := (Timeline.offsetAtLocal_inverts_recurring_rules built rfl rfl turns (by decide)
    (by decide)).1 shown
  obtain ⟨rule, member, ⟨gap, inside⟩, found⟩ := (Timeline.offsetAtLocal_inverts_recurring_rules
    built rfl rfl turns (by decide) (by decide)).2 skipped
  have forward : rule = secondSundayOfMarch := by
    rcases List.mem_pair.mp member with same | same
    · exact same
    · subst same
      exact absurd gap (by decide)
  subst forward
  exact ⟨timeline, built, least, found⟩

end CivilTime.Zone
