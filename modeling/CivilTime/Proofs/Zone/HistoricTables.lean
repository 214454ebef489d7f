import CivilTime.Proofs.Zone.Tables
import CivilTime.Proofs.Zone.Windows

/-!
# Local times of historic tables

The look-ups of a history count the marks that an instant or a local time has passed. Both counts
are walks over the windows of the transitions: the transitions pair up with the offsets on their
sides, and the local edges, as long as none is moved, are the two ends of each window.
-/
namespace CivilTime.Zone

/-- The windows of transitions between the given offsets. -/
def windowsBetween (transitions offsets : List Int) : List Window :=
  List.zipWith3 Window.mk transitions offsets offsets.tail

theorem windowsBetween_cons (t before after : Int) (transitions offsets : List Int) :
    windowsBetween (t :: transitions) (before :: after :: offsets)
      = ⟨t, before, after⟩ :: windowsBetween transitions (after :: offsets) :=
  rfl

/-- The windows of the transitions of a table, in nanoseconds. -/
def TransitionTable.windows (table : TransitionTable) : List Window :=
  windowsBetween (table.transitions.map (· * nsPerSecond)) (table.offsets.map (· * nsPerSecond))

/-- One offset stands before, between and after all transitions. -/
inductive Surrounds : List Int → List Int → Prop
  | last (offset : Int) : Surrounds [offset] []
  | step (t before : Int) {after : Int} {offsets transitions : List Int} :
      Surrounds (after :: offsets) transitions →
        Surrounds (before :: after :: offsets) (t :: transitions)

theorem surrounds_of_length {transitions offsets : List Int}
    (sized : offsets.length = transitions.length + 1) : Surrounds offsets transitions := by
  induction transitions generalizing offsets with
  | nil =>
    obtain ⟨offset, rfl⟩ := List.length_eq_one_iff.mp sized
    exact .last offset
  | cons t transitions ih =>
    match offsets, sized with
    | before :: after :: offsets, sized => exact .step t before (ih (Nat.succ.inj sized))

theorem passed_cons (mark : Int) (marks : List Int) (n : Int) :
    passed (mark :: marks) n = if mark ≤ n then passed marks n + 1 else 0 := by
  unfold passed
  rw [List.takeWhile_cons]
  split <;> simp_all

/-- Both ends of each window. -/
def Window.ends (windows : List Window) : List Int := windows.flatMap fun w => [w.start, w.stop]

namespace Surrounds

variable {transitions offsets : List Int}

theorem headD_mem (around : Surrounds offsets transitions) : offsets.headD 0 ∈ offsets := by
  cases around with
  | last offset => exact List.mem_singleton_self offset
  | step t before rest => exact List.mem_cons_self

theorem mem_offsets (around : Surrounds offsets transitions) {w : Window}
    (member : w ∈ windowsBetween transitions offsets) : w.before ∈ offsets ∧ w.after ∈ offsets := by
  induction around with
  | last offset => cases member
  | step t before rest ih =>
    rcases List.mem_cons.mp member with rfl | member
    · simp
    · obtain ⟨left, right⟩ := ih member
      exact ⟨List.mem_cons_of_mem _ left, List.mem_cons_of_mem _ right⟩

theorem precedes (around : Surrounds offsets transitions)
    (apart : (windowsBetween transitions offsets).IsChain fun v w => v.stop ≤ w.start) :
    (windowsBetween transitions offsets).IsChain Window.Precedes := by
  induction around with
  | last offset => exact List.isChain_nil
  | step t before rest ih =>
    have later := ih apart.tail
    cases rest with
    | last offset => exact List.isChain_singleton _
    | step t after rest =>
      have first := (List.isChain_cons_cons.mp apart).1
      exact List.isChain_cons_cons.mpr ⟨⟨rfl, first⟩, later⟩

theorem offset_passed (around : Surrounds offsets transitions) (n : Int) :
    offsets[passed transitions n]?.getD 0
      = Window.offsetAtInstant (offsets.headD 0) (windowsBetween transitions offsets) n := by
  induction around with
  | last offset => rfl
  | @step t before after offsets transitions rest ih =>
    rw [windowsBetween_cons, Window.offsetAtInstant, passed_cons]
    split
    · next reached =>
      rw [if_neg (Int.not_lt.mpr reached), List.getElem?_cons_succ]
      exact ih
    · next early =>
      rw [if_pos (Int.not_le.mp early)]
      rfl

/-! ### Local edges -/

/-- Edges that neither leave the 64-bit range nor overtake each other are the ends of the
windows. -/
theorem edgesFrom_eq (around : Surrounds offsets transitions) {previous : Int}
    (exact : ∀ w ∈ windowsBetween transitions offsets, Representable w.start ∧ Representable w.stop)
    (apart : (windowsBetween transitions offsets).IsChain fun v w => v.stop ≤ w.start)
    (above : ∀ w ∈ (windowsBetween transitions offsets).head?, previous ≤ w.start) :
    edgesFrom previous transitions offsets
      = Window.ends (windowsBetween transitions offsets) := by
  induction around generalizing previous with
  | last offset => rfl
  | @step t before after offsets transitions rest ih =>
    let w : Window := ⟨t, before, after⟩
    obtain ⟨startFits, stopFits⟩ := exact w List.mem_cons_self
    have opened : max (clamp w.start) previous = w.start := by
      rw [clamp_of_representable startFits]
      exact max_eq_left (above w rfl)
    have closed : max (clamp w.stop) w.start = w.stop := by
      rw [clamp_of_representable stopFits]
      exact max_eq_left w.start_le_stop
    have next : ∀ v ∈ (windowsBetween transitions (after :: offsets)).head?, w.stop ≤ v.start := by
      exact (List.isChain_cons.mp apart).1
    have later := ih (fun v member => exact v (List.mem_cons_of_mem w member)) apart.tail next
    change max (clamp w.start) previous :: max (clamp w.stop) (max (clamp w.start) previous) ::
      edgesFrom (max (clamp w.stop) (max (clamp w.start) previous)) transitions (after :: offsets)
        = w.start :: w.stop :: Window.ends (windowsBetween transitions (after :: offsets))
    rw [opened, closed, later]

/-- Before the cutoff a local time is looked up by windows. -/
theorem offsetBeforeCutoff_eq (around : Surrounds offsets transitions) (marks : List Int)
    (rules : List AnnualRule) (localTime : Int) :
    (History.mk marks offsets (Window.ends (windowsBetween transitions offsets))
        rules).offsetBeforeCutoff localTime
      = Window.offsetAtReading (offsets.headD 0) (windowsBetween transitions offsets) localTime := by
  induction around with
  | last offset => rfl
  | @step t before after offsets transitions rest ih =>
    let w : Window := ⟨t, before, after⟩
    let edges := Window.ends (windowsBetween transitions (after :: offsets))
    have counted : passed (w.start :: w.stop :: edges) localTime
        = if w.start ≤ localTime then (if w.stop ≤ localTime then passed edges localTime + 1 else 0) + 1
          else 0 := by
      rw [passed_cons, passed_cons]
    change (History.mk marks _ (w.start :: w.stop :: edges) rules).offsetBeforeCutoff localTime
      = Window.offsetAtReading _ (w :: windowsBetween transitions (after :: offsets)) localTime
    rw [Window.offsetAtReading]
    split
    · next early =>
      rw [if_neg (Int.not_le.mpr early)] at counted
      simp only [History.offsetBeforeCutoff, counted]
      rfl
    · next started =>
      rw [if_pos (Int.not_lt.mp started)] at counted
      split
      · next inside =>
        rw [if_neg (Int.not_le.mpr inside)] at counted
        simp [History.offsetBeforeCutoff, counted, History.offset, w]
      · next behind =>
        rw [if_pos (Int.not_lt.mp behind)] at counted
        refine Eq.trans ?_ ih
        simp only [History.offsetBeforeCutoff, counted]
        cases passed edges localTime with
        | zero => rfl
        | succ edge =>
          -- Two more edges shift the look-up by one transition.
          have shifted : (edge + 1 + 1) / 2 = edge / 2 + 1 := by omega
          have parity : (edge + 1 + 1) % 2 = edge % 2 := by omega
          simp only [shifted, parity, History.offset, List.getElem?_cons_succ]
          rfl

/-- From the last window on the last offset stays. -/
theorem offsetAtReading_last (around : Surrounds offsets transitions) {localTime : Int}
    (behind : ∀ w ∈ windowsBetween transitions offsets, w.stop ≤ localTime) :
    Window.offsetAtReading (offsets.headD 0) (windowsBetween transitions offsets) localTime
      = offsets.getLast?.getD 0 := by
  induction around with
  | last offset => rfl
  | @step t before after offsets transitions rest ih =>
    let w : Window := ⟨t, before, after⟩
    have stopped : w.stop ≤ localTime := behind w List.mem_cons_self
    have started := Int.le_trans w.start_le_stop stopped
    rw [windowsBetween_cons, Window.offsetAtReading, if_neg (Int.not_lt.mpr started),
      if_neg (Int.not_lt.mpr stopped)]
    exact ih fun v member => behind v (List.mem_cons_of_mem w member)

end Surrounds

/-- The last end of windows that do not overlap is the greatest. -/
theorem Window.stop_le_last {windows : List Window}
    (apart : windows.IsChain fun v w => v.stop ≤ w.start) :
    ∀ w ∈ windows, w.stop ≤ (ends windows).getLast?.getD minNanos := by
  induction windows with
  | nil => simp
  | cons w later ih =>
    have greatest := ih apart.tail
    cases later with
    | nil =>
      intro v member
      obtain rfl := List.mem_singleton.mp member
      exact Int.le_refl _
    | cons v later =>
      have next : w.stop ≤ v.start := (List.isChain_cons_cons.mp apart).1
      have last : (ends (w :: v :: later)).getLast? = (ends (v :: later)).getLast? := rfl
      have bound := greatest v List.mem_cons_self
      have ordered := v.start_le_stop
      rw [last]
      intro u member
      rcases List.mem_cons.mp member with rfl | member
      · omega
      · exact greatest u member

namespace TransitionTable

variable {table : TransitionTable}

/-- The offset before the first transition. -/
def firstOffset (table : TransitionTable) : Int := (table.offsets.map (· * nsPerSecond)).headD 0

theorem surrounds (valid : table.validate = .ok ()) :
    Surrounds (table.offsets.map (· * nsPerSecond)) (table.transitions.map (· * nsPerSecond)) := by
  apply surrounds_of_length
  rw [List.length_map, List.length_map]
  exact (validate_eq_ok valid).1

theorem offsetAtUtc_history (valid : table.validate = .ok ()) (historic : table.rules = [])
    (n : Int) :
    table.history.offsetAtUtc n = Window.offsetAtInstant table.firstOffset table.windows n := by
  have found := (surrounds valid).offset_passed n
  simp only [History.offsetAtUtc, history, historic]
  exact found

theorem offsetAt_history (valid : table.validate = .ok ()) (historic : table.rules = [])
    (exact : ∀ w ∈ table.windows, Representable w.start ∧ Representable w.stop)
    (apart : table.windows.IsChain fun v w => v.stop ≤ w.start) (localTime : Int) (year : Year) :
    table.history.offsetAt localTime year
      = Window.offsetAtReading table.firstOffset table.windows localTime := by
  have around := surrounds valid
  have edges : table.history.localEdges = Window.ends table.windows := by
    apply around.edgesFrom_eq exact apart
    intro w first
    exact (exact w (List.mem_of_mem_head? first)).1.1
  unfold History.offsetAt
  split
  -- At the cutoff all windows are behind, so the last offset is the one that the walk ends with.
  · next decided =>
    rw [History.cutoff, edges] at decided
    simp only [History.offsetFromRules, history, historic]
    symm
    apply around.offsetAtReading_last
    intro w member
    exact Int.le_trans (Window.stop_le_last apart w member) decided
  · have found := around.offsetBeforeCutoff_eq table.history.transitions table.rules localTime
    rw [show Window.ends (windowsBetween _ _) = table.history.localEdges from edges.symm] at found
    exact found

theorem offsetAtInstant_mem_offsets (valid : table.validate = .ok ()) (n : Int) :
    ∃ offset ∈ table.offsets,
      Window.offsetAtInstant table.firstOffset table.windows n = offset * nsPerSecond := by
  have around := surrounds valid
  have found := Window.offsetAtInstant_mem around.headD_mem (fun w => around.mem_offsets) n
  obtain ⟨offset, member, same⟩ := List.mem_map.mp found
  exact ⟨offset, member, same.symm⟩

end TransitionTable

/-- Where windows stay in the 64-bit range and apart from each other, resolving a local time over a
historic table finds the least instant that shows it. Only a local time in a gap has none, and it
resolves to the offset after the gap. -/
theorem Timeline.offsetAtLocal_inverts_historic_table {table : TransitionTable} {timeline : Timeline}
    {localTime : Int} (built : ofDescription (.table table) = .ok timeline)
    (historic : table.rules = []) (changes : table.transitions ≠ [])
    (exact : ∀ w ∈ table.windows, Representable w.start ∧ Representable w.stop)
    (apart : table.windows.IsChain fun v w => v.stop ≤ w.start)
    (fits : ∀ offset ∈ table.offsets, Representable (localTime - offset * nsPerSecond)) :
    ((timeline.instantsShowing localTime).Nonempty →
        IsLeast (timeline.instantsShowing localTime)
          (localTime - timeline.offsetAtLocal localTime)) ∧
      (timeline.instantsShowing localTime = ∅ →
        ∃ w ∈ table.windows, w.Skips localTime ∧ timeline.offsetAtLocal localTime = w.after) := by
  obtain ⟨valid, rfl⟩ := ofDescription_table_eq_ok built fun none => changes none.2
  have chain := (TransitionTable.surrounds valid).precedes apart
  have read : (history table.history).offsetAtLocal localTime
      = Window.offsetAtReading table.firstOffset table.windows localTime :=
    TransitionTable.offsetAt_history valid historic exact apart localTime _
  have shown : (history table.history).instantsShowing localTime
      = Window.solutions table.firstOffset table.windows localTime := by
    ext n
    have utc := TransitionTable.offsetAtUtc_history valid historic n
    obtain ⟨offset, member, found⟩ := TransitionTable.offsetAtInstant_mem_offsets valid n
    have bound := fits offset member
    rw [Window.mem_solutions]
    change Representable n ∧ n + table.history.offsetAtUtc n = localTime ↔ _
    rw [utc, found]
    constructor
    · exact And.right
    · intro sum
      exact ⟨by rwa [← sum, Int.add_sub_cancel] at bound, sum⟩
  rw [read, shown]
  rcases Window.offsetAtReading_resolves table.firstOffset table.windows localTime chain with
    least | ⟨none, skipped⟩
  · exact ⟨fun _ => least, fun none => absurd none least.nonempty.ne_empty⟩
  · exact ⟨fun some => absurd none some.ne_empty, fun _ => skipped⟩

/-- A clock that is put forward by an hour for one hour. -/
def hourAhead : TransitionTable where
  transitions := [3600, 7200]
  offsets := [0, 3600, 0]
  rules := []

/-- The windows of the two transitions touch. The second hour is skipped, the third shown twice. -/
theorem offsetAtLocal_inverts_hourAhead :
    ∃ timeline, Timeline.ofDescription (.table hourAhead) = .ok timeline ∧
      IsLeast (timeline.instantsShowing (9000 * nsPerSecond)) (5400 * nsPerSecond) ∧
      ∃ w ∈ hourAhead.windows, w.Skips (5400 * nsPerSecond) ∧
        timeline.offsetAtLocal (5400 * nsPerSecond) = w.after := by
  let timeline := Timeline.history hourAhead.history
  have built : Timeline.ofDescription (.table hourAhead) = .ok timeline := rfl
  have shown : (timeline.instantsShowing (9000 * nsPerSecond)).Nonempty :=
    ⟨5400 * nsPerSecond, by decide, by decide⟩
  have skipped : timeline.instantsShowing (5400 * nsPerSecond) = ∅ := by
    apply Set.eq_empty_of_forall_notMem
    rintro n ⟨bounds, reading⟩
    change n + hourAhead.history.offsetAtUtc n = _ at reading
    rw [TransitionTable.offsetAtUtc_history rfl rfl] at reading
    simp only [hourAhead, TransitionTable.windows, windowsBetween, List.map, List.tail,
      List.zipWith3, Window.offsetAtInstant, nsPerSecond] at reading
    split at reading
    · omega
    · split at reading <;> omega
  have least := (Timeline.offsetAtLocal_inverts_historic_table built rfl (by decide) (by decide)
    (by decide) (by decide)).1 shown
  have gap := (Timeline.offsetAtLocal_inverts_historic_table built rfl (by decide) (by decide)
    (by decide) (by decide)).2 skipped
  exact ⟨timeline, built, least, gap⟩

end CivilTime.Zone
