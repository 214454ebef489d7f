import CivilTime.Zone.Timeline
import Mathlib

/-!
# Transition windows

At a transition clocks leave one offset for another, so the local times between the two readings at
its instant are shown twice or not at all. These local times are the window of the transition.

Both ways to look an offset up walk the transitions in order: instants are compared with the
transitions themselves, local times with their windows. As long as no window reaches into the next
one, the walk by windows finds the least instant that shows a local time, if one does.
-/
namespace CivilTime.Zone

/-- A transition with the offsets before and after it. -/
structure Window where
  instant : Int
  before : Int
  after : Int
  deriving DecidableEq, Repr

namespace Window

/-- The lesser of the local times at the transition. -/
def start (w : Window) : Int := w.instant + min w.before w.after

/-- The greater of the local times at the transition. -/
def stop (w : Window) : Int := w.instant + max w.before w.after

theorem start_le_stop (w : Window) : w.start ≤ w.stop := by
  unfold start stop
  omega

theorem start_le_before (w : Window) : w.start ≤ w.instant + w.before := by
  unfold start
  omega

theorem before_le_stop (w : Window) : w.instant + w.before ≤ w.stop := by
  unfold stop
  omega

/-- No clock shows the local time, since clocks jump over it. -/
def Skips (w : Window) (localTime : Int) : Prop :=
  w.before < w.after ∧ w.start ≤ localTime ∧ localTime < w.stop

/-- The next transition starts from the offset that this one leaves, in a window not before its
end. -/
def Precedes (v w : Window) : Prop := v.after = w.before ∧ v.stop ≤ w.start

theorem Precedes.instant_le {v w : Window} (h : v.Precedes w) : v.instant ≤ w.instant := by
  obtain ⟨link, apart⟩ := h
  unfold stop start at apart
  omega

/-- The offset at an instant. `first` is the offset without transitions. -/
def offsetAtInstant (first : Int) : List Window → Int → Int
  | [], _ => first
  | w :: later, n => if n < w.instant then w.before else offsetAtInstant w.after later n

/-- The offset at a local time: the one after a transition in a gap, the one before it in an
overlap. -/
def offsetAtReading (first : Int) : List Window → Int → Int
  | [], _ => first
  | w :: later, localTime =>
    if localTime < w.start then w.before
    else if localTime < w.stop then if w.before < w.after then w.after else w.before
    else offsetAtReading w.after later localTime

/-- The instants at which clocks show a local time. -/
def solutions (first : Int) (windows : List Window) (localTime : Int) : Set Int :=
  { n | n + offsetAtInstant first windows n = localTime }

theorem mem_solutions {first localTime n : Int} {windows : List Window} :
    n ∈ solutions first windows localTime ↔ n + offsetAtInstant first windows n = localTime :=
  Iff.rfl

theorem offsetAtInstant_mem {first : Int} {windows : List Window} {offsets : List Int}
    (base : first ∈ offsets) (sides : ∀ w ∈ windows, w.before ∈ offsets ∧ w.after ∈ offsets)
    (n : Int) : offsetAtInstant first windows n ∈ offsets := by
  induction windows generalizing first with
  | nil => exact base
  | cons w later ih =>
    have own := sides w List.mem_cons_self
    rw [offsetAtInstant]
    split
    · exact own.1
    · exact ih own.2 fun v member => sides v (List.mem_cons_of_mem w member)

section Chain

variable {w : Window} {later : List Window}

/-- Instants before a transition see none of the later ones either. -/
theorem offsetAtInstant_of_lt (chain : (w :: later).IsChain Precedes) {n : Int}
    (early : n < w.instant) : offsetAtInstant w.after later n = w.after := by
  cases later with
  | nil => rfl
  | cons v later =>
    have next := (List.isChain_cons_cons.mp chain).1
    have ordered := next.instant_le
    rw [offsetAtInstant, if_pos (by omega), next.1]

/-- From a transition on, clocks never fall back behind the time that it sets. -/
theorem reading_ge (chain : (w :: later).IsChain Precedes) {n : Int} (passed : w.instant ≤ n) :
    w.instant + w.after ≤ n + offsetAtInstant w.after later n := by
  induction later generalizing w with
  | nil => simpa [offsetAtInstant] using passed
  | cons v later ih =>
    obtain ⟨⟨link, apart⟩, chain⟩ := List.isChain_cons_cons.mp chain
    rw [offsetAtInstant]
    split
    · omega
    · next reached =>
      -- The clock may step back at `v`, but only within a window that starts late enough.
      have kept := ih chain (Int.not_lt.mp reached)
      unfold stop start at apart
      omega

/-! ### One transition -/

/-- Before the window only the offset before the transition gives the local time, and in an overlap
it gives the least instant. -/
theorem isLeast_before {first localTime : Int} (early : localTime < w.instant + w.before) :
    IsLeast (solutions first (w :: later) localTime) (localTime - w.before) := by
  constructor
  · rw [mem_solutions, offsetAtInstant, if_pos (by omega)]
    omega
  · intro n shown
    rw [mem_solutions, offsetAtInstant] at shown
    split at shown <;> omega

theorem solutions_eq_empty (chain : (w :: later).IsChain Precedes) {first localTime : Int}
    (skipped : w.Skips localTime) : solutions first (w :: later) localTime = ∅ := by
  obtain ⟨gap, started, ends⟩ := skipped
  unfold start at started
  unfold stop at ends
  apply Set.eq_empty_of_forall_notMem
  intro n shown
  rw [mem_solutions, offsetAtInstant] at shown
  split at shown
  · omega
  · next reached =>
    have jumped := reading_ge chain (Int.not_lt.mp reached)
    omega

/-- Behind the window the transition may be left out. -/
theorem solutions_cons (chain : (w :: later).IsChain Precedes) {first localTime : Int}
    (behind : w.stop ≤ localTime) :
    solutions first (w :: later) localTime = solutions w.after later localTime := by
  unfold stop at behind
  ext n
  rw [mem_solutions, mem_solutions, offsetAtInstant]
  split
  -- Before the transition neither offset gives a local time behind the window.
  · next early =>
    rw [offsetAtInstant_of_lt chain early]
    omega
  · exact Iff.rfl

end Chain

/-! ### All transitions -/

/-- The walk by windows finds the least instant that shows a local time. It finds none only in a
gap, and the offset is then the one after the gap. -/
theorem offsetAtReading_resolves (first : Int) (windows : List Window) (localTime : Int)
    (chain : windows.IsChain Precedes) :
    IsLeast (solutions first windows localTime)
        (localTime - offsetAtReading first windows localTime) ∨
      solutions first windows localTime = ∅ ∧
        ∃ w ∈ windows, w.Skips localTime ∧ offsetAtReading first windows localTime = w.after := by
  -- Windows that a local time has passed drop out of the walk and of the solutions alike.
  induction windows generalizing first with
  | nil =>
    left
    constructor
    · simp [mem_solutions, offsetAtInstant, offsetAtReading]
    · intro n shown
      rw [mem_solutions, offsetAtInstant] at shown
      rw [offsetAtReading]
      omega
  | cons w later ih =>
    rw [offsetAtReading]
    split
    · next early =>
      left
      apply isLeast_before
      unfold start at early
      omega
    · next started =>
      split
      · next inside =>
        split
        · next gap =>
          right
          have skipped : w.Skips localTime := ⟨gap, Int.not_lt.mp started, inside⟩
          exact ⟨solutions_eq_empty chain skipped, w, List.mem_cons_self, skipped, rfl⟩
        · next overlap =>
          left
          apply isLeast_before
          unfold stop at inside
          omega
      · next behind =>
        rw [solutions_cons chain (Int.not_lt.mp behind)]
        rcases ih w.after chain.tail with found | ⟨none, v, member, skipped⟩
        · exact Or.inl found
        · exact Or.inr ⟨none, v, List.mem_cons_of_mem w member, skipped⟩

end Window
end CivilTime.Zone
