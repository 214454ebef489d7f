import CivilTime.Calendar.DateTime
import CivilTime.Zone.Recurrence

/-!
# Offsets over time

The offsets of a zone, ready for resolving instants and local times: one offset for good, or a
history of transitions that annual rules continue.

A local time in a gap has the offset after the transition, one in an overlap the offset before
it. A transition at `t` affects local times from `t + min before after` to `t + max before after`.
These edges of all transitions, kept ascending, decide a local time by how many of them it has
passed.
-/
namespace CivilTime.Zone

structure History where
  /-- The instants of the transitions, ascending. -/
  transitions : List Int
  /-- The offset before the first transition, then the offset after each. -/
  offsets : List Int
  /-- Two local edges per transition, ascending. -/
  localEdges : List Int
  /-- The rules after the last transition, in calendar order. -/
  rules : List AnnualRule
  deriving DecidableEq, Repr

inductive Timeline where
  | fixed (offset : Int)
  | history (history : History)
  deriving DecidableEq, Repr

/-- How many of the ascending `marks` are at or before `n`. -/
def passed (marks : List Int) (n : Int) : Nat := (marks.takeWhile (· ≤ n)).length

/-- The local edges of transitions between the given offsets, none before `previous`. -/
def edgesFrom (previous : Int) : List Int → List Int → List Int
  | t :: transitions, before :: after :: offsets =>
    -- Edges stay ascending even where transitions are closer than their offset change.
    let start := max (clamp (t + min before after)) previous
    let stop := max (clamp (t + max before after)) start
    start :: stop :: edgesFrom stop transitions (after :: offsets)
  | _, _ => []

namespace History

/-- The last local edge. The rules decide from here on. -/
def cutoff (h : History) : Int := h.localEdges.getLast?.getD minNanos

/-- The offset between the transitions number `i` and `i + 1`. -/
def offset (h : History) (i : Nat) : Int := h.offsets[i]?.getD 0

/-- The offset at a local time before the cutoff. -/
def offsetBeforeCutoff (h : History) (localTime : Int) : Int :=
  match passed h.localEdges localTime with
  | 0 => h.offset 0
  | edge + 1 =>
    let before := h.offset (edge / 2)
    let after := h.offset (edge / 2 + 1)
    -- An odd edge ends a window. Inside a window only a gap has the offset after it already.
    if edge % 2 = 1 ∨ before < after then after else before

/-- The offset at a local time of `year` that the rules decide. -/
def offsetFromRules (h : History) (localTime : Int) (year : Year) : Int :=
  match h.rules.find? fun rule => localTime < rule.localTransition year with
  | some rule => rule.before
  | none =>
    match h.rules.getLast? with
    | some rule => rule.after
    | none => h.offsets.getLast?.getD 0

def offsetAt (h : History) (localTime : Int) (year : Year) : Int :=
  if h.cutoff ≤ localTime then
    h.offsetFromRules localTime year
  else
    h.offsetBeforeCutoff localTime

/-- The offset at an instant that the rules decide. -/
def offsetFromRulesUtc (h : History) (n : Int) (last : AnnualRule) : Int :=
  match h.rules.find? fun rule => n < rule.utcTransition (yearOf n) with
  | some rule => rule.before
  | none => last.after

def offsetAtUtc (h : History) (n : Int) : Int :=
  match h.rules.getLast? with
  | none => h.offset (passed h.transitions n)
  | some last =>
    -- Without transitions the rules decide from the start.
    if h.transitions.getLast?.getD minNanos ≤ n then
      h.offsetFromRulesUtc n last
    else
      h.offset (passed h.transitions n)

end History

namespace Timeline

def ofSeconds (offset : Int) : Timeline := fixed (offset * nsPerSecond)

/-- The transitions of a table in nanoseconds. -/
def instants (seconds : List Int) : Except TimeError (List Int) :=
  seconds.mapM fun t =>
    if Representable (t * nsPerSecond) then .ok (t * nsPerSecond) else fail .transitionOutOfRange

def ofTable (table : TransitionTable) : Except TimeError Timeline := do
  fromSource table.validate
  let transitions ← instants table.transitions
  let offsets := table.offsets.map (· * nsPerSecond)
  if table.rules.isEmpty ∧ transitions.isEmpty then
    return fixed (offsets.head?.getD 0)
  return history
    { transitions
      offsets
      localEdges := edgesFrom minNanos transitions offsets
      rules := table.rules }

/-- The timeline that a description gives. A table that never changes its offset has one offset. -/
def ofDescription : Description → Except TimeError Timeline
  | .fixed offset => .ok (ofSeconds offset)
  | .table table => ofTable table

def fixedOffset? : Timeline → Option Int
  | fixed offset => some offset
  | history _ => none

/-- The rules after the last transition. -/
def rules : Timeline → List AnnualRule
  | fixed _ => []
  | history h => h.rules

def transitionCount : Timeline → Nat
  | fixed _ => 0
  | history h => h.transitions.length

/-- The offset at a local time of the year `year`, in nanoseconds. -/
def offsetAt (timeline : Timeline) (localTime : Int) (year : Year) : Int :=
  match timeline with
  | fixed offset => offset
  | history h => h.offsetAt localTime year

def offsetAtLocal (timeline : Timeline) (localTime : Int) : Int :=
  timeline.offsetAt localTime (yearOf localTime)

def offsetAtUtc (timeline : Timeline) (n : Int) : Int :=
  match timeline with
  | fixed offset => offset
  | history h => h.offsetAtUtc n

end Timeline
end CivilTime.Zone
