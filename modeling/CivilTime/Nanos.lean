/-!
# Nanosecond counts

An instant is a count of nanoseconds since 1970-01-01T00:00:00Z. Counts are exact integers;
the 64-bit range enters only as a predicate and, where tables are precomputed, as a clamp.
The least count of the range is reserved: it stands for a missing instant, so an instant proper
lies strictly above it.
-/
namespace CivilTime

abbrev nsPerMicrosecond : Int := 1000
abbrev nsPerMillisecond : Int := 1000000
abbrev nsPerSecond : Int := 1000000000
abbrev nsPerMinute : Int := 60 * nsPerSecond
abbrev nsPerHour : Int := 60 * nsPerMinute
abbrev nsPerDay : Int := 24 * nsPerHour
abbrev nsPerWeek : Int := 7 * nsPerDay

/-- The least 64-bit count, which marks a missing instant. -/
abbrev minNanos : Int := -9223372036854775808

/-- The greatest 64-bit count. -/
abbrev maxNanos : Int := 9223372036854775807

/-- The count fits in 64 bits. -/
def Representable (n : Int) : Prop := minNanos ≤ n ∧ n ≤ maxNanos

instance (n : Int) : Decidable (Representable n) :=
  inferInstanceAs (Decidable (_ ∧ _))

/-- The count is an instant: it fits in 64 bits and is not the mark of a missing one. -/
def IsInstant (n : Int) : Prop := minNanos < n ∧ n ≤ maxNanos

instance (n : Int) : Decidable (IsInstant n) :=
  inferInstanceAs (Decidable (_ ∧ _))

theorem isInstant_iff {n : Int} : IsInstant n ↔ Representable n ∧ n ≠ minNanos := by
  unfold IsInstant Representable minNanos; omega

/-- The 64-bit count nearest to `n`. -/
def clamp (n : Int) : Int := max minNanos (min n maxNanos)

theorem clamp_representable (n : Int) : Representable (clamp n) := by
  unfold Representable clamp minNanos maxNanos; omega

theorem clamp_of_representable {n : Int} (h : Representable n) : clamp n = n := by
  unfold Representable at h; unfold clamp; omega

theorem clamp_mono {m n : Int} (h : m ≤ n) : clamp m ≤ clamp n := by
  unfold clamp; omega

end CivilTime
