import CivilTime.Proofs.Text.Digits
import CivilTime.Zone.OffsetLiteral

/-!
# Bytes of offset literals

All that an offset literal is read from is ASCII, and so are the names of UTC. So their lengths are
the same in characters and in bytes.
-/
namespace CivilTime.Zone

open Text (Narrow)

theorem isUtc_iff {name : List Char} :
    isUtc name = true ↔ Text.fold name = ['u', 't', 'c'] ∨ Text.fold name = ['g', 'm', 't'] := by
  rw [isUtc, Bool.or_eq_true, beq_iff_eq, beq_iff_eq]

theorem length_of_isUtc {name : List Char} (named : isUtc name = true) :
    name.length = 3 ∧ Text.byteLength name = 3 := by
  rw [← Text.length_fold, ← Text.byteLength_fold]
  rcases isUtc_iff.mp named with utc | gmt
  · rw [utc]
    exact ⟨rfl, rfl⟩
  · rw [gmt]
    exact ⟨rfl, rfl⟩

theorem narrow_of_startsWithUtc {cs : List Char} (starts : startsWithUtc cs = true) :
    Narrow 3 cs := by
  obtain ⟨length, size⟩ := length_of_isUtc starts
  exact ⟨cs.take 3, cs.drop 3, (List.take_append_drop 3 cs).symm, length, size⟩

/-- Whether three bytes or three characters are looked at makes no difference. -/
theorem any_isUtc_splitAtByte (cs : List Char) :
    ((Text.splitAtByte 3 cs).map (·.1)).any isUtc = startsWithUtc cs := by
  rw [Bool.eq_iff_iff, Option.any_eq_true]
  constructor
  · rintro ⟨name, split, named⟩
    obtain ⟨⟨front, rest⟩, cut, same⟩ := Option.map_eq_some_iff.mp split
    obtain rfl : front = name := same
    obtain ⟨rfl, -⟩ := Text.splitAtByte_eq_some cut
    have length := (length_of_isUtc named).1
    rwa [startsWithUtc, ← length, List.take_left]
  · intro named
    have split := Text.splitAtByte_append (cs.take 3) (cs.drop 3)
    rw [(length_of_isUtc named).2, List.take_append_drop] at split
    exact ⟨cs.take 3, Option.map_eq_some_iff.mpr ⟨_, split, rfl⟩, named⟩

namespace OffsetLiteral

variable {cs : List Char} {literal : OffsetLiteral} {read : Nat}

theorem minutes_narrow (cs : List Char) : Narrow (minutes cs).2 cs := by
  by_cases divided : cs.head? = some ':'
  · simp only [minutes, if_pos divided]
    have digits := Text.narrow_leadingDigits 2 (cs.drop 1)
    split
    next two => exact (Text.narrow_head divided (by decide)).append (two ▸ digits)
    next => exact Text.narrow_zero cs
  · simp only [minutes, if_neg divided, List.drop_zero]
    have digits := Text.narrow_leadingDigits 2 cs
    split
    next two =>
      rw [two] at digits
      exact digits
    next => exact Text.narrow_zero cs

/-- Behind `read` characters, one literal is read from `length` more. -/
theorem magnitude_narrow {sign : Int} (found : magnitude sign read cs = some literal) :
    ∃ length, literal.length = read + length ∧ Narrow length cs := by
  simp only [magnitude] at found
  split at found
  · cases found
  · cases found
    exact ⟨_, Nat.add_assoc _ _ _, (Text.narrow_leadingDigits 2 cs).append (minutes_narrow _)⟩

theorem signed?_narrow (found : signed? read cs = some literal) :
    ∃ length, literal.length = read + length ∧ Narrow length cs := by
  have behind {c : Char} {rest : List Char} (ascii : c.toNat < 128) {length : Nat}
      (narrow : Narrow length rest) : Narrow (1 + length) (c :: rest) :=
    (Text.narrow_head (List.head?_cons ..) ascii).append narrow
  unfold signed? at found
  split at found
  next rest =>
    obtain ⟨length, sum, narrow⟩ := magnitude_narrow found
    exact ⟨1 + length, by omega, behind (by decide) narrow⟩
  next rest =>
    obtain ⟨length, sum, narrow⟩ := magnitude_narrow found
    exact ⟨1 + length, by omega, behind (by decide) narrow⟩
  next => cases found

theorem read?_narrow (found : read? cs = some literal) : Narrow literal.length cs := by
  unfold read? at found
  split at found
  next utc =>
    cases found
    rcases utc with upper | lower
    · exact Text.narrow_head upper (by decide)
    · exact Text.narrow_head lower (by decide)
  next =>
    split at found
    next named =>
      obtain ⟨length, sum, narrow⟩ := signed?_narrow found
      exact sum ▸ (narrow_of_startsWithUtc named).append narrow
    next =>
      split at found
      next =>
        obtain ⟨length, sum, narrow⟩ := signed?_narrow found
        exact (sum.trans (Nat.zero_add _)) ▸ narrow
      next =>
        obtain ⟨length, sum, narrow⟩ := magnitude_narrow found
        exact (sum.trans (Nat.zero_add _)) ▸ narrow

end OffsetLiteral
end CivilTime.Zone
