import CivilTime.Text.Span
import Mathlib

/-!
# Positions of a text

A position of a string is a byte offset at which a character starts or the string ends. Two
positions in order bound a span of the text, and the positions within the span are the places
between its characters.
-/
namespace CivilTime.Text

theorem byteLength_toList (s : String) : byteLength s.toList = s.utf8ByteSize := by
  have sizes (cs : List Char) : byteLength cs = String.utf8Len cs := by
    induction cs with
    | nil => rfl
    | cons c cs ih => rw [byteLength, String.utf8Len, ih, Nat.add_comm]
  rw [sizes, ← String.utf8ByteSize_ofList, String.ofList_toList]

variable {text : String}

/-- The number of characters in front of a position. -/
@[irreducible]
def charsBefore (p : text.Pos) : Nat := (text.sliceTo p).copy.length

theorem charsBefore_of_splits {p : text.Pos} {before after : String}
    (splits : p.Splits before after) : charsBefore p = before.length := by
  rw [charsBefore, splits.copy_sliceTo_eq]

theorem byteIdx_of_splits {p : text.Pos} {before after : String}
    (splits : p.Splits before after) : p.offset.byteIdx = before.utf8ByteSize := by
  rw [splits.offset_eq_rawEndPos, String.byteIdx_rawEndPos]

theorem extract_of_splits {start stop : text.Pos} {before inside after : String}
    (first : start.Splits before (inside ++ after)) (last : stop.Splits (before ++ inside) after) :
    text.extract start stop = inside := by
  -- A text is cut by its bytes, so both offsets are sizes of what stands in front of them.
  have front : start.offset.byteIdx = before.toByteArray.size + 0 := by
    rw [byteIdx_of_splits first, String.size_toByteArray, Nat.add_zero]
  have back : stop.offset.byteIdx = before.toByteArray.size + inside.toByteArray.size := by
    rw [byteIdx_of_splits last, String.utf8ByteSize_append, String.size_toByteArray,
      String.size_toByteArray]
  have whole : text.toByteArray
      = before.toByteArray ++ (inside.toByteArray ++ after.toByteArray) := by
    rw [first.eq_append, String.toByteArray_append, String.toByteArray_append]
  rw [← String.toByteArray_inj, String.toByteArray_extract, whole, front, back,
    ByteArray.extract_append_size_add, ByteArray.extract_append_eq_left rfl]

/-- Positions in order cut the text in three. -/
theorem exists_span {start stop : text.Pos} (ordered : start ≤ stop) :
    ∃ before after, start.Splits before (text.extract start stop ++ after) ∧
      stop.Splits (before ++ text.extract start stop) after := by
  obtain ⟨inside, front, back⟩ := (start.splits.le_iff_exists_eq_append stop.splits).mp ordered
  have first := start.splits
  have last := stop.splits
  rw [back] at first
  rw [front] at last
  rw [extract_of_splits first last]
  exact ⟨_, _, first, last⟩

end CivilTime.Text
