/-!
# Byte offsets in a text

Spans of a text are given by offsets into its UTF-8 form. An offset is good where a character starts
or the text ends.
-/
namespace CivilTime.Text

/-- The number of bytes of the UTF-8 form. -/
def byteLength : List Char → Nat
  | [] => 0
  | c :: cs => c.utf8Size + byteLength cs

theorem byteLength_append (cs ds : List Char) :
    byteLength (cs ++ ds) = byteLength cs + byteLength ds := by
  induction cs with
  | nil => simp [byteLength]
  | cons c cs ih => simp only [List.cons_append, byteLength, ih]; omega

/-- The text before and after a byte offset, if the offset is good. -/
def splitAtByte : Nat → List Char → Option (List Char × List Char)
  | 0, cs => some ([], cs)
  | _ + 1, [] => none
  | offset + 1, c :: cs =>
    if c.utf8Size ≤ offset + 1 then
      (splitAtByte (offset + 1 - c.utf8Size) cs).map fun (before, after) => (c :: before, after)
    else
      none

theorem splitAtByte_eq_some {offset : Nat} {cs before after : List Char}
    (h : splitAtByte offset cs = some (before, after)) :
    cs = before ++ after ∧ byteLength before = offset := by
  induction cs generalizing offset before with
  | nil => cases offset <;> simp_all [splitAtByte, byteLength]
  | cons c cs ih =>
    cases offset with
    | zero => simp_all [splitAtByte, byteLength]
    | succ offset =>
      simp only [splitAtByte] at h
      split at h
      next fits =>
        obtain ⟨⟨before', after'⟩, rest, same⟩ := Option.map_eq_some_iff.1 h
        cases same
        obtain ⟨split, size⟩ := ih rest
        refine ⟨by rw [split]; rfl, ?_⟩
        simp only [byteLength]
        omega
      next => cases h

theorem splitAtByte_append (before after : List Char) :
    splitAtByte (byteLength before) (before ++ after) = some (before, after) := by
  induction before with
  | nil => simp [splitAtByte, byteLength]
  | cons c before ih =>
    have positive := c.utf8Size_pos
    obtain ⟨size, hsize⟩ : ∃ size, c.utf8Size = size + 1 := ⟨c.utf8Size - 1, by omega⟩
    have total : byteLength (c :: before) = size + byteLength before + 1 := by
      simp only [byteLength]; omega
    rw [total, List.cons_append, splitAtByte, if_pos (by omega),
      show size + byteLength before + 1 - c.utf8Size = byteLength before by omega, ih]
    rfl

/-- The characters before the byte offset `offset`, or `offset` itself if it is not good. -/
def charPosition (offset : Nat) (cs : List Char) : Nat :=
  match splitAtByte offset cs with
  | some (before, _) => before.length
  | none => offset

/-- The number of characters before a byte span and the text inside, if both offsets are good and in
order. -/
def span? (start stop : Nat) (cs : List Char) : Option (Nat × List Char) :=
  if start ≤ stop then
    match splitAtByte start cs with
    | none => none
    | some (before, after) =>
      (splitAtByte (stop - start) after).map fun (inside, _) => (before.length, inside)
  else
    none

end CivilTime.Text
