import CivilTime.Layout.Read
import CivilTime.Proofs.Text.Bytes

/-!
# Spans that are none

A span that is reversed, reaches past the end of the text or has an end inside a character is
refused, whatever the layout would have read. The error points at the start of the span, or at the
end of the text if the span starts past that. Between two characters that is told by the number of
characters in front. Of a start inside a character the number of bytes in front is told instead,
which points there only if the start is the second byte of the first character that has several.
-/
namespace CivilTime

namespace Text

variable {offset : Nat} {cs before after : List Char} {c : Char}

/-! ### Offsets inside characters -/

/-- The byte offset is behind the start of a character and in front of its end. -/
def InsideChar (offset : Nat) (cs : List Char) : Prop :=
  ∃ before c after, cs = before ++ c :: after ∧
    byteLength before < offset ∧ offset < byteLength before + c.utf8Size

theorem InsideChar.cons (inside : InsideChar offset cs) (c : Char) :
    InsideChar (c.utf8Size + offset) (c :: cs) := by
  obtain ⟨before, d, after, rfl, lower, upper⟩ := inside
  refine ⟨c :: before, d, after, rfl, ?_, ?_⟩
  all_goals
    rw [byteLength]
    omega

theorem InsideChar.lt_byteLength (inside : InsideChar offset cs) : offset < byteLength cs := by
  obtain ⟨before, c, after, rfl, -, upper⟩ := inside
  rw [byteLength_append, byteLength]
  omega

/-- Where a text ends that another one follows is between characters. -/
theorem not_insideChar_append (before after : List Char) :
    ¬ InsideChar (byteLength before) (before ++ after) := by
  rintro ⟨front, c, back, same, lower, upper⟩
  -- One of the two texts in front starts the other.
  rcases List.append_eq_append_iff.mp same with ⟨middle, rfl, -⟩ | ⟨middle, rfl, rest⟩
  · rw [byteLength_append] at lower
    omega
  · rw [byteLength_append] at lower upper
    cases middle with
    | nil => exact Nat.lt_irrefl _ lower
    | cons d middle =>
      obtain ⟨rfl, -⟩ := List.cons.inj rest
      rw [byteLength] at upper
      omega

theorem insideChar_of_splitAtByte (unsplit : splitAtByte offset cs = none)
    (within : offset ≤ byteLength cs) : InsideChar offset cs := by
  induction cs generalizing offset with
  | nil =>
    obtain rfl := Nat.le_zero.mp within
    cases unsplit
  | cons c cs ih =>
    rw [byteLength] at within
    cases offset with
    | zero => cases unsplit
    | succ offset =>
      rw [splitAtByte] at unsplit
      split at unsplit
      next fits =>
        have inside := ih (Option.map_eq_none_iff.mp unsplit) (by omega)
        have whole : offset + 1 = c.utf8Size + (offset + 1 - c.utf8Size) := by omega
        rw [whole]
        exact inside.cons c
      next wide =>
        refine ⟨[], c, cs, rfl, Nat.succ_pos offset, ?_⟩
        rw [byteLength]
        omega

/-- A byte offset splits a text unless it is past the end or inside a character. -/
theorem splitAtByte_eq_none_iff :
    splitAtByte offset cs = none ↔ byteLength cs < offset ∨ InsideChar offset cs := by
  constructor
  · intro unsplit
    by_cases past : byteLength cs < offset
    · exact .inl past
    · exact .inr (insideChar_of_splitAtByte unsplit (Nat.le_of_not_lt past))
  · intro outside
    by_contra split
    obtain ⟨⟨before, after⟩, found⟩ := Option.ne_none_iff_exists'.mp split
    obtain ⟨rfl, rfl⟩ := splitAtByte_eq_some found
    rcases outside with past | inside
    · rw [byteLength_append] at past
      omega
    · exact not_insideChar_append before after inside

/-! ### Places of a text -/

/-- The number of characters that end at or before the byte offset. -/
def charsEndedBy (offset : Nat) (cs : List Char) : Nat :=
  ((Finset.range cs.length).filter fun i => byteLength (cs.take (i + 1)) ≤ offset).card

/-- The number of characters that begin at or before the byte offset. -/
def charsBegunBy (offset : Nat) (cs : List Char) : Nat :=
  ((Finset.range cs.length).filter fun i => byteLength (cs.take i) ≤ offset).card

/-- The number of characters points at the byte offset: it counts those that end by there, and none
that begin later. -/
structure PointsAt (position offset : Nat) (cs : List Char) : Prop where
  ended_le : charsEndedBy offset cs ≤ position
  le_begun : position ≤ charsBegunBy offset cs
  le_length : position ≤ cs.length

/-- So many characters and no more are in front of the byte offset as a whole. -/
structure WholeBefore (count offset : Nat) (cs : List Char) : Prop where
  le_length : count ≤ cs.length
  lower : byteLength (cs.take count) ≤ offset
  upper : count < cs.length → offset < byteLength (cs.take (count + 1))

theorem byteLength_take_mono (cs : List Char) {i j : Nat} (ordered : i ≤ j) :
    byteLength (cs.take i) ≤ byteLength (cs.take j) := by
  obtain ⟨rest, whole⟩ := List.take_prefix_take_left (l := cs) ordered
  rw [← whole, byteLength_append]
  omega

theorem wholeBefore_append (lower : byteLength before ≤ offset)
    (upper : ∀ c ∈ after.head?, offset < byteLength before + c.utf8Size) :
    WholeBefore before.length offset (before ++ after) := by
  refine ⟨by simp, by simpa using lower, ?_⟩
  intro further
  cases after with
  | nil =>
    rw [List.append_nil] at further
    exact absurd further (Nat.lt_irrefl _)
  | cons c after =>
    have next : (before ++ c :: after).take (before.length + 1) = before ++ [c] :=
      List.take_length_add_append 1
    rw [next, byteLength_append, byteLength, byteLength, Nat.add_zero]
    exact upper c rfl

namespace WholeBefore

variable {count : Nat}

theorem charsEndedBy_eq (whole : WholeBefore count offset cs) : charsEndedBy offset cs = count := by
  have first : ((Finset.range cs.length).filter fun i => byteLength (cs.take (i + 1)) ≤ offset)
      = Finset.range count := by
    ext i
    rw [Finset.mem_filter, Finset.mem_range, Finset.mem_range]
    constructor
    · rintro ⟨inText, ended⟩
      by_contra later
      have further := byteLength_take_mono cs (Nat.add_le_add_right (Nat.le_of_not_lt later) 1)
      have := whole.upper (by omega)
      omega
    · intro early
      exact ⟨Nat.lt_of_lt_of_le early whole.le_length,
        Nat.le_trans (byteLength_take_mono cs early) whole.lower⟩
  rw [charsEndedBy, first, Finset.card_range]

theorem charsBegunBy_eq (whole : WholeBefore count offset cs) :
    charsBegunBy offset cs = min (count + 1) cs.length := by
  have first : ((Finset.range cs.length).filter fun i => byteLength (cs.take i) ≤ offset)
      = Finset.range (min (count + 1) cs.length) := by
    ext i
    rw [Finset.mem_filter, Finset.mem_range, Finset.mem_range, Nat.lt_min]
    constructor
    · rintro ⟨inText, begun⟩
      refine ⟨?_, inText⟩
      by_contra later
      have further := byteLength_take_mono cs (Nat.le_of_not_lt later)
      have := whole.upper (by omega)
      omega
    · rintro ⟨early, inText⟩
      exact ⟨inText, Nat.le_trans (byteLength_take_mono cs (Nat.le_of_lt_succ early)) whole.lower⟩
  rw [charsBegunBy, first, Finset.card_range]

theorem pointsAt_iff {position : Nat} (whole : WholeBefore count offset cs) :
    PointsAt position offset cs ↔
      count ≤ position ∧ position ≤ count + 1 ∧ position ≤ cs.length := by
  constructor
  · rintro ⟨ended, begun, inText⟩
    rw [whole.charsEndedBy_eq] at ended
    rw [whole.charsBegunBy_eq] at begun
    omega
  · rintro ⟨lower, upper, inText⟩
    refine ⟨?_, ?_, inText⟩
    · rwa [whole.charsEndedBy_eq]
    · rw [whole.charsBegunBy_eq]
      omega

end WholeBefore

/-- The byte offset is the one behind the first byte of the first character that has several. -/
def BehindFirstWideByte (offset : Nat) (cs : List Char) : Prop :=
  ∃ before c after, cs = before ++ c :: after ∧ IsAscii before ∧ 1 < c.utf8Size ∧
    offset = before.length + 1

theorem isAscii_of_byteLength_le (narrow : byteLength cs ≤ cs.length) : IsAscii cs := by
  induction cs with
  | nil => exact nofun
  | cons c cs ih =>
    have positive := c.utf8Size_pos
    have rest := length_le_byteLength cs
    rw [byteLength, List.length_cons] at narrow
    have single : c.utf8Size = 1 := by omega
    refine List.forall_mem_cons.mpr ⟨?_, ih (by omega)⟩
    exact Nat.lt_succ_of_le (UInt32.le_iff_toNat_le.mp (Char.utf8Size_eq_one_iff.mp single))

theorem BehindFirstWideByte.pointsAt (behind : BehindFirstWideByte offset cs) :
    PointsAt offset offset cs := by
  obtain ⟨before, c, after, rfl, ascii, wide, rfl⟩ := behind
  have size := ascii.byteLength_eq
  have whole : WholeBefore before.length (before.length + 1) (before ++ c :: after) := by
    refine wholeBefore_append (by omega) ?_
    rintro _ ⟨⟩
    omega
  rw [whole.pointsAt_iff, List.length_append, List.length_cons]
  omega

/-- Inside a character the number of bytes in front points there in one case only. -/
theorem InsideChar.pointsAt_iff (inside : InsideChar offset cs) :
    PointsAt offset offset cs ↔ BehindFirstWideByte offset cs := by
  refine ⟨?_, BehindFirstWideByte.pointsAt⟩
  obtain ⟨before, c, after, rfl, lower, upper⟩ := inside
  have whole : WholeBefore before.length offset (before ++ c :: after) := by
    refine wholeBefore_append (Nat.le_of_lt lower) ?_
    rintro _ ⟨⟩
    exact upper
  rw [whole.pointsAt_iff]
  rintro ⟨-, early, -⟩
  have narrow := length_le_byteLength before
  have ascii : IsAscii before := isAscii_of_byteLength_le (by omega)
  exact ⟨before, c, after, rfl, ascii, by omega, by omega⟩

theorem InsideChar.charPosition_eq (inside : InsideChar offset cs) :
    charPosition offset cs = offset := by
  rw [charPosition, splitAtByte_eq_none_iff.mpr (.inr inside)]

/-- Between characters it is the number of characters in front. -/
theorem charPosition_of_not_insideChar (within : offset ≤ byteLength cs)
    (between : ¬ InsideChar offset cs) :
    charPosition offset cs = charsEndedBy offset cs ∧
      PointsAt (charPosition offset cs) offset cs := by
  cases split : splitAtByte offset cs with
  | none =>
    rcases splitAtByte_eq_none_iff.mp split with past | inside
    · omega
    · exact absurd inside between
  | some halves =>
    obtain ⟨before, after⟩ := halves
    obtain ⟨rfl, rfl⟩ := splitAtByte_eq_some split
    have whole : WholeBefore before.length (byteLength before) (before ++ after) :=
      wholeBefore_append (Nat.le_refl _) fun c _ => Nat.lt_add_of_pos_right c.utf8Size_pos
    simp only [charPosition, split]
    refine ⟨whole.charsEndedBy_eq.symm, whole.pointsAt_iff.mpr ?_⟩
    rw [List.length_append]
    omega

/-! ### Spans -/

/-- The span is reversed, reaches past the end of the text or has an end inside a character. -/
def InvalidSpan (start stop : Nat) (cs : List Char) : Prop :=
  stop < start ∨ byteLength cs < stop ∨ InsideChar start cs ∨ InsideChar stop cs

theorem InvalidSpan.span?_eq_none {start stop : Nat} (invalid : InvalidSpan start stop cs) :
    span? start stop cs = none := by
  rw [span?]
  split
  next ordered =>
    cases front : splitAtByte start cs with
    | none => rfl
    | some halves =>
      obtain ⟨before, rest⟩ := halves
      rw [Option.map_eq_none_iff]
      by_contra split
      obtain ⟨⟨inside, after⟩, back⟩ := Option.ne_none_iff_exists'.mp split
      -- Both ends split the text, so each of them is between characters.
      obtain ⟨rfl, rfl⟩ := splitAtByte_eq_some front
      obtain ⟨rfl, size⟩ := splitAtByte_eq_some back
      have stops : stop = byteLength (before ++ inside) := by
        rw [byteLength_append]
        omega
      rcases invalid with reversed | past | inFirst | inLast
      · omega
      · rw [byteLength_append, byteLength_append] at past
        rw [byteLength_append] at stops
        omega
      · exact not_insideChar_append before _ inFirst
      · rw [stops, ← List.append_assoc] at inLast
        exact not_insideChar_append _ after inLast
  next => rfl

end Text

open Text in
/-- An invalid span is refused for every layout, as a number out of range would be. The error points
at the start of the span, or at the end of the text if that comes first, unless the start is inside
a character: then its number of bytes is given, which points there only in one case. -/
theorem Layout.parseSpan_refuses_invalid_span (layout : Layout) (context : ReadContext)
    {text : String} {start stop : Nat} (invalid : InvalidSpan start stop text.toList) :
    let place := min start text.utf8ByteSize
    ∃ error position, layout.parseSpan context text start stop = .error error ∧
      error.kind = .range ∧ error.message = "Parse span is not a valid range of the text." ∧
      error.position = some position ∧
      (PointsAt position place text.toList ↔
        ¬ InsideChar start text.toList ∨ BehindFirstWideByte start text.toList) ∧
      (¬ InsideChar start text.toList → position = charsEndedBy place text.toList) ∧
      (InsideChar start text.toList → position = start) := by
  intro place
  have failed : layout.parseSpan context text start stop
      = .error { cause := .invalidSpan, position := some (charPosition place text.toList) } := by
    have inText : place ≤ text.utf8ByteSize := Nat.min_le_right _ _
    simp only [parseSpan, invalid.span?_eq_none, TimeError.inChars, Option.map_some,
      byteLength_toList]
    rw [Nat.min_eq_left inText]
  refine ⟨_, _, failed, rfl, rfl, rfl, ?_⟩
  by_cases inside : InsideChar start text.toList
  · have within := inside.lt_byteLength
    rw [byteLength_toList] at within
    have same : place = start := Nat.min_eq_left (Nat.le_of_lt within)
    rw [same, inside.charPosition_eq, inside.pointsAt_iff]
    refine ⟨⟨.inr, fun told => told.resolve_left (not_not.mpr inside)⟩, ?_, fun _ => rfl⟩
    exact fun between => absurd inside between
  · have between : ¬ InsideChar place text.toList := by
      rcases min_choice start text.utf8ByteSize with same | same
      · rwa [show place = start from same]
      · intro atEnd
        have within := atEnd.lt_byteLength
        rw [byteLength_toList, show place = text.utf8ByteSize from same] at within
        exact Nat.lt_irrefl _ within
    have inText : place ≤ byteLength text.toList := by
      rw [byteLength_toList]
      exact Nat.min_le_right _ _
    obtain ⟨whole, points⟩ := charPosition_of_not_insideChar inText between
    exact ⟨iff_of_true points (.inl inside), fun _ => whole, fun within => absurd within inside⟩

open Text in
/-- A span from the second byte of an accented letter to past the end of the text. -/
theorem Layout.parseSpan_refuses_span_from_accent :
    InvalidSpan 2 9 "aé".toList ∧
      ∃ error, (⟨[.year .greedy], []⟩ : Layout).parseSpan { window := .around 2000 } "aé" 2 9
        = .error error ∧ error.kind = .range ∧ error.position = some 2 ∧
        PointsAt 2 2 "aé".toList := by
  have invalid : InvalidSpan 2 9 "aé".toList := .inr (.inl (by decide))
  have inside : InsideChar 2 "aé".toList := ⟨['a'], 'é', [], rfl, by decide, by decide⟩
  have behind : BehindFirstWideByte 2 "aé".toList :=
    ⟨['a'], 'é', [], rfl, by decide, by decide, rfl⟩
  obtain ⟨error, position, failed, kind, -, there, points, -, bytes⟩ :=
    parseSpan_refuses_invalid_span ⟨[.year .greedy], []⟩ { window := .around 2000 } invalid
  obtain rfl := bytes inside
  exact ⟨invalid, error, failed, kind, there, points.mpr (.inr behind)⟩

open Text in
/-- From inside the second of two accented letters the error points past the end of the text. -/
theorem Layout.parseSpan_points_past_two_accents :
    InvalidSpan 3 4 "éé".toList ∧
      (⟨[.year .greedy], []⟩ : Layout).parseSpan { window := .around 2000 } "éé" 3 4
        = .error ⟨.invalidSpan, some 3⟩ ∧
      ¬ PointsAt 3 (min 3 "éé".utf8ByteSize) "éé".toList := by
  have inside : InsideChar 3 "éé".toList := ⟨['é'], 'é', [], rfl, by decide, by decide⟩
  refine ⟨.inr (.inr (.inl inside)), by decide +kernel, fun points => ?_⟩
  exact absurd points.le_length (by decide)

end CivilTime
