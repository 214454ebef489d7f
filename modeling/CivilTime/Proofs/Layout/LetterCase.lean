import CivilTime.Proofs.Layout.Lookahead

/-!
# Letter case of texts

Names, the letters of offsets and the names of UTC are looked up without regard to ASCII case, and
fixed texts are compared as they are. So where the fixed texts have no letters, reading does not
tell capitals from small letters: two texts that fold to the same one give the same instant, or fail
for the same cause at the same position.
-/
namespace CivilTime

/-- No fixed text of the layout has an ASCII letter. -/
def Layout.Letterless (layout : Layout) : Prop :=
  ∀ text ∈ layout.literals, ∀ c ∈ text.toList, c.isAlpha = false

instance (layout : Layout) : Decidable layout.Letterless :=
  decidable_of_iff (∀ text ∈ layout.literals, text.toList.all (fun c => !c.isAlpha) = true)
    (by simp [Layout.Letterless])

theorem Layout.Letterless.literal {layout : Layout} (letterless : layout.Letterless) (index : Nat) :
    ∀ c ∈ (layout.literal index).toList, c.isAlpha = false := by
  -- A place outside the table stands for the empty text.
  unfold Layout.literal
  cases held : layout.literals[index]? with
  | none => exact nofun
  | some text => exact letterless text (List.mem_of_getElem? held)

section Run

variable {layout : Layout} {context : ReadContext}

/-- A run over texts of the same letters goes the same way. -/
theorem foldlM_like (letterless : layout.Letterless) (items : List Item) (fields : Fields)
    {left right : Cursor} (like : left.Like [] right) :
    ReadAlike (Cursor.LikeBehind []) (items.foldlM (layout.readItem context) (fields, left))
      (items.foldlM (layout.readItem context) (fields, right)) := by
  induction items generalizing fields left right with
  | nil => exact .ok ⟨rfl, like⟩
  | cons item items ih =>
    rw [List.foldlM_cons, List.foldlM_cons]
    refine (readItem_like like (absurd rfl) ?_ fields).bind ?_
    · exact fun index _ => ⟨rfl, letterless.literal index⟩
    · rintro ⟨after, stop⟩ ⟨_, other⟩ ⟨rfl, behind⟩
      exact ih _ behind

theorem Layout.read_eq_of_fold_eq (letterless : layout.Letterless) (position : Nat)
    {cs ds : List Char} (same : Text.fold cs = Text.fold ds) :
    layout.read context position cs = layout.read context position ds := by
  have like : Cursor.Like [] ⟨position, cs⟩ ⟨position, ds⟩ := ⟨rfl, Text.like_of_fold_eq same⟩
  apply ReadAlike.eq
  refine (foldlM_like letterless layout.items {} like).bind ?_
  rintro ⟨fields, stop⟩ ⟨_, other⟩ ⟨rfl, behind⟩
  -- Both runs have read everything or stand at the same character that is left.
  have finished : other.rest.isEmpty = stop.rest.isEmpty := behind.rest.isEmpty_eq
  simp only [finished]
  split
  next => exact .refl _
  next => exact behind.reject .unexpectedInput

end Run

/-- Reading a text does not depend on the case of its ASCII letters. -/
theorem Layout.parse_eq_of_foldString_eq {layout : Layout} (letterless : layout.Letterless)
    (context : ReadContext) {left right : String}
    (same : Text.foldString left = Text.foldString right) :
    layout.parse context left = layout.parse context right := by
  rw [parse_eq_read, parse_eq_read]
  exact read_eq_of_fold_eq letterless 0 (String.ofList_injective same)

/-- A date with names of months, eras, halves of the day and UTC in either case. -/
theorem Layout.parse_names_in_either_case :
    let layout : Layout :=
      ⟨[.number .day .greedy, .literal 0, .monthName .long, .literal 0, .year .greedy, .literal 0,
        .era, .literal 0, .hour .from1To12 .greedy, .literal 0, .halfOfDay, .literal 0, .zone],
        [" "]⟩
    let context : ReadContext :=
      { locale := some ⟨"en", Locale.Standard.english, ["Zulu"]⟩, window := .around 2000 }
    layout.Letterless ∧
      Text.foldString "4 MARCH 2021 ad 3 pM utc+1" = Text.foldString "4 march 2021 AD 3 Pm UTC+1" ∧
      layout.parse context "4 MARCH 2021 ad 3 pM utc+1"
        = layout.parse context "4 march 2021 AD 3 Pm UTC+1" ∧
      layout.parse context "4 march 2021 AD 3 Pm UTC+1" = .ok 1614866400000000000 := by
  intro layout context
  have letterless : layout.Letterless := by decide
  have same : Text.foldString "4 MARCH 2021 ad 3 pM utc+1"
    = Text.foldString "4 march 2021 AD 3 Pm UTC+1" := by decide +kernel
  exact ⟨letterless, same, Layout.parse_eq_of_foldString_eq letterless context same,
    by decide +kernel⟩

end CivilTime
