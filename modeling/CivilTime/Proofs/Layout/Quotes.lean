import CivilTime.Layout.Pattern
import Mathlib

/-!
# Quotes of a pattern

A quote opens or closes quoted text unless a second one follows it, and then both are one quote of
the text. So every quote that is read alone changes whether text is quoted, and all others come in
pairs: a pattern is read if its quotes are even in number, and otherwise the one that is never
closed has an even number of them in front of it.
-/
namespace CivilTime.Pattern

variable {opened : Option Nat} {position : Nat} {c : Char} {cs ds : List Char} {ms : List Mark}

/-! ### Single characters -/

theorem marks_two_quotes :
    marks opened position ('\x27' :: '\x27' :: cs)
      = (marks opened (position + 2) cs).map (.text '\x27' :: ·) :=
  marks.eq_3 opened position cs

theorem marks_quote (single : cs.head? ≠ some '\x27') :
    marks opened position ('\x27' :: cs)
      = marks (if opened.isSome then none else some position) (position + 1) cs :=
  marks.eq_4 opened position cs fun _ second => single (by rw [second]; rfl)

theorem marks_other (other : c ≠ '\x27') :
    marks opened position (c :: cs)
      = (marks opened (position + 1) cs).map (markOf opened.isSome c :: ·) :=
  marks.eq_5 opened position c cs (fun _ quote _ => other quote) other

/-! ### The number of quotes -/

theorem even_count_two_quotes :
    Even (('\x27' :: '\x27' :: cs).count '\x27') ↔ Even (cs.count '\x27') := by
  rw [List.count_cons_self, List.count_cons_self, Nat.even_add_one, Nat.even_add_one, not_not]

theorem even_count_quote : Even (('\x27' :: cs).count '\x27') ↔ ¬ Even (cs.count '\x27') := by
  rw [List.count_cons_self, Nat.even_add_one]

/-- A text is read if its quotes close what is open in front of it, and nothing else. -/
theorem exists_marks_iff (opened : Option Nat) (position : Nat) (cs : List Char) :
    (∃ ms, marks opened position cs = .ok ms) ↔ (Even (cs.count '\x27') ↔ opened = none) := by
  induction opened, position, cs using marks.induct with
  | case1 position => simp [marks]
  | case2 position start => simp [marks]
  | case3 opened position cs ih =>
    rw [even_count_two_quotes, ← ih, marks_two_quotes]
    simp [map_eq_ok_iff]
  | case4 opened position cs single ih =>
    rw [marks.eq_4 _ _ _ single, ih, even_count_quote]
    -- Both the parity and what is open change, whichever it is.
    cases opened <;> simp
  | case5 opened position c cs _ other ih =>
    rw [List.count_cons_of_ne other, ← ih, marks_other other]
    simp [map_eq_ok_iff]

/-- The quote that is never closed is the one that is open in front of the text, or one of the text
behind which text is quoted. -/
theorem unclosed_quote {start : Nat} (unclosed : marks opened position cs = .error start) :
    opened = some start ∨ ∃ before after, cs = before ++ '\x27' :: after ∧
      start = position + before.length ∧ (Even (before.count '\x27') ↔ opened = none) := by
  induction opened, position, cs using marks.induct with
  | case1 position => simp [marks] at unclosed
  | case2 position start' =>
    cases unclosed
    exact .inl rfl
  | case3 opened position cs ih =>
    rw [marks_two_quotes, map_eq_error_iff] at unclosed
    rcases ih unclosed with before | ⟨before, after, rfl, rfl, even⟩
    · exact .inl before
    · refine .inr ⟨'\x27' :: '\x27' :: before, after, rfl, ?_, even_count_two_quotes.trans even⟩
      simp only [List.length_cons]
      omega
  | case4 opened position cs single ih =>
    rw [marks.eq_4 _ _ _ single] at unclosed
    rcases ih unclosed with toggled | ⟨before, after, rfl, rfl, even⟩
    -- A quote that is open behind this one is this one.
    · cases opened with
      | none =>
        cases toggled
        exact .inr ⟨[], cs, rfl, rfl, by simp⟩
      | some start' => cases toggled
    · refine .inr ⟨'\x27' :: before, after, rfl, ?_, ?_⟩
      · simp only [List.length_cons]
        omega
      · rw [even_count_quote, even]
        cases opened <;> simp
  | case5 opened position c cs _ other ih =>
    rw [marks_other other, map_eq_error_iff] at unclosed
    rcases ih unclosed with before | ⟨before, after, rfl, rfl, even⟩
    · exact .inl before
    · refine .inr ⟨c :: before, after, rfl, ?_, ?_⟩
      · simp only [List.length_cons]
        omega
      · rw [List.count_cons_of_ne other, even]

/-! ### Texts one behind the other -/

/-- No quote at the end of one text joins one at the start of the next. -/
def QuotesApart (cs ds : List Char) : Prop :=
  cs.getLast? = some '\x27' → ds.head? ≠ some '\x27'

theorem getLast?_cons_of_getLast? {α : Type} {x y : α} {xs : List α}
    (last : xs.getLast? = some y) : (x :: xs).getLast? = some y := by
  rw [List.getLast?_cons, last]
  rfl

theorem QuotesApart.tail (apart : QuotesApart (c :: cs) ds) : QuotesApart cs ds :=
  fun last => apart (getLast?_cons_of_getLast? last)

theorem QuotesApart.head?_append (apart : QuotesApart ('\x27' :: cs) ds)
    (single : cs.head? ≠ some '\x27') : (cs ++ ds).head? ≠ some '\x27' := by
  cases cs with
  | nil => exact apart rfl
  | cons c cs => exact single

/-- A text that follows one whose quotes are closed is read on its own. -/
theorem marks_append (read : marks opened position cs = .ok ms) (apart : QuotesApart cs ds) :
    marks opened position (cs ++ ds)
      = (marks none (position + cs.length) ds).map (ms ++ ·) := by
  induction opened, position, cs using marks.induct generalizing ms with
  | case1 position =>
    -- The first text is at its end with no quote open, and so the second one starts.
    cases read
    rw [List.nil_append, List.length_nil, Nat.add_zero]
    cases marks none position ds <;> rfl
  | case2 position start => cases read
  | case3 opened position cs ih =>
    rw [marks_two_quotes, map_eq_ok_iff] at read
    obtain ⟨ms, read, rfl⟩ := read
    rw [List.cons_append, List.cons_append, marks_two_quotes, ih read apart.tail.tail,
      List.length_cons, List.length_cons,
      show position + (cs.length + 1 + 1) = position + 2 + cs.length by omega]
    cases marks none (position + 2 + cs.length) ds <;> rfl
  | case4 opened position cs next ih =>
    -- A quote that was not doubled could be by the next text, which `apart` excludes.
    have single : cs.head? ≠ some '\x27' := fun second =>
      next cs.tail (List.eq_cons_of_mem_head? second)
    rw [marks_quote single] at read
    rw [List.cons_append, marks_quote (apart.head?_append single), ih read apart.tail,
      List.length_cons, show position + (cs.length + 1) = position + 1 + cs.length by omega]
  | case5 opened position c cs _ other ih =>
    rw [marks_other other, map_eq_ok_iff] at read
    obtain ⟨ms, read, rfl⟩ := read
    rw [List.cons_append, marks_other other, ih read apart.tail, List.length_cons,
      show position + (cs.length + 1) = position + 1 + cs.length by omega]
    cases marks none (position + 1 + cs.length) ds <;> rfl

end CivilTime.Pattern
