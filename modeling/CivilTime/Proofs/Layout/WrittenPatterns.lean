import CivilTime.Proofs.Layout.PatternItems

/-!
# Writing patterns

Tokens are written as a pattern by repeating the letter of a field and by quoting a text, every
quote inside being doubled. The pattern gives the tokens back, and so a layout with one item each,
unless two of them would run together or a text has nothing but quotes.
-/
namespace CivilTime

namespace Pattern

/-! ### The written form -/

/-- The text with each quote written twice. -/
def doubleQuotes (cs : List Char) : List Char :=
  cs.flatMap fun c => if c = '\x27' then ['\x27', '\x27'] else [c]

def Token.written : Token → List Char
  | .field letter count => List.replicate count letter
  | .text cs => '\x27' :: (doubleQuotes cs ++ ['\x27'])

def written (ts : List Token) : String := String.ofList (ts.flatMap Token.written)

/-- A field has a letter of fields, at least once. Of a text of quotes alone the written form would
have two quotes too many. -/
def Token.IsWritable : Token → Prop
  | .field letter count => letter ∈ fieldLetters ∧ 1 ≤ count
  | .text cs => ∃ c ∈ cs, c ≠ '\x27'

/-- The tokens do not run together when one is written behind the other. -/
def Token.Apart : Token → Token → Prop
  | .field c _, .field d _ => c ≠ d
  | .text _, .text _ => False
  | _, _ => True

instance : DecidablePred Token.IsWritable
  | .field letter count => inferInstanceAs (Decidable (letter ∈ fieldLetters ∧ 1 ≤ count))
  | .text cs => List.decidableBEx (· ≠ '\x27') cs

instance : DecidableRel Token.Apart
  | .field c _, .field d _ => inferInstanceAs (Decidable (c ≠ d))
  | .text _, .text _ => isFalse id
  | .field _ _, .text _ | .text _, .field _ _ => isTrue trivial

/-- Tokens that can be written as a pattern. -/
structure Writable (ts : List Token) : Prop where
  tokens : ∀ t ∈ ts, t.IsWritable
  apart : ts.IsChain Token.Apart
  few : (texts ts).eraseDups.length ≤ Layout.maxLiterals

/-! ### Marks of the written form -/

/-- The marks that a token is made of. -/
def Token.marks : Token → List Mark
  | .field letter count => List.replicate count (.letter letter)
  | .text cs => cs.map .text

theorem ne_quote_of_mem_fieldLetters {c : Char} (letter : c ∈ fieldLetters) : c ≠ '\x27' := by
  rintro rfl
  exact absurd letter (by decide)

theorem doubleQuotes_quote (cs : List Char) :
    doubleQuotes ('\x27' :: cs) = '\x27' :: '\x27' :: doubleQuotes cs := rfl

theorem doubleQuotes_other {c : Char} (other : c ≠ '\x27') (cs : List Char) :
    doubleQuotes (c :: cs) = c :: doubleQuotes cs := by
  rw [doubleQuotes, List.flatMap_cons, if_neg other]
  rfl

/-- Inside quoted text the doubled quotes are read as single ones, up to the one that closes it. -/
theorem marks_doubleQuotes (start position : Nat) (cs : List Char) :
    marks (some start) position (doubleQuotes cs ++ ['\x27']) = .ok (cs.map .text) := by
  induction cs generalizing position with
  | nil => rfl
  | cons c cs ih =>
    by_cases quote : c = '\x27'
    · subst quote
      rw [doubleQuotes_quote, List.cons_append, List.cons_append, marks_two_quotes, ih]
      rfl
    · rw [doubleQuotes_other quote, List.cons_append, marks_other quote, ih]
      rfl

/-- The quotes that a text starts with are read outside of quoted text, since the one that should
open it makes them come in pairs from the start. -/
theorem marks_quoted (position : Nat) {cs : List Char} (nonquote : ∃ c ∈ cs, c ≠ '\x27') :
    marks none position ('\x27' :: (doubleQuotes cs ++ ['\x27'])) = .ok (cs.map .text) := by
  induction cs generalizing position with
  | nil => simp at nonquote
  | cons c cs ih =>
    by_cases quote : c = '\x27'
    · subst quote
      rw [doubleQuotes_quote, List.cons_append, List.cons_append, marks_two_quotes,
        ih (position + 2) (by simpa using nonquote)]
      rfl
    -- Here the opening quote stands alone in front of another character, and opens the rest.
    · rw [doubleQuotes_other quote, List.cons_append, marks_quote (by simpa using quote),
        marks_other quote]
      exact map_eq_ok_iff.mpr ⟨_, marks_doubleQuotes position (position + 2) cs, rfl⟩

theorem marks_letters (position : Nat) {letter : Char} (known : letter ∈ fieldLetters) (count : Nat) :
    marks none position (List.replicate count letter)
      = .ok (List.replicate count (.letter letter)) := by
  induction count generalizing position with
  | zero => rfl
  | succ count ih =>
    rw [List.replicate_succ, marks_other (ne_quote_of_mem_fieldLetters known), ih]
    simp [Except.map, markOf, known, List.replicate_succ]

theorem marks_written (position : Nat) {t : Token} (writable : t.IsWritable) :
    marks none position t.written = .ok t.marks := by
  cases t with
  | field letter count => exact marks_letters position writable.1 count
  | text cs => exact marks_quoted position writable

/-- A written field has no quote at its ends, and no two texts stand together. -/
theorem quotesApart_written {t : Token} {ts : List Token} (first : t.IsWritable)
    (writable : ∀ t ∈ ts, t.IsWritable) (apart : (t :: ts).IsChain Token.Apart) :
    QuotesApart t.written (ts.flatMap Token.written) := by
  intro last
  -- Only a text ends with a quote, and only a field or nothing follows a text.
  cases t with
  | field letter count =>
    have same := List.eq_of_mem_replicate (List.mem_of_getLast? last)
    exact absurd same.symm (ne_quote_of_mem_fieldLetters first.1)
  | text cs =>
    cases ts with
    | nil => exact nofun
    | cons next ts =>
      cases next with
      | text ds => exact absurd (List.isChain_cons_cons.mp apart).1 id
      | field letter count =>
        obtain ⟨known, positive⟩ := writable _ List.mem_cons_self
        obtain ⟨more, rfl⟩ := Nat.exists_eq_add_of_le' positive
        rw [List.flatMap_cons, Token.written, List.replicate_succ]
        exact fun quote => ne_quote_of_mem_fieldLetters known (Option.some.inj quote)

theorem marks_flatMap_written (position : Nat) {ts : List Token}
    (writable : ∀ t ∈ ts, t.IsWritable) (apart : ts.IsChain Token.Apart) :
    marks none position (ts.flatMap Token.written) = .ok (ts.flatMap Token.marks) := by
  induction ts generalizing position with
  | nil => rfl
  | cons t ts ih =>
    rw [List.forall_mem_cons] at writable
    rw [List.flatMap_cons, List.flatMap_cons,
      marks_append (marks_written position writable.1)
        (quotesApart_written writable.1 writable.2 apart),
      ih _ writable.2 apart.tail]
    rfl

/-! ### Tokens of the marks -/

theorem Token.cons_letter {letter : Char} {count : Nat} {ts : List Token}
    (apart : ∀ next ∈ ts.head?, Token.Apart (.field letter count) next) :
    Token.cons (.letter letter) ts = .field letter 1 :: ts := by
  cases ts with
  | nil => rfl
  | cons next ts =>
    cases next with
    | field other count => exact if_neg (apart _ rfl)
    | text cs => rfl

theorem Token.cons_text {c : Char} {cs : List Char} {ts : List Token}
    (apart : ∀ next ∈ ts.head?, Token.Apart (.text cs) next) :
    Token.cons (.text c) ts = .text [c] :: ts := by
  cases ts with
  | nil => rfl
  | cons next ts =>
    cases next with
    | field other count => rfl
    | text ds => exact absurd (apart _ rfl) id

theorem tokens_letters {letter : Char} {total : Nat} {ms : List Mark}
    (apart : ∀ next ∈ (tokens ms).head?, Token.Apart (.field letter total) next) (count : Nat) :
    tokens (List.replicate (count + 1) (.letter letter) ++ ms)
      = .field letter (count + 1) :: tokens ms := by
  induction count with
  | zero => exact Token.cons_letter apart
  | succ count ih =>
    rw [List.replicate_succ, List.cons_append]
    exact (congrArg (Token.cons (.letter letter)) ih).trans (if_pos rfl)

theorem tokens_texts {whole : List Char} {ms : List Mark}
    (apart : ∀ next ∈ (tokens ms).head?, Token.Apart (.text whole) next) (c : Char)
    (cs : List Char) : tokens ((c :: cs).map .text ++ ms) = .text (c :: cs) :: tokens ms := by
  induction cs generalizing c with
  | nil => exact Token.cons_text apart
  | cons d cs ih => exact congrArg (Token.cons (.text c)) (ih d)

/-- The marks of a token give the token, which the next one does not join. -/
theorem tokens_append {t : Token} {ms : List Mark} (writable : t.IsWritable)
    (apart : (t :: tokens ms).IsChain Token.Apart) : tokens (t.marks ++ ms) = t :: tokens ms := by
  have next := (List.isChain_cons.mp apart).1
  cases t with
  | field letter count =>
    obtain ⟨more, rfl⟩ := Nat.exists_eq_add_of_le' writable.2
    exact tokens_letters next more
  | text cs =>
    cases cs with
    | nil =>
      obtain ⟨c, member, _⟩ := writable
      cases member
    | cons c cs => exact tokens_texts next c cs

theorem tokens_flatMap_marks {ts : List Token} (writable : ∀ t ∈ ts, t.IsWritable)
    (apart : ts.IsChain Token.Apart) : tokens (ts.flatMap Token.marks) = ts := by
  induction ts with
  | nil => rfl
  | cons t ts ih =>
    rw [List.forall_mem_cons] at writable
    have rest := ih writable.2 apart.tail
    rw [List.flatMap_cons, tokens_append writable.1 (by rwa [rest]), rest]

end Pattern

open Pattern in
/-- The written form of tokens gives the layout with their items and the table of their texts. -/
theorem Layout.ofPattern_written {ts : List Token} (writable : Writable ts) :
    ∃ items, Layout.ofPattern (written ts) = .ok ⟨items, (texts ts).eraseDups⟩ ∧
      Denotes (texts ts).eraseDups ts items := by
  have read : marks none 0 (written ts).toList = .ok (ts.flatMap Token.marks) := by
    rw [written, String.toList_ofList]
    exact marks_flatMap_written 0 writable.tokens writable.apart
  have back := tokens_flatMap_marks writable.tokens writable.apart
  have given := Layout.ofPattern_eq read (by rw [back]; exact writable.few)
  rwa [back] at given

open Pattern in
/-- Texts that start and end with quotes, next to fields, and one of them twice. -/
theorem Layout.ofPattern_written_quotes :
    let ts : List Token := [.text "'o'".toList, .field 'y' 1, .field 'M' 2, .text "-é".toList,
      .field 'd' 1, .text "'o'".toList, .field 'd' 3]
    Writable ts ∧ written ts = "'''o'''yMM'-é'd'''o'''ddd" ∧
    ∃ items, Layout.ofPattern "'''o'''yMM'-é'd'''o'''ddd" = .ok ⟨items, ["'o'", "-é"]⟩ ∧
      Denotes ["'o'", "-é"] ts items ∧
      items = [.literal 0, .year (.fixed 1), .number .month (.fixed 2), .literal 1,
        .number .day .greedy, .literal 0, .number .day (.fixed 3)] := by
  intro ts
  have writable : Writable ts := ⟨by decide, by decide, by decide⟩
  have pattern : written ts = "'''o'''yMM'-é'd'''o'''ddd" := by decide
  obtain ⟨items, compiled, denotes⟩ := Layout.ofPattern_written writable
  rw [pattern] at compiled
  have evaluated : Layout.ofPattern "'''o'''yMM'-é'd'''o'''ddd" = .ok
      ⟨[.literal 0, .year (.fixed 1), .number .month (.fixed 2), .literal 1, .number .day .greedy,
        .literal 0, .number .day (.fixed 3)], ["'o'", "-é"]⟩ := by decide
  have same := Except.ok.inj (compiled.symm.trans evaluated)
  have table : (texts ts).eraseDups = ["'o'", "-é"] := congrArg Layout.literals same
  rw [table] at compiled denotes
  exact ⟨writable, pattern, items, compiled, denotes, congrArg Layout.items same⟩

end CivilTime
