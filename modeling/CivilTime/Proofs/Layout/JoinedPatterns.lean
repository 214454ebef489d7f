import CivilTime.Proofs.Layout.PatternItems
import CivilTime.Proofs.Layout.RoundTrip

/-!
# Patterns one behind the other

A pattern shows what its tokens show, each by itself: neither the digits that follow a field nor an
era elsewhere change the text of an instant. Behind another pattern a pattern keeps its tokens, but
for a fixed text at its start, which goes on with one at the end of the other. So the text of both
is the text of the one and then that of the other, as long as no quote and no letter meets its like.
-/
namespace CivilTime

namespace Pattern

/-! ### Marks -/

/-- Where the text starts, and where the quote is that is open, only matters for errors. -/
theorem marks_ok_anywhere {opened opened' : Option Nat} {position : Nat} {cs : List Char}
    {ms : List Mark} (read : marks opened position cs = .ok ms)
    (same : opened.isSome = opened'.isSome) (position' : Nat) :
    marks opened' position' cs = .ok ms := by
  induction opened, position, cs using marks.induct generalizing ms opened' position' with
  | case1 position =>
    cases opened' with
    | none => exact read
    | some start => cases same
  | case2 position start => cases read
  | case3 opened position cs ih =>
    rw [marks_two_quotes, map_eq_ok_iff] at read ⊢
    obtain ⟨ms, read, rfl⟩ := read
    exact ⟨ms, ih read same _, rfl⟩
  | case4 opened position cs next ih =>
    have single : cs.head? ≠ some '\x27' := fun second =>
      next cs.tail (List.eq_cons_of_mem_head? second)
    rw [marks_quote single] at read ⊢
    apply ih read
    rw [← same]
    cases opened <;> rfl
  | case5 opened position c cs _ other ih =>
    rw [marks_other other, map_eq_ok_iff] at read ⊢
    obtain ⟨ms, read, rfl⟩ := read
    exact ⟨ms, ih read same _, by rw [same]⟩

theorem markOf_eq_letter {quoted : Bool} {c d : Char} (letter : markOf quoted d = .letter c) :
    quoted = false ∧ d = c := by
  unfold markOf at letter
  split at letter
  next plain =>
    cases letter
    exact ⟨by simpa using (Bool.and_eq_true_iff.mp plain).1, rfl⟩
  next => cases letter

/-- The first character gives a mark, and is the letter if that is one. Behind a quote that opens
comes text, as quotes with nothing between them are text. -/
theorem exists_first_mark {position : Nat} {c : Char} {cs : List Char} {ms : List Mark}
    (read : marks none position (c :: cs) = .ok ms) :
    ∃ mark rest, ms = mark :: rest ∧ ∀ letter, mark = .letter letter → c = letter := by
  by_cases quote : c = '\x27'
  · subst quote
    by_cases double : cs.head? = some '\x27'
    · obtain ⟨cs, rfl⟩ := List.head?_eq_some_iff.mp double
      rw [marks_two_quotes, map_eq_ok_iff] at read
      obtain ⟨ms, -, rfl⟩ := read
      exact ⟨_, ms, rfl, nofun⟩
    · rw [marks_quote double] at read
      cases cs with
      | nil => cases read
      | cons d cs =>
        have other : d ≠ '\x27' := fun second => double (congrArg some second)
        rw [marks_other other, map_eq_ok_iff] at read
        obtain ⟨ms, -, rfl⟩ := read
        refine ⟨_, ms, rfl, fun letter same => ?_⟩
        cases (markOf_eq_letter same).1
  · rw [marks_other quote, map_eq_ok_iff] at read
    obtain ⟨ms, -, rfl⟩ := read
    exact ⟨_, ms, rfl, fun letter same => (markOf_eq_letter same).2⟩

theorem head?_of_marks {position : Nat} {cs : List Char} {ms : List Mark} {c : Char}
    (read : marks none position cs = .ok ms) (first : ms.head? = some (.letter c)) :
    cs.head? = some c := by
  cases cs with
  | nil =>
    cases read
    cases first
  | cons d cs =>
    obtain ⟨mark, rest, rfl, letter⟩ := exists_first_mark read
    rw [letter c (Option.some.inj first)]
    rfl

theorem eq_or_getLast?_of_getLast?_cons {α : Type} {x y : α} {xs : List α}
    (last : (x :: xs).getLast? = some y) : xs = [] ∧ x = y ∨ xs.getLast? = some y := by
  rw [List.getLast?_cons] at last
  cases behind : xs.getLast? with
  | none =>
    rw [behind] at last
    exact .inl ⟨List.getLast?_eq_none_iff.mp behind, Option.some.inj last⟩
  | some z =>
    rw [behind] at last
    exact .inr last

theorem getLast?_of_marks {opened : Option Nat} {position : Nat} {cs : List Char} {ms : List Mark}
    {c : Char} (read : marks opened position cs = .ok ms)
    (last : ms.getLast? = some (.letter c)) : cs.getLast? = some c := by
  induction opened, position, cs using marks.induct generalizing ms with
  | case1 position =>
    cases read
    cases last
  | case2 position start => cases read
  | case3 opened position cs ih =>
    rw [marks_two_quotes, map_eq_ok_iff] at read
    obtain ⟨ms, read, rfl⟩ := read
    rcases eq_or_getLast?_of_getLast?_cons last with ⟨-, text⟩ | later
    · cases text
    · exact getLast?_cons_of_getLast? (getLast?_cons_of_getLast? (ih read later))
  | case4 opened position cs next ih =>
    rw [marks.eq_4 _ _ _ next] at read
    exact getLast?_cons_of_getLast? (ih read last)
  | case5 opened position d cs _ other ih =>
    rw [marks_other other, map_eq_ok_iff] at read
    obtain ⟨ms, read, rfl⟩ := read
    rcases eq_or_getLast?_of_getLast?_cons last with ⟨rfl, letter⟩ | later
    -- Nothing is left behind a letter that is the last mark, as it is outside of quoted text.
    · obtain ⟨outside, rfl⟩ := markOf_eq_letter letter
      cases cs with
      | nil => rfl
      | cons e cs =>
        have read : marks none 0 (e :: cs) = .ok [] :=
          marks_ok_anywhere read (by simpa using outside) 0
        obtain ⟨mark, rest, missing, -⟩ := exists_first_mark read
        cases missing
    · exact getLast?_cons_of_getLast? (ih read later)

/-! ### Tokens -/

/-- The tokens `ts`, and behind them `us`. Where both meet in fixed text, it is one text. -/
inductive Joins : List Token → List Token → List Token → Prop
  | behind (ts us : List Token) : Joins ts us (ts ++ us)
  | texts (ts : List Token) (cs ds : List Char) (us : List Token) :
      Joins (ts ++ [.text cs]) (.text ds :: us) (ts ++ .text (cs ++ ds) :: us)

/-- A mark in front joins no more than the first token. -/
theorem Token.cons_append (mark : Mark) {ts : List Token} (nonempty : ts ≠ []) (us : List Token) :
    Token.cons mark (ts ++ us) = Token.cons mark ts ++ us := by
  obtain ⟨t, ts, rfl⟩ := List.exists_cons_of_ne_nil nonempty
  cases mark with
  | letter c =>
    cases t with
    | field d count =>
      simp only [List.cons_append, Token.cons]
      split <;> rfl
    | text cs => rfl
  | text c =>
    cases t with
    | field d count => rfl
    | text cs => rfl

theorem Joins.cons (mark : Mark) {ts us ws : List Token} (joins : Joins ts us ws)
    (nonempty : ts ≠ []) : Joins (Token.cons mark ts) us (Token.cons mark ws) := by
  cases joins with
  | behind ts us =>
    rw [Token.cons_append mark nonempty]
    exact .behind _ us
  | texts ts cs ds us =>
    by_cases missing : ts = []
    · subst missing
      cases mark with
      | letter c => exact .texts [.field c 1] cs ds us
      | text c => exact .texts [] (c :: cs) ds us
    · rw [Token.cons_append mark missing, Token.cons_append mark missing]
      exact .texts _ cs ds us

/-- The last mark in front of tokens is a token of its own, if it is not the letter of the first
one. -/
theorem Joins.last {mark : Mark} {us : List Token}
    (apart : ∀ letter count, us.head? = some (.field letter count) → mark ≠ .letter letter) :
    Joins (Token.cons mark []) us (Token.cons mark us) := by
  cases mark with
  | letter c =>
    have alone : Token.cons (.letter c) us = .field c 1 :: us := by
      cases us with
      | nil => rfl
      | cons u us =>
        cases u with
        | field letter count =>
          have other : c ≠ letter := fun same => apart letter count rfl (congrArg _ same)
          exact if_neg other
        | text ds => rfl
    rw [alone]
    exact .behind [.field c 1] us
  | text c =>
    cases us with
    | nil => exact .behind [.text [c]] []
    | cons u us =>
      cases u with
      | field letter count => exact .behind [.text [c]] (.field letter count :: us)
      | text ds => exact .texts [] [c] ds us

theorem Token.cons_ne_nil (mark : Mark) (ts : List Token) : Token.cons mark ts ≠ [] := by
  fun_cases Token.cons mark ts <;> exact List.cons_ne_nil _ _

theorem tokens_ne_nil {ms : List Mark} (nonempty : ms ≠ []) : tokens ms ≠ [] := by
  obtain ⟨mark, ms, rfl⟩ := List.exists_cons_of_ne_nil nonempty
  exact Token.cons_ne_nil mark (tokens ms)

theorem Token.head?_cons_of_field {mark : Mark} {ts : List Token} {letter : Char} {count : Nat}
    (first : (Token.cons mark ts).head? = some (.field letter count)) : mark = .letter letter := by
  revert first
  fun_cases Token.cons mark ts with
  | case1 | case2 | case3 =>
    intro first
    cases first
    rfl
  | case4 | case5 =>
    intro first
    cases first

/-- Marks behind others give their tokens behind those of the others, unless a letter is repeated
there. -/
theorem joins_tokens {ms ns : List Mark}
    (apart : ∀ c, ms.getLast? = some (.letter c) → ns.head? ≠ some (.letter c)) :
    Joins (tokens ms) (tokens ns) (tokens (ms ++ ns)) := by
  induction ms with
  | nil => exact .behind [] (tokens ns)
  | cons mark ms ih =>
    by_cases alone : ms = []
    · subst alone
      apply Joins.last
      intro letter count first same
      cases ns with
      | nil => cases first
      | cons next ns =>
        rw [Token.head?_cons_of_field first] at apart
        exact apart letter (congrArg some same) rfl
    · have joins := ih fun c last => apart c (getLast?_cons_of_getLast? last)
      exact joins.cons mark (tokens_ne_nil alone)

/-! ### What tokens show -/

/-- What a token shows of an instant, in a pattern of its own. -/
def Token.shown (table : Locale.Table) (zoneName : String) (n : Int) : Token → List Char
  | .field letter count => Layout.writeItem ⟨[], []⟩ table zoneName n (fieldItem letter count false)
  | .text cs => cs

end Pattern

/-- A single digit and as many as needed are the same in writing. -/
theorem Width.write_fixed_one (n : Nat) : Width.write (.fixed 1) n = Width.write .greedy n := by
  have one : 1 - (Nat.toDigits 10 n).length = 0 - (Nat.toDigits 10 n).length := by
    have some : 0 < (Nat.toDigits 10 n).length := Nat.length_toDigits_pos
    omega
  simp only [Width.write, Text.digits, List.leftpad, one]

namespace Pattern

theorem write_widthOf (count : Nat) (digitsFollow : Bool) (n : Nat) :
    (widthOf count digitsFollow).write n = (widthOf count false).write n := by
  cases digitsFollow with
  | false => rfl
  | true =>
    by_cases single : count = 1
    · subst single
      exact Width.write_fixed_one n
    · simp only [widthOf, if_neg single]

theorem write_fractionWidth (count : Nat) (digitsFollow : Bool) (n : Nat) :
    (fractionWidth count digitsFollow).write n = (fractionWidth count false).write n := by
  unfold fractionWidth
  split
  next => exact write_widthOf 1 digitsFollow n
  next => rfl
  next => rfl

/-- Only two letters leave the century out, whatever follows. -/
theorem writeYear_yearWidth (count : Nat) (digitsFollow : Bool) (year : Int) :
    writeYear year (yearWidth count digitsFollow) = writeYear year (yearWidth count false) := by
  cases digitsFollow with
  | false => rfl
  | true =>
    by_cases single : count = 1
    · subst single
      simp [yearWidth, widthOf, writeYear, Width.write_fixed_one]
    · simp only [yearWidth, widthOf, if_neg single]

variable {n : Int} {table : Locale.Table} {zoneName : String}

/-- Neither what follows a field nor the rest of the layout changes what it shows. -/
theorem writeItem_fieldItem (fourDigits : FourDigitYear n) (layout : Layout) (letter : Char)
    (count : Nat) (digitsFollow : Bool) :
    layout.writeItem table zoneName n (fieldItem letter count digitsFollow)
      = (Token.field letter count).shown table zoneName n := by
  simp only [Token.shown, fieldItem]
  split
  -- The year.
  case h_2 =>
    simp only [Layout.writeItem, fourDigits.yearWithinEra]
    exact writeYear_yearWidth count digitsFollow _
  -- The month, by its number or its name.
  case h_3 =>
    split
    next => rfl
    next => simp only [Layout.writeItem, write_widthOf count digitsFollow]
  all_goals
    simp only [Layout.writeItem, write_widthOf count digitsFollow,
      write_fractionWidth count digitsFollow]

theorem Denotes.flatMap_writeItem (fourDigits : FourDigitYear n) {layout : Layout}
    {ts : List Token} {items : List Item} (denotes : Denotes layout.literals ts items) :
    items.flatMap (layout.writeItem table zoneName n)
      = ts.flatMap (Token.shown table zoneName n) := by
  induction denotes with
  | nil => rfl
  | field letter count rest ih =>
    rw [List.flatMap_cons, List.flatMap_cons, ih, writeItem_fieldItem fourDigits]
  | text entry rest ih =>
    have literal : layout.literal _ = _ := congrArg (Option.getD · "") entry
    rw [List.flatMap_cons, List.flatMap_cons, ih, Layout.writeItem, literal]
    exact congrArg (· ++ _) String.toList_ofList

theorem Joins.flatMap_shown {ts us ws : List Token} (joins : Joins ts us ws) :
    ws.flatMap (Token.shown table zoneName n)
      = ts.flatMap (Token.shown table zoneName n) ++ us.flatMap (Token.shown table zoneName n) := by
  cases joins with
  | behind ts us => exact List.flatMap_append
  | texts ts cs ds us => simp [Token.shown]

end Pattern

/-! ### Layouts -/

section

open Pattern

variable {p q : String} {first second joined : Layout} {n : Int}

/-- The text of two patterns one behind the other is the text of the one and then that of the other,
unless the first ends with the character that the second starts with. -/
theorem Layout.format_ofPattern_append (left : Layout.ofPattern p = .ok first)
    (right : Layout.ofPattern q = .ok second) (both : Layout.ofPattern (p ++ q) = .ok joined)
    (apart : ∀ c, p.toList.getLast? = some c → q.toList.head? ≠ some c) (fits : Representable n)
    (table : Option Locale.Table) (zoneName : String) :
    joined.format n table zoneName
      = first.format n table zoneName ++ second.format n table zoneName := by
  obtain ⟨ms, leftRead, leftItems⟩ := Layout.exists_tokens left
  obtain ⟨ns, rightRead, rightItems⟩ := Layout.exists_tokens right
  obtain ⟨ks, bothRead, bothItems⟩ := Layout.exists_tokens both
  have whole : ks = ms ++ ns := by
    have behind : marks none (0 + p.toList.length) q.toList = .ok ns :=
      marks_ok_anywhere rightRead rfl _
    rw [String.toList_append, marks_append leftRead (apart '\x27'), behind] at bothRead
    exact (Except.ok.inj bothRead).symm
  have joins : Joins (tokens ms) (tokens ns) (tokens ks) := by
    rw [whole]
    apply joins_tokens
    intro c last next
    exact apart c (getLast?_of_marks leftRead last) (head?_of_marks rightRead next)
  have fourDigits := fits.fourDigitYear
  simp only [Layout.format, Layout.write, leftItems.flatMap_writeItem fourDigits,
    rightItems.flatMap_writeItem fourDigits, bothItems.flatMap_writeItem fourDigits,
    joins.flatMap_shown, String.ofList_append]

/-- In front of a day, the month has to be of one digit to be read back, and an era makes the year
one of the era. The first count of the range is shown all the same. -/
theorem Layout.format_ofPattern_append_era :
    let first : Layout := ⟨[.year (.fixed 4), .literal 0, .number .month .greedy], ["-"]⟩
    let second : Layout := ⟨[.number .day .greedy, .literal 0, .era], [" "]⟩
    let joined : Layout := ⟨[.year (.fixed 4), .literal 0, .number .month (.fixed 1),
      .number .day .greedy, .literal 1, .era], ["-", " "]⟩
    Layout.ofPattern "yyyy-M" = .ok first ∧ Layout.ofPattern "d G" = .ok second ∧
      Layout.ofPattern ("yyyy-M" ++ "d G") = .ok joined ∧ Representable minNanos ∧
      joined.format minNanos none "Z" = "1677-9" ++ "21 AD" := by
  intro first second joined
  have left : Layout.ofPattern "yyyy-M" = .ok first := by decide
  have right : Layout.ofPattern "d G" = .ok second := by decide
  have both : Layout.ofPattern ("yyyy-M" ++ "d G") = .ok joined := by decide
  have fits : Representable minNanos := by decide
  have apart : ∀ c, "yyyy-M".toList.getLast? = some c → "d G".toList.head? ≠ some c := by
    rintro c ⟨rfl⟩
    decide
  refine ⟨left, right, both, fits, ?_⟩
  rw [Layout.format_ofPattern_append left right both apart fits none "Z"]
  decide +kernel

end
end CivilTime
