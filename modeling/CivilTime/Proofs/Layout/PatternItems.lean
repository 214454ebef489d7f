import CivilTime.Proofs.Layout.Quotes

/-!
# Items of a pattern

The fixed texts of a pattern are numbered in the order in which they first occur, so its table holds
each of them once, and every token stands for one item. As no token is an empty text, a pattern of
up to 65536 texts gives a layout if and only if its quotes are even in number.
-/
namespace CivilTime

namespace Pattern

/-! ### Tokens -/

/-- The fixed text that a token is, if it is one. -/
def Token.text? : Token → Option String
  | .field _ _ => none
  | .text cs => some (String.ofList cs)

/-- The fixed texts among tokens, as often as they occur. -/
def texts (ts : List Token) : List String := ts.filterMap Token.text?

/-- A token put in front, or joined with the first one, makes no empty text. -/
theorem Token.cons_ne_empty (mark : Mark) {ts : List Token} (nonempty : ∀ t ∈ ts, t ≠ .text []) :
    ∀ t ∈ Token.cons mark ts, t ≠ .text [] := by
  fun_cases Token.cons mark ts with
  -- Joined with the first token.
  | case1 | case4 =>
    rw [List.forall_mem_cons] at nonempty ⊢
    exact ⟨nofun, nonempty.2⟩
  -- Put in front.
  | case2 | case3 | case5 => exact List.forall_mem_cons.mpr ⟨nofun, nonempty⟩

theorem tokens_ne_empty (ms : List Mark) : ∀ t ∈ tokens ms, t ≠ .text [] := by
  induction ms with
  | nil => exact nofun
  | cons mark ms ih => exact Token.cons_ne_empty mark ih

theorem empty_notMem_texts (ms : List Mark) : "" ∉ texts (tokens ms) := by
  intro member
  obtain ⟨t, listed, empty⟩ := List.mem_filterMap.mp member
  cases t with
  | field letter count => cases empty
  | text cs =>
    have nothing : cs = [] := by simpa [Token.text?] using empty
    rw [nothing] at listed
    exact tokens_ne_empty ms _ listed rfl

/-! ### The table of texts -/

/-- The items that stand for tokens in a layout with this table. -/
inductive Denotes (table : List String) : List Token → List Item → Prop
  | nil : Denotes table [] []
  /-- A single letter of a field counts digits only if digits follow. -/
  | field (letter : Char) (count : Nat) {ts : List Token} {items : List Item}
      (rest : Denotes table ts items) :
      Denotes table (.field letter count :: ts)
        (fieldItem letter count (startsNumeric ts) :: items)
  | text {cs : List Char} {index : Nat} {ts : List Token} {items : List Item}
      (entry : table[index]? = some (String.ofList cs)) (rest : Denotes table ts items) :
      Denotes table (.text cs :: ts) (.literal index :: items)

theorem fieldItem_ne_literal (letter : Char) (count : Nat) (digitsFollow : Bool) (index : Nat) :
    fieldItem letter count digitsFollow ≠ .literal index := by
  simp only [fieldItem]
  repeat' split
  all_goals exact nofun

theorem Denotes.index_lt {table : List String} {ts : List Token} {items : List Item}
    (denotes : Denotes table ts items) {index : Nat} (member : .literal index ∈ items) :
    index < table.length := by
  induction denotes with
  | nil => cases member
  | field letter count rest ih =>
    rcases List.mem_cons.mp member with same | later
    · exact absurd same.symm (fieldItem_ne_literal _ _ _ _)
    · exact ih later
  | text entry rest ih =>
    rcases List.mem_cons.mp member with same | later
    · cases same
      exact (List.getElem?_eq_some_iff.mp entry).1
    · exact ih later

/-- Reading one more text leaves the table as it is or adds the text at its end. -/
theorem eraseDups_concat (seen : List String) (text : String) :
    (seen ++ [text]).eraseDups = seen.eraseDups ++ if text ∈ seen then [] else [text] := by
  rw [List.eraseDups_append]
  by_cases known : text ∈ seen
  · simp [List.removeAll, known]
  · simp [List.removeAll, known, List.eraseDups_cons]

theorem nodup_eraseDups (seen : List String) : seen.eraseDups.Nodup := by
  induction seen using List.reverseRecOn with
  | nil => simp
  | append_singleton seen text ih =>
    rw [eraseDups_concat]
    split
    next => rwa [List.append_nil]
    next new =>
      rw [List.nodup_append]
      refine ⟨ih, List.nodup_singleton text, ?_⟩
      intro old member other last
      rw [List.mem_singleton.mp last]
      rintro rfl
      exact new (List.mem_eraseDups.mp member)

/-- The table only grows at its end, and has the text at the place given to it. -/
theorem intern_spec (seen : List String) (text : String) :
    seen <+: (intern seen text).2 ∧
      (intern seen text).2[(intern seen text).1]? = some text := by
  by_cases known : seen.idxOf text < seen.length
  · simp only [intern, if_pos known]
    exact ⟨List.prefix_rfl, List.getElem?_idxOf (List.idxOf_lt_length_iff.mp known)⟩
  · simp only [intern, if_neg known]
    exact ⟨List.prefix_append seen [text], List.getElem?_concat_length⟩

theorem intern_eraseDups (seen : List String) (text : String) :
    (intern seen.eraseDups text).2 = (seen ++ [text]).eraseDups := by
  rw [eraseDups_concat]
  unfold intern
  by_cases known : text ∈ seen
  · have place : seen.eraseDups.idxOf text < seen.eraseDups.length :=
      List.idxOf_lt_length_iff.mpr (List.mem_eraseDups.mpr known)
    simp [place, known]
  · simp [known]

/-- The items stand for the tokens in the table, which keeps what has been seen. -/
theorem denotes_of_itemsFrom {seen table : List String} {ts : List Token} {items : List Item}
    (compiled : itemsFrom seen ts = .ok (items, table)) :
    seen <+: table ∧ Denotes table ts items := by
  induction ts generalizing seen items with
  | nil =>
    cases compiled
    exact ⟨List.prefix_rfl, .nil⟩
  | cons t ts ih =>
    cases t with
    | field letter count =>
      obtain ⟨⟨items, table⟩, rest, same⟩ := map_eq_ok_iff.mp compiled
      cases same
      obtain ⟨kept, denotes⟩ := ih rest
      exact ⟨kept, .field letter count denotes⟩
    | text cs =>
      obtain ⟨grown, entry⟩ := intern_spec seen (String.ofList cs)
      simp only [itemsFrom] at compiled
      split at compiled
      next =>
        obtain ⟨⟨items, table⟩, rest, same⟩ := map_eq_ok_iff.mp compiled
        cases same
        obtain ⟨kept, denotes⟩ := ih rest
        have place := (List.getElem?_eq_some_iff.mp entry).1
        refine ⟨grown.trans kept, .text ?_ denotes⟩
        -- Later texts come behind the ones in the table, so the text keeps its place.
        obtain ⟨more, same⟩ := kept
        rw [← same, List.getElem?_append_left place, entry]
      next => cases compiled

/-- The tokens that follow what has been seen get their items, as long as the table does not grow
too long. -/
theorem exists_itemsFrom (ts : List Token) (seen : List String)
    (few : (seen ++ texts ts).eraseDups.length ≤ Layout.maxLiterals) :
    ∃ items, itemsFrom seen.eraseDups ts = .ok (items, (seen ++ texts ts).eraseDups) := by
  induction ts generalizing seen with
  | nil =>
    rw [texts, List.filterMap_nil, List.append_nil]
    exact ⟨[], rfl⟩
  | cons t ts ih =>
    cases t with
    | field letter count =>
      have same : texts (.field letter count :: ts) = texts ts := rfl
      rw [same] at few ⊢
      obtain ⟨items, read⟩ := ih seen few
      refine ⟨fieldItem letter count (startsNumeric ts) :: items, ?_⟩
      rw [itemsFrom, read]
      rfl
    | text cs =>
      have more : seen ++ texts (.text cs :: ts) = (seen ++ [String.ofList cs]) ++ texts ts := by
        rw [List.append_assoc]
        rfl
      rw [more] at few ⊢
      obtain ⟨items, read⟩ := ih _ few
      have table := intern_eraseDups seen (String.ofList cs)
      have room : (intern seen.eraseDups (String.ofList cs)).1 < Layout.maxLiterals := by
        obtain ⟨-, entry⟩ := intern_spec seen.eraseDups (String.ofList cs)
        have place := (List.getElem?_eq_some_iff.mp entry).1
        rw [table] at place
        rw [List.eraseDups_append, List.length_append] at few
        omega
      refine ⟨.literal (intern seen.eraseDups (String.ofList cs)).1 :: items, ?_⟩
      simp only [itemsFrom, table, read, if_pos room]
      rfl

/-- The fixed texts of a pattern, as often as they occur. There are none where a quote is not
closed. -/
def literalTexts (pattern : String) : List String :=
  match marks none 0 pattern.toList with
  | .ok ms => texts (tokens ms)
  | .error _ => []

end Pattern

/-! ### Layouts -/

open Pattern in
/-- A pattern whose quotes are closed, with few enough texts, gives a layout. -/
theorem Layout.ofPattern_eq {pattern : String} {ms : List Mark}
    (read : marks none 0 pattern.toList = .ok ms)
    (few : (texts (tokens ms)).eraseDups.length ≤ Layout.maxLiterals) :
    ∃ items, Layout.ofPattern pattern = .ok ⟨items, (texts (tokens ms)).eraseDups⟩ ∧
      Denotes (texts (tokens ms)).eraseDups (tokens ms) items := by
  obtain ⟨items, compiled⟩ := exists_itemsFrom (tokens ms) [] few
  have denotes : Denotes (texts (tokens ms)).eraseDups (tokens ms) items :=
    (denotes_of_itemsFrom compiled).2
  -- The layout checks again what numbering the texts has ensured.
  have inTable : items.all (Layout.inTable (texts (tokens ms)).eraseDups.length) = true := by
    rw [List.all_eq_true]
    intro item member
    cases item with
    | literal index => exact decide_eq_true (denotes.index_lt member)
    | _ => rfl
  have compiled : itemsFrom [] (tokens ms) = .ok (items, (texts (tokens ms)).eraseDups) := compiled
  refine ⟨items, ?_, denotes⟩
  simp only [Layout.ofPattern, read, compiled, Layout.ofItems, if_neg (Nat.not_lt.mpr few),
    if_pos inTable]

theorem Layout.ofItems_eq_ok {items : List Item} {literals : List String} {layout : Layout}
    (checked : Layout.ofItems items literals = .ok layout) : layout = ⟨items, literals⟩ := by
  simp only [Layout.ofItems] at checked
  split at checked
  next => cases checked
  next =>
    split at checked
    next => exact (Except.ok.inj checked).symm
    next => cases checked

open Pattern in
/-- A layout of a pattern has the items of its tokens. -/
theorem Layout.exists_tokens {pattern : String} {layout : Layout}
    (compiled : Layout.ofPattern pattern = .ok layout) :
    ∃ ms, marks none 0 pattern.toList = .ok ms ∧
      Denotes layout.literals (tokens ms) layout.items := by
  simp only [Layout.ofPattern] at compiled
  split at compiled
  next => cases compiled
  next ms read =>
    split at compiled
    next => cases compiled
    next items literals given =>
      rw [Layout.ofItems_eq_ok compiled]
      exact ⟨ms, read, (denotes_of_itemsFrom given).2⟩

theorem Layout.ofPattern_of_unclosed {pattern : String} {start : Nat}
    (unclosed : Pattern.marks none 0 pattern.toList = .error start) :
    Layout.ofPattern pattern = .error ⟨.unterminatedQuote, some start⟩ := by
  simp only [Layout.ofPattern, unclosed]

/-- A pattern with few enough texts gives no layout exactly if its quotes are odd in number, and the
error is then at a quote that stands outside of quoted text. The table of a layout holds no text
twice and no empty one, and all the texts of its items. -/
theorem Layout.ofPattern_fails_iff_odd_quotes (pattern : String)
    (few : (Pattern.literalTexts pattern).eraseDups.length ≤ Layout.maxLiterals) :
    ((∃ e, Layout.ofPattern pattern = .error e) ↔ Odd (pattern.toList.count '\x27')) ∧
    (∀ e, Layout.ofPattern pattern = .error e → e.kind = .range ∧
      ∃ before after, pattern.toList = before ++ '\x27' :: after ∧
        e.position = some before.length ∧ Even (before.count '\x27')) ∧
    ∀ layout, Layout.ofPattern pattern = .ok layout →
      (∀ index, .literal index ∈ layout.items → index < layout.literals.length) ∧
      "" ∉ layout.literals ∧ layout.literals.Nodup := by
  have closed := Pattern.exists_marks_iff none 0 pattern.toList
  rw [← Nat.not_even_iff_odd]
  cases read : Pattern.marks none 0 pattern.toList with
  | error start =>
    have odd : ¬ Even (pattern.toList.count '\x27') := by simpa [read] using closed
    rw [Layout.ofPattern_of_unclosed read]
    refine ⟨⟨fun _ => odd, fun _ => ⟨_, rfl⟩⟩, ?_, nofun⟩
    rintro e ⟨rfl⟩
    rcases Pattern.unclosed_quote read with outside | ⟨before, after, whole, rfl, even⟩
    · cases outside
    · exact ⟨rfl, before, after, whole, by rw [Nat.zero_add], even.mpr rfl⟩
  | ok ms =>
    have even : Even (pattern.toList.count '\x27') := by simpa [read] using closed
    rw [Pattern.literalTexts, read] at few
    obtain ⟨items, compiled, denotes⟩ := Layout.ofPattern_eq read few
    rw [compiled]
    refine ⟨⟨nofun, fun odd => absurd even odd⟩, nofun, ?_⟩
    rintro layout ⟨rfl⟩
    refine ⟨fun index => denotes.index_lt, ?_, Pattern.nodup_eraseDups _⟩
    exact fun empty => Pattern.empty_notMem_texts ms (List.mem_eraseDups.mp empty)

/-- The quote in front of the last letter is not closed. The character at the start has two bytes.
With a quote behind that letter the texts make the table, the one that stands twice only once. -/
theorem Layout.ofPattern_with_last_quote_open_and_closed :
    (∃ e, Layout.ofPattern "é'o''clock' yyyy 'x" = .error e ∧ e.kind = .range ∧
      e.position = some 17) ∧
    ∃ layout, Layout.ofPattern "é'o''clock' yyyy 'x'MM 'x'" = .ok layout ∧
      layout.literals = ["éo'clock ", " x"] ∧
      (∀ index, .literal index ∈ layout.items → index < layout.literals.length) ∧
      layout.literals.Nodup := by
  let opened := "é'o''clock' yyyy 'x"
  let closed := "é'o''clock' yyyy 'x'MM 'x'"
  constructor
  · have few : (Pattern.literalTexts opened).eraseDups.length ≤ Layout.maxLiterals := by decide
    obtain ⟨fails, located, -⟩ := Layout.ofPattern_fails_iff_odd_quotes opened few
    obtain ⟨e, failed⟩ := fails.mpr (by decide)
    have evaluated : Layout.ofPattern opened = .error ⟨.unterminatedQuote, some 17⟩ := by decide
    have same : e = ⟨.unterminatedQuote, some 17⟩ :=
      Except.error.inj (failed.symm.trans evaluated)
    exact ⟨e, failed, (located e failed).1, congrArg TimeError.position same⟩
  · have few : (Pattern.literalTexts closed).eraseDups.length ≤ Layout.maxLiterals := by decide
    obtain ⟨-, -, tables⟩ := Layout.ofPattern_fails_iff_odd_quotes closed few
    have evaluated : Layout.ofPattern closed = .ok
        { items :=
            [.literal 0, .year (.fixed 4), .literal 1, .number .month (.fixed 2), .literal 1]
          literals := ["éo'clock ", " x"] } := by decide
    obtain ⟨within, -, distinct⟩ := tables _ evaluated
    exact ⟨_, evaluated, rfl, within, distinct⟩

end CivilTime
