import CivilTime.Proofs.Layout.ByteReaders

/-!
# What readers look at

Readers look at the text ahead without regard to ASCII case, and where no name has a bar they look
no further than to the next one. So a text that is the same up to ASCII case, or that goes on behind
a bar, is read alike: with the same values or the same error, and with rests that are alike again.
-/
namespace CivilTime

/-! ### Texts that are alike -/

namespace Text

theorem eq_of_toLower_eq {c d : Char} (same : c.toLower = d.toLower) (plain : d.isAlpha = false) :
    c = d := by
  -- What is no letter is no capital, so it stands for itself.
  have small {e : Char} (plain : e.isAlpha = false) : e.toLower = e := by
    apply Char.toLower_eq_of_not_isUpper
    rw [Char.isAlpha, Bool.or_eq_false_iff] at plain
    rw [plain.1]
    exact Bool.false_ne_true
  have letterless : c.isAlpha = false := by
    rw [← Char.isAlpha_toLower_eq_isAlpha, same, Char.isAlpha_toLower_eq_isAlpha, plain]
  rwa [small letterless, small plain] at same

theorem isAlpha_of_isDigit {c : Char} (digit : c.isDigit = true) : c.isAlpha = false := by
  rw [Char.isDigit_iff_toNat] at digit
  simp [Char.isAlpha, Char.isUpper, Char.isLower, UInt32.le_iff_toNat_le] at digit ⊢
  omega

theorem isDigit_eq_of_toLower_eq {c d : Char} (same : c.toLower = d.toLower) :
    c.isDigit = d.isDigit := by
  by_cases digit : d.isDigit = true
  · rw [eq_of_toLower_eq same (isAlpha_of_isDigit digit)]
  · by_cases other : c.isDigit = true
    · rw [eq_of_toLower_eq same.symm (isAlpha_of_isDigit other)]
    · rw [Bool.eq_false_iff.mpr digit, Bool.eq_false_iff.mpr other]

theorem toLower_eq_z_iff {c : Char} : c.toLower = 'z' ↔ c = 'Z' ∨ c = 'z' := by
  constructor
  · intro small
    by_cases capital : c.isUpper = true
    · have large : c.toUpper = 'Z' := by
        rw [← Char.toUpper_toLower_eq_toUpper, small]
        rfl
      rw [Char.toUpper_eq_of_not_isLower (Char.not_isLower_of_isUpper capital)] at large
      exact .inl large
    · rw [Char.toLower_eq_of_not_isUpper capital] at small
      exact .inr small
  · rintro (rfl | rfl) <;> rfl

/-- A part of a text ends in front of `rest`: at a bar, or because nothing is left. -/
def EndsPart (rest : List Char) : Prop := ∀ c ∈ rest.head?, c = '|'

theorem endsPart_nil : EndsPart [] := nofun

theorem endsPart_bar (rest : List Char) : EndsPart ('|' :: rest) := by
  rintro c ⟨rfl⟩
  rfl

/-- The text `ds` is `cs`, up to ASCII case, and then the ending, which is behind the end of a
part. -/
inductive Like (ending : List Char) : List Char → List Char → Prop
  | stop (bar : EndsPart ending) : Like ending [] ending
  | next {c d : Char} {cs ds : List Char} (same : c.toLower = d.toLower)
      (rest : Like ending cs ds) : Like ending (c :: cs) (d :: ds)

theorem like_append {ending : List Char} (bar : EndsPart ending) (cs : List Char) :
    Like ending cs (cs ++ ending) := by
  induction cs with
  | nil => exact .stop bar
  | cons c cs ih => exact .next rfl ih

theorem like_of_fold_eq {cs ds : List Char} (same : fold cs = fold ds) : Like [] cs ds := by
  induction cs generalizing ds with
  | nil =>
    have empty : ds = [] := by simpa [fold] using same.symm
    rw [empty]
    exact .stop endsPart_nil
  | cons c cs ih =>
    cases ds with
    | nil => cases same
    | cons d ds =>
      obtain ⟨first, rest⟩ := List.cons.inj same
      exact .next first (ih rest)

namespace Like

variable {ending cs ds : List Char}

theorem head?_eq_some_iff (like : Like ending cs ds) {c : Char} (plain : c.isAlpha = false)
    (other : c ≠ '|') : ds.head? = some c ↔ cs.head? = some c := by
  cases like with
  | stop bar =>
    simp only [List.head?_nil, reduceCtorEq, iff_false]
    exact fun first => other (bar c first)
  | @next e d cs ds same rest =>
    simp only [List.head?_cons, Option.some.injEq]
    constructor
    · rintro rfl
      exact eq_of_toLower_eq same plain
    · rintro rfl
      exact eq_of_toLower_eq same.symm plain

theorem takeWhile_isDigit (like : Like ending cs ds) :
    ds.takeWhile Char.isDigit = cs.takeWhile Char.isDigit := by
  induction like with
  | stop bar =>
    cases ending with
    | nil => rfl
    | cons c ending =>
      rw [bar c rfl]
      rfl
  | @next c d cs ds same rest ih =>
    rw [List.takeWhile_cons, List.takeWhile_cons, isDigit_eq_of_toLower_eq same, ih]
    by_cases digit : d.isDigit = true
    · rw [eq_of_toLower_eq same (isAlpha_of_isDigit digit)]
    · rw [if_neg digit, if_neg digit]

theorem leadingDigits (like : Like ending cs ds) (limit : Nat) :
    leadingDigits limit ds = leadingDigits limit cs := by
  have digits := congrArg (List.take limit) like.takeWhile_isDigit
  rwa [List.take_takeWhile, List.take_takeWhile] at digits

theorem drop (like : Like ending cs ds) {count : Nat} (within : count ≤ cs.length) :
    Like ending (cs.drop count) (ds.drop count) := by
  induction like generalizing count with
  | stop bar =>
    obtain rfl : count = 0 := Nat.le_zero.mp within
    exact .stop bar
  | next same rest ih =>
    cases count with
    | zero => exact .next same rest
    | succ count => exact ih (Nat.le_of_succ_le_succ within)

theorem drop_one (like : Like ending cs ds) {c : Char} (first : cs.head? = some c) :
    Like ending (cs.drop 1) (ds.drop 1) := by
  obtain ⟨rest, rfl⟩ := List.head?_eq_some_iff.mp first
  exact like.drop (Nat.succ_le_succ (Nat.zero_le _))

theorem eq_ending (like : Like ending [] ds) : ds = ending := by
  cases like with
  | stop bar => rfl

/-- A text without bars is at its end where the longer one is at a bar or at its end. -/
theorem ends_together (like : Like ending cs ds) (inside : '|' ∉ cs) (ends : EndsPart ds) :
    cs = [] ∧ ds = ending := by
  cases like with
  | stop bar => exact ⟨rfl, rfl⟩
  | @next c d cs ds same rest =>
    obtain rfl : d = '|' := ends d rfl
    obtain rfl : c = '|' := eq_of_toLower_eq same rfl
    exact absurd List.mem_cons_self inside

theorem isEmpty_eq (like : Like [] cs ds) : ds.isEmpty = cs.isEmpty := by
  cases like <;> rfl

/-- A name is at the start of both texts, or of neither. -/
theorem prefix_fold_iff (like : Like ending cs ds) {name : List Char}
    (barless : ending ≠ [] → '|' ∉ name) : name <+: fold ds ↔ name <+: fold cs := by
  induction like generalizing name with
  | stop bar =>
    cases name with
    | nil => simp
    | cons n name =>
      cases ending with
      | nil => rfl
      | cons c ending =>
        rw [bar c rfl, fold_cons, List.cons_prefix_cons]
        constructor
        · rintro ⟨rfl, -⟩
          exact absurd List.mem_cons_self (barless (List.cons_ne_nil _ _))
        · intro starts
          exact absurd (List.prefix_nil.mp starts) (List.cons_ne_nil _ _)
  | next same rest ih =>
    cases name with
    | nil => simp
    | cons n name =>
      have later : ending ≠ [] → '|' ∉ name := fun more inside =>
        barless more (List.mem_cons_of_mem n inside)
      rw [fold_cons, fold_cons, List.cons_prefix_cons, List.cons_prefix_cons, same, ih later]

/-- So is a text without letters, which is compared as it is. -/
theorem isPrefixOf_eq (like : Like [] cs ds) {text : List Char}
    (letterless : ∀ c ∈ text, c.isAlpha = false) : text.isPrefixOf ds = text.isPrefixOf cs := by
  induction text generalizing cs ds with
  | nil => rfl
  | cons t text ih =>
    have plain := letterless t List.mem_cons_self
    cases like with
    | stop bar => rfl
    | @next c d cs ds same rest =>
      have first : (t == d) = (t == c) := by
        rw [Bool.eq_iff_iff, beq_iff_eq, beq_iff_eq]
        constructor
        · rintro rfl
          exact (eq_of_toLower_eq same plain).symm
        · rintro rfl
          exact (eq_of_toLower_eq same.symm plain).symm
      rw [List.isPrefixOf, List.isPrefixOf, first,
        ih rest fun c inside => letterless c (List.mem_cons_of_mem t inside)]

end Like
end Text

/-! ### Offset literals and names -/

namespace Zone

variable {ending cs ds : List Char}

theorem startsWithUtc_iff (cs : List Char) :
    startsWithUtc cs = true ↔
      ['u', 't', 'c'] <+: Text.fold cs ∨ ['g', 'm', 't'] <+: Text.fold cs := by
  rw [startsWithUtc, isUtc_iff, Text.fold_take, List.prefix_iff_eq_take, List.prefix_iff_eq_take]
  exact or_congr eq_comm eq_comm

theorem startsWithUtc_like (like : Text.Like ending cs ds) :
    startsWithUtc ds = startsWithUtc cs := by
  rw [Bool.eq_iff_iff, startsWithUtc_iff, startsWithUtc_iff,
    like.prefix_fold_iff fun _ => by decide, like.prefix_fold_iff fun _ => by decide]

namespace OffsetLiteral

theorem minutes_like (like : Text.Like ending cs ds) : minutes ds = minutes cs := by
  have colon := like.head?_eq_some_iff (c := ':') rfl (by decide)
  simp only [minutes, colon]
  -- The colon counts in both texts or in none, and the digits are those behind it.
  by_cases divided : cs.head? = some ':'
  · simp only [if_pos divided, (like.drop_one divided).leadingDigits]
  · simp only [if_neg divided, List.drop_zero, like.leadingDigits]

theorem magnitude_like (like : Text.Like ending cs ds) (sign : Int) (read : Nat) :
    magnitude sign read ds = magnitude sign read cs := by
  have within := Text.leadingDigits_length_le 2 cs
  simp only [magnitude, like.leadingDigits, minutes_like (like.drop within)]

theorem signed?_eq (read : Nat) (cs : List Char) :
    signed? read cs = if cs.head? = some '+' then magnitude 1 (read + 1) (cs.drop 1)
      else if cs.head? = some '-' then magnitude (-1) (read + 1) (cs.drop 1)
      else none := by
  have first {c : Char} (other : ∀ rest, cs ≠ c :: rest) : ¬ cs.head? = some c := by
    intro starts
    obtain ⟨rest, same⟩ := List.head?_eq_some_iff.mp starts
    exact other rest same
  unfold signed?
  split
  next => rfl
  next => rfl
  next east west => rw [if_neg (first east), if_neg (first west)]

theorem signed?_like (like : Text.Like ending cs ds) (read : Nat) :
    signed? read ds = signed? read cs := by
  have plus := like.head?_eq_some_iff (c := '+') rfl (by decide)
  have minus := like.head?_eq_some_iff (c := '-') rfl (by decide)
  simp only [signed?_eq, plus, minus]
  by_cases east : cs.head? = some '+'
  · simp only [if_pos east, magnitude_like (like.drop_one east)]
  · by_cases west : cs.head? = some '-'
    · simp only [if_neg east, if_pos west, magnitude_like (like.drop_one west)]
    · simp only [if_neg east, if_neg west]

theorem utc_like (like : Text.Like ending cs ds) :
    (ds.head? = some 'Z' ∨ ds.head? = some 'z') ↔ (cs.head? = some 'Z' ∨ cs.head? = some 'z') := by
  cases like with
  | stop bar =>
    cases ending with
    | nil => rfl
    | cons c ending =>
      rw [bar c rfl]
      simp
  | next same rest =>
    simp only [List.head?_cons, Option.some.injEq, ← Text.toLower_eq_z_iff, same]

/-- Offset literals are read in small letters and in capitals, and end in front of a bar. -/
theorem read?_like (like : Text.Like ending cs ds) : read? ds = read? cs := by
  have plus := like.head?_eq_some_iff (c := '+') rfl (by decide)
  have minus := like.head?_eq_some_iff (c := '-') rfl (by decide)
  simp only [read?, utc_like like, startsWithUtc_like like, plus, minus, signed?_like like,
    magnitude_like like]
  by_cases named : startsWithUtc cs = true
  · simp only [if_pos named, signed?_like (like.drop (narrow_of_startsWithUtc named).length_le)]
  · simp only [if_neg named]

end OffsetLiteral
end Zone

namespace Locale.NameIndex

variable {α : Type} {index : NameIndex α} {ending cs ds : List Char}

/-- No name of the index has a bar. -/
def Barless (index : NameIndex α) : Prop := ∀ entry ∈ index.entries, '|' ∉ entry.name

theorem WellFormed.longest?_like (h : index.WellFormed) (like : Text.Like ending cs ds)
    (barless : ending ≠ [] → index.Barless) : index.longest? ds = index.longest? cs :=
  h.longest?_congr fun entry member => like.prefix_fold_iff fun more => barless more entry member

theorem barless_ofList {names : List (String × α)} (inside : ∀ pair ∈ names, '|' ∉ pair.1.toList) :
    (ofList names).Barless := by
  intro entry member bar
  have wellFormed := wellFormed_ofList names
  have nonempty := wellFormed.nonempty entry member
  rw [wellFormed.mem_iff, lookup_ofList names nonempty] at member
  obtain ⟨pair, given, same, -⟩ := firstValue_eq_some member
  rw [← same] at bar
  obtain ⟨c, present, small⟩ := List.mem_map.mp bar
  obtain rfl : c = '|' := Text.eq_of_toLower_eq small rfl
  exact inside pair given present

end Locale.NameIndex

namespace Locale.Table

/-- The names that are read in texts. -/
def readNames (table : Table) : List String :=
  table.names.months.toList ++ table.names.shortMonths.toList
    ++ table.names.weekdays.toList ++ table.names.shortWeekdays.toList
    ++ [table.names.am, table.names.pm, table.names.beforeCommonEra, table.names.commonEra]
    ++ table.names.zoneNames.map (·.1) ++ table.zoneIds

/-- No name of the table has a bar. -/
def Barless (table : Table) : Prop := ∀ name ∈ table.readNames, '|' ∉ name.toList

instance (table : Table) : Decidable table.Barless :=
  inferInstanceAs (Decidable (∀ name ∈ table.readNames, '|' ∉ name.toList))

namespace Barless

variable {table : Table}

theorem ofList (barless : table.Barless) {α : Type} {names : List (String × α)}
    (listed : ∀ pair ∈ names, pair.1 ∈ table.readNames) : (NameIndex.ofList names).Barless :=
  NameIndex.barless_ofList fun pair given => barless pair.1 (listed pair given)

theorem numbered (barless : table.Barless) {long short : List String}
    (listed : ∀ name ∈ long ++ short, name ∈ table.readNames) :
    (NameIndex.ofList (Locale.numbered long ++ Locale.numbered short)).Barless := by
  apply barless.ofList
  intro pair given
  apply listed
  rw [List.mem_append] at given ⊢
  exact given.imp List.fst_mem_of_mem_zipIdx List.fst_mem_of_mem_zipIdx

theorem monthIndex (barless : table.Barless) : table.monthIndex.Barless := by
  rw [table.monthIndex_eq]
  apply barless.numbered
  intro name given
  rw [List.mem_append] at given
  simp only [readNames, List.mem_append]
  tauto

theorem weekdayIndex (barless : table.Barless) : table.weekdayIndex.Barless := by
  rw [table.weekdayIndex_eq]
  apply barless.numbered
  intro name given
  rw [List.mem_append] at given
  simp only [readNames, List.mem_append]
  tauto

theorem either (barless : table.Barless) {no yes : String} (left : no ∈ table.readNames)
    (right : yes ∈ table.readNames) : (NameIndex.ofList [(no, false), (yes, true)]).Barless := by
  apply barless.ofList
  intro pair given
  simp only [List.mem_cons, List.not_mem_nil, or_false] at given
  rcases given with rfl | rfl
  · exact left
  · exact right

theorem halfOfDayIndex (barless : table.Barless) : table.halfOfDayIndex.Barless :=
  barless.either (by simp [readNames]) (by simp [readNames])

theorem eraIndex (barless : table.Barless) : table.eraIndex.Barless :=
  barless.either (by simp [readNames]) (by simp [readNames])

theorem zonesByName (barless : table.Barless) :
    (NameIndex.ofList table.zonesByName).Barless := by
  apply barless.ofList
  intro pair given
  rcases List.mem_append.mp given with named | identified
  · exact List.mem_append_left _ (List.mem_append_right _ (List.mem_map_of_mem named))
  · obtain ⟨id, known, rfl⟩ := List.mem_map.mp identified
    exact List.mem_append_right _ known

end Barless

theorem zoneIndex_like (table : Table) {ending cs ds : List Char} (like : Text.Like ending cs ds)
    (barless : ending ≠ [] → table.Barless) :
    table.zoneIndex.longest? ds = table.zoneIndex.longest? cs := by
  rw [zoneIndex_longest?, zoneIndex_longest?]
  exact (NameIndex.wellFormed_ofList _).longest?_like like fun more => (barless more).zonesByName

end Locale.Table

/-- No name that is read in the context has a bar. -/
structure ReadContext.Barless (context : ReadContext) : Prop where
  names : context.names.Barless
  zoneNames : context.zoneNames.Barless

/-! ### Results that are alike -/

/-- Both readings succeed with related results, or both fail with the same error. -/
inductive ReadAlike {α β : Type} (related : α → β → Prop) :
    Except TimeError α → Except TimeError β → Prop
  | ok {a : α} {b : β} (same : related a b) : ReadAlike related (.ok a) (.ok b)
  | error (e : TimeError) : ReadAlike related (.error e) (.error e)

namespace ReadAlike

variable {α β γ δ : Type} {related : α → β → Prop} {relatedRest : γ → δ → Prop}

theorem bind {left : Except TimeError α} {right : Except TimeError β}
    {leftNext : α → Except TimeError γ} {rightNext : β → Except TimeError δ}
    (first : ReadAlike related left right)
    (rest : ∀ a b, related a b → ReadAlike relatedRest (leftNext a) (rightNext b)) :
    ReadAlike relatedRest (left >>= leftNext) (right >>= rightNext) := by
  cases first with
  | ok same => exact rest _ _ same
  | error e => exact .error e

theorem refl (result : Except TimeError α) : ReadAlike Eq result result := by
  cases result with
  | ok a => exact .ok rfl
  | error e => exact .error e

theorem ok_left {left : Except TimeError α} {b : β} (alike : ReadAlike related left (.ok b)) :
    ∃ a, left = .ok a ∧ related a b := by
  cases alike with
  | ok same => exact ⟨_, rfl, same⟩

theorem ok_right {right : Except TimeError β} {a : α} (alike : ReadAlike related (.ok a) right) :
    ∃ b, right = .ok b ∧ related a b := by
  cases alike with
  | ok same => exact ⟨_, rfl, same⟩

theorem eq {left right : Except TimeError α} (alike : ReadAlike Eq left right) : left = right := by
  cases alike with
  | ok same => rw [same]
  | error e => rfl

end ReadAlike

/-! ### Readers -/

namespace Cursor

/-- The cursors are at the same position, in texts that are alike. -/
structure Like (ending : List Char) (short long : Cursor) : Prop where
  position : long.position = short.position
  rest : Text.Like ending short.rest long.rest

/-- The same value, with cursors behind it that are alike. -/
structure LikeBehind {α : Type} (ending : List Char) (short long : α × Cursor) : Prop where
  value : long.1 = short.1
  cursor : short.2.Like ending long.2

variable {α : Type} {ending : List Char} {short long : Cursor} {width : Width} {quantity : Quantity}

theorem Like.advance (like : short.Like ending long) {count : Nat}
    (within : count ≤ short.rest.length) :
    (short.advance count).Like ending (long.advance count) :=
  ⟨congrArg (· + count) like.position, like.rest.drop within⟩

theorem Like.reject {related : α → α → Prop} (like : short.Like ending long) (cause : Cause) :
    ReadAlike related (short.reject cause) (long.reject cause) := by
  unfold Cursor.reject
  rw [like.position]
  exact .error _

theorem Like.mismatch {related : α → α → Prop} (like : short.Like ending long)
    (what : Expectation) : ReadAlike related (short.mismatch what) (long.mismatch what) :=
  like.reject (.expected what)

theorem Like.digits (like : short.Like ending long) :
    ReadAlike (LikeBehind ending) (short.digits width quantity) (long.digits width quantity) := by
  cases width with
  | fixed count =>
    have within := Text.leadingDigits_length_le count short.rest
    simp only [Cursor.digits, like.rest.leadingDigits]
    by_cases full : (Text.leadingDigits count short.rest).length = count
    · simp only [if_pos full]
      exact .ok ⟨rfl, like.advance (full ▸ within)⟩
    · simp only [if_neg full]
      exact (like.advance within).mismatch _
  | greedy =>
    have within : (short.rest.takeWhile Char.isDigit).length ≤ short.rest.length :=
      (List.takeWhile_prefix _).length_le
    simp only [Cursor.digits, like.rest.takeWhile_isDigit]
    by_cases none : (short.rest.takeWhile Char.isDigit).isEmpty = true
    · simp only [if_pos none]
      exact like.mismatch _
    · simp only [if_neg none]
      exact .ok ⟨rfl, like.advance within⟩

theorem Like.numberOf (like : short.Like ending long) (ds : List Char) :
    ReadAlike Eq (short.numberOf width quantity ds) (long.numberOf width quantity ds) := by
  cases width with
  | fixed count => exact .ok rfl
  | greedy =>
    simp only [Cursor.numberOf]
    by_cases fits : (Text.digitsValue ds : Int) ≤ maxNanos
    · simp only [if_pos fits]
      exact .ok rfl
    · simp only [if_neg fits]
      exact like.reject _

theorem Like.number (like : short.Like ending long) :
    ReadAlike (LikeBehind ending) (short.number width quantity) (long.number width quantity) := by
  refine like.digits.bind ?_
  rintro ⟨ds, after⟩ ⟨es, later⟩ ⟨rfl, behind⟩
  refine (like.numberOf es).bind ?_
  rintro n m rfl
  exact .ok ⟨by rw [like.position], behind⟩

theorem Like.year (like : short.Like ending long) (window : YearWindow) :
    ReadAlike (LikeBehind ending) (short.year width window) (long.year width window) := by
  have minus := like.rest.head?_eq_some_iff (c := '-') rfl (by decide)
  simp only [Cursor.year, minus]
  by_cases negative : short.rest.head? = some '-'
  · have start : (short.advance 1).Like ending (long.advance 1) :=
      ⟨congrArg (· + 1) like.position, like.rest.drop_one negative⟩
    simp only [if_pos negative]
    refine start.number.bind ?_
    rintro ⟨read, after⟩ ⟨found, later⟩ ⟨rfl, behind⟩
    exact .ok ⟨by rw [like.position], behind⟩
  · simp only [if_neg negative]
    refine like.number.bind ?_
    rintro ⟨read, after⟩ ⟨found, later⟩ ⟨rfl, behind⟩
    -- The length of the number is told by the positions, which are the same.
    have stop : later.position = after.position := behind.position
    simp only [like.position, stop]
    exact .ok ⟨rfl, behind⟩

theorem Like.hour (like : short.Like ending long) (cycle : HourCycle) :
    ReadAlike (LikeBehind ending) (short.hour cycle width) (long.hour cycle width) := by
  refine like.number.bind ?_
  rintro ⟨read, after⟩ ⟨found, later⟩ ⟨rfl, behind⟩
  simp only
  by_cases inCycle : (cycle.least : Int) ≤ found.value ∧ found.value ≤ cycle.greatest
  · simp only [if_pos inCycle]
    exact .ok ⟨rfl, behind⟩
  · simp only [if_neg inCycle]
    exact like.reject _

theorem Like.weekday (like : short.Like ending long) :
    ReadAlike (Like ending) short.weekday long.weekday := by
  refine like.number.bind ?_
  rintro ⟨read, after⟩ ⟨found, later⟩ ⟨rfl, behind⟩
  simp only
  by_cases inWeek : 1 ≤ found.value ∧ found.value ≤ 7
  · simp only [if_pos inWeek]
    exact .ok behind
  · simp only [if_neg inWeek]
    exact like.reject _

theorem Like.name {index : Locale.NameIndex α} (like : short.Like ending long)
    (wellFormed : index.WellFormed) (barless : ending ≠ [] → index.Barless) (what : Expectation) :
    ReadAlike (LikeBehind ending) (short.name index what) (long.name index what) := by
  simp only [Cursor.name, wellFormed.longest?_like like.rest barless]
  cases longest : index.longest? short.rest with
  | some found =>
    have within := Locale.NameIndex.length_le_of_longest? longest
    exact .ok ⟨by rw [like.position], like.advance within⟩
  | none => exact like.mismatch what

theorem Like.literal {text : String} (like : short.Like [] long)
    (letterless : ∀ c ∈ text.toList, c.isAlpha = false) :
    ReadAlike (Like []) (short.literal text) (long.literal text) := by
  have starts : text.toList.isPrefixOf long.rest = text.toList.isPrefixOf short.rest :=
    like.rest.isPrefixOf_eq letterless
  simp only [Cursor.literal, starts]
  by_cases ahead : text.toList.isPrefixOf short.rest = true
  · have within := (List.isPrefixOf_iff_prefix.mp ahead).length_le
    rw [String.length_toList] at within
    simp only [if_pos ahead]
    exact .ok (like.advance within)
  · simp only [if_neg ahead]
    exact like.mismatch _

theorem Like.zone {context : ReadContext} (like : short.Like ending long)
    (barless : ending ≠ [] → context.zoneNames.Barless) :
    ReadAlike (LikeBehind ending) (short.zone context) (long.zone context) := by
  simp only [Cursor.zone, Zone.OffsetLiteral.read?_like like.rest, like.position,
    context.zoneNames.zoneIndex_like like.rest barless, Zone.startsWithUtc_like like.rest]
  cases literal : Zone.OffsetLiteral.read? short.rest with
  | some offset =>
    exact .ok ⟨rfl, like.advance (Zone.OffsetLiteral.read?_narrow literal).length_le⟩
  | none =>
    cases longest : context.zoneNames.zoneIndex.longest? short.rest with
    | some found =>
      have within := context.zoneNames.length_le_of_zone longest
      refine (ReadAlike.refl _).bind ?_
      rintro timeline other rfl
      exact .ok ⟨rfl, like.advance within⟩
    | none =>
      by_cases utc : Zone.startsWithUtc short.rest = true
      · simp only [if_pos utc]
        exact .ok ⟨rfl, like.advance (Zone.narrow_of_startsWithUtc utc).length_le⟩
      · simp only [if_neg utc]
        exact like.mismatch .zone

end Cursor

/-- An item is read alike from texts that are alike. Fixed texts, which are compared as they are,
have to be without letters, and to have nothing behind the text. -/
theorem readItem_like {layout : Layout} {context : ReadContext} {ending : List Char}
    {short long : Cursor} (like : short.Like ending long)
    (barless : ending ≠ [] → context.Barless) {item : Item}
    (literal : ∀ index, item = .literal index →
      ending = [] ∧ ∀ c ∈ (layout.literal index).toList, c.isAlpha = false)
    (fields : Fields) :
    ReadAlike (Cursor.LikeBehind ending) (layout.readItem context (fields, short) item)
      (layout.readItem context (fields, long) item) := by
  cases item with
  | era =>
    refine (like.name (Locale.NameIndex.wellFormed_ofList _)
      (fun more => (barless more).names.eraIndex) .era).bind ?_
    rintro ⟨found, after⟩ ⟨_, later⟩ ⟨rfl, behind⟩
    exact .ok ⟨rfl, behind⟩
  | year width =>
    refine (like.year context.window).bind ?_
    rintro ⟨found, after⟩ ⟨_, later⟩ ⟨rfl, behind⟩
    exact .ok ⟨rfl, behind⟩
  | number field width =>
    refine like.number.bind ?_
    rintro ⟨found, after⟩ ⟨_, later⟩ ⟨rfl, behind⟩
    exact .ok ⟨rfl, behind⟩
  | hour cycle width =>
    refine (like.hour cycle).bind ?_
    rintro ⟨found, after⟩ ⟨_, later⟩ ⟨rfl, behind⟩
    exact .ok ⟨rfl, behind⟩
  | monthName style =>
    refine (like.name (Locale.NameIndex.wellFormed_ofList _)
      (fun more => (barless more).names.monthIndex) .monthName).bind ?_
    rintro ⟨found, after⟩ ⟨_, later⟩ ⟨rfl, behind⟩
    exact .ok ⟨rfl, behind⟩
  | weekdayName style =>
    refine (like.name (Locale.NameIndex.wellFormed_ofList _)
      (fun more => (barless more).names.weekdayIndex) .weekdayName).bind ?_
    rintro ⟨found, after⟩ ⟨_, later⟩ ⟨rfl, behind⟩
    exact .ok ⟨rfl, behind⟩
  | weekday =>
    refine like.weekday.bind ?_
    exact fun after later behind => .ok ⟨rfl, behind⟩
  | halfOfDay =>
    refine (like.name (Locale.NameIndex.wellFormed_ofList _)
      (fun more => (barless more).names.halfOfDayIndex) .halfOfDay).bind ?_
    rintro ⟨found, after⟩ ⟨_, later⟩ ⟨rfl, behind⟩
    exact .ok ⟨rfl, behind⟩
  | zone =>
    refine (like.zone fun more => (barless more).zoneNames).bind ?_
    rintro ⟨found, after⟩ ⟨_, later⟩ ⟨rfl, behind⟩
    exact .ok ⟨rfl, behind⟩
  | literal index =>
    obtain ⟨rfl, letterless⟩ := literal index rfl
    refine (like.literal letterless).bind ?_
    exact fun after later behind => .ok ⟨rfl, behind⟩

end CivilTime
