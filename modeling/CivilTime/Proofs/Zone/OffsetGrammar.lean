import CivilTime.Proofs.Layout.Lookahead
import CivilTime.Proofs.Text.Bytes

/-!
# The grammar of offset literals

Apart from a `Z`, an offset literal is a name, a sign, hours, a colon and minutes, of which only the
hours have to be there. Hours and minutes take all the digits they can, so what follows a literal
changes it only by a digit or a colon at its start.
-/
namespace CivilTime

namespace Text

/-- Digits are all that is taken if they fill the limit or no other digit follows. -/
theorem leadingDigits_eq {limit : Nat} {ds rest : List Char} (inside : ∀ c ∈ ds, c.isDigit = true)
    (short : ds.length ≤ limit)
    (longest : ds.length < limit → ∀ c ∈ rest.head?, c.isDigit = false) :
    leadingDigits limit (ds ++ rest) = ds := by
  rcases Nat.lt_or_eq_of_le short with fewer | full
  · rw [leadingDigits, List.take_append, List.take_of_length_le short]
    apply takeWhile_isDigit_append inside
    intro c next
    rw [List.head?_take, if_neg (by omega)] at next
    exact longest fewer c next
  · rw [← full]
    exact leadingDigits_append inside rest

/-- Where fewer digits than the limit are taken, no digit follows them. -/
theorem exists_behind_leadingDigits (limit : Nat) (cs : List Char) :
    ∃ rest, cs = leadingDigits limit cs ++ rest ∧
      ((leadingDigits limit cs).length < limit → ∀ c ∈ rest.head?, c.isDigit = false) := by
  obtain ⟨rest, whole⟩ := leadingDigits_starts limit cs
  refine ⟨rest, whole.symm, fun short c next => ?_⟩
  have behind : rest = cs.dropWhile Char.isDigit := by
    rw [leadingDigits_of_short short] at whole
    nth_rewrite 2 [← List.takeWhile_append_dropWhile (p := Char.isDigit) (l := cs)] at whole
    exact List.append_cancel_left whole
  have stops := List.head?_dropWhile_not Char.isDigit cs
  rw [← behind, Option.mem_def.mp next] at stops
  exact stops

end Text

namespace Zone

/-- The names that can stand in front of a sign. -/
def IsUtcName (name : List Char) : Prop :=
  Text.fold name = ['u', 't', 'c'] ∨ Text.fold name = ['g', 'm', 't']

theorem IsUtcName.length_eq {name : List Char} (named : IsUtcName name) : name.length = 3 :=
  (length_of_isUtc (isUtc_iff.mpr named)).1

theorem IsUtcName.byteLength_eq {name : List Char} (named : IsUtcName name) :
    Text.byteLength name = 3 :=
  (length_of_isUtc (isUtc_iff.mpr named)).2

theorem startsWithUtc_iff_isUtcName (cs : List Char) :
    startsWithUtc cs = true ↔ IsUtcName (cs.take 3) := isUtc_iff

namespace OffsetLiteral

/-! ### The parts of a literal -/

/-- Two digits, with or without a colon in front. -/
structure AreMinutes (colon ds : List Char) : Prop where
  colon : colon = [] ∨ colon = [':']
  two : ds.length = 2
  digits : ∀ c ∈ ds, c.isDigit = true

/-- The minutes at the start of a text, and what follows them. They are missing only if no two
digits are there. -/
def MinutesOf (colon ds rest : List Char) : Prop :=
  AreMinutes colon ds ∨
    colon = [] ∧ ds = [] ∧ ∀ colon ds after, rest = colon ++ ds ++ after → ¬ AreMinutes colon ds

/-- The hours and minutes at the start of a text, and what follows them. -/
structure ClockOf (hours colon ds rest : List Char) : Prop where
  given : hours ≠ []
  digits : ∀ c ∈ hours, c.isDigit = true
  short : hours.length ≤ 2
  longest : hours.length < 2 → ∀ c ∈ (colon ++ ds ++ rest).head?, c.isDigit = false
  minutes : MinutesOf colon ds rest

/-- Without a sign, hours are ahead of UTC. -/
def direction (sign : List Char) : Int := if sign = ['-'] then -1 else 1

/-- No literal goes on with the text. -/
def EndsLiteral (rest : List Char) : Prop := ∀ c ∈ rest.head?, c.isDigit = false ∧ c ≠ ':'

/-- The parts of a literal, and what follows it. -/
structure Parts where
  name : List Char
  sign : List Char
  hours : List Char
  colon : List Char
  minutes : List Char
  rest : List Char

namespace Parts

/-- What the literal is read from. -/
def read (parts : Parts) : List Char :=
  parts.name ++ parts.sign ++ (parts.hours ++ (parts.colon ++ parts.minutes))

/-- The hours and minutes with the sign, in nanoseconds. -/
def offset (parts : Parts) : Int :=
  direction parts.sign
    * (Text.digitsValue parts.hours * nsPerHour + Text.digitsValue parts.minutes * nsPerMinute)

/-- The parts are those of the literal at the start of a text. A name needs a sign behind it. -/
structure Divide (parts : Parts) (cs : List Char) : Prop where
  whole : cs = parts.read ++ parts.rest
  name : parts.name = [] ∨ IsUtcName parts.name ∧ parts.sign ≠ []
  sign : parts.sign = [] ∨ parts.sign = ['+'] ∨ parts.sign = ['-']
  clock : ClockOf parts.hours parts.colon parts.minutes parts.rest

/-- Hours of a day, and minutes of an hour. -/
def InRange (parts : Parts) : Prop :=
  Text.digitsValue parts.hours ≤ 23 ∧ Text.digitsValue parts.minutes ≤ 59

instance (parts : Parts) : Decidable parts.InRange :=
  inferInstanceAs (Decidable (_ ∧ _))

end Parts

/-- The literals that a text starts with. -/
inductive StartsWith (cs : List Char) : OffsetLiteral → Prop
  | zulu (first : cs.head? = some 'Z' ∨ cs.head? = some 'z') : StartsWith cs ⟨0, 1⟩
  | clock (parts : Parts) (divide : parts.Divide cs) (fits : parts.InRange) :
      StartsWith cs ⟨parts.offset, Text.byteLength parts.read⟩

/-! ### Minutes and hours -/

theorem exists_minutesOf (cs : List Char) :
    ∃ colon ds rest, cs = colon ++ ds ++ rest ∧ MinutesOf colon ds rest := by
  by_cases given : ∃ colon ds rest, cs = colon ++ ds ++ rest ∧ AreMinutes colon ds
  · obtain ⟨colon, ds, rest, whole, two⟩ := given
    exact ⟨colon, ds, rest, whole, .inl two⟩
  · refine ⟨[], [], cs, rfl, .inr ⟨rfl, rfl, fun colon ds after whole two => ?_⟩⟩
    exact given ⟨colon, ds, after, whole, two⟩

/-- A digit is no colon, and so a colon is skipped only in front of the digits. -/
theorem AreMinutes.skips {colon ds : List Char} (two : AreMinutes colon ds) (rest : List Char) :
    (if (colon ++ ds ++ rest).head? = some ':' then 1 else 0) = colon.length := by
  obtain ⟨d, ds, rfl⟩ := List.exists_cons_of_length_eq_add_one two.two
  rcases two.colon with rfl | rfl
  · have other : d ≠ ':' := by
      rintro rfl
      exact absurd (two.digits _ List.mem_cons_self) (by decide)
    simp [other]
  · rfl

theorem minutes_of_areMinutes {colon ds : List Char} (two : AreMinutes colon ds)
    (rest : List Char) :
    minutes (colon ++ ds ++ rest) = (Text.digitsValue ds, colon.length + 2) := by
  have taken : Text.leadingDigits 2 (ds ++ rest) = ds := by
    rw [← two.two]
    exact Text.leadingDigits_append two.digits rest
  have skipped : (colon ++ ds ++ rest).drop colon.length = ds ++ rest := by
    rw [List.append_assoc, List.drop_left]
  simp only [minutes, two.skips, skipped, taken, two.two, if_pos]

theorem minutes_of_missing {cs : List Char}
    (missing : ∀ colon ds after, cs = colon ++ ds ++ after → ¬ AreMinutes colon ds) :
    minutes cs = (0, 0) := by
  -- Two digits at the start, or behind a colon there, would be minutes.
  have short {colon rest : List Char} (isColon : colon = [] ∨ colon = [':'])
      (whole : cs = colon ++ rest) : (Text.leadingDigits 2 rest).length ≠ 2 := by
    intro two
    obtain ⟨after, behind, -⟩ := Text.exists_behind_leadingDigits 2 rest
    refine missing colon (Text.leadingDigits 2 rest) after ?_ ⟨isColon, two, ?_⟩
    · rw [List.append_assoc, ← behind, whole]
    · exact fun _ => List.mem_takeWhile_imp
  simp only [minutes]
  by_cases divided : cs.head? = some ':'
  · obtain ⟨rest, rfl⟩ := List.head?_eq_some_iff.mp divided
    exact if_neg (short (.inr rfl) rfl)
  · rw [if_neg divided, List.drop_zero]
    exact if_neg (short (.inl rfl) rfl)

theorem minutes_eq {colon ds rest : List Char} (parts : MinutesOf colon ds rest) :
    minutes (colon ++ ds ++ rest) = (Text.digitsValue ds, (colon ++ ds).length) := by
  rcases parts with two | ⟨rfl, rfl, missing⟩
  · rw [minutes_of_areMinutes two, List.length_append, two.two]
  · exact minutes_of_missing missing

theorem MinutesOf.byteLength_eq {colon ds rest : List Char} (parts : MinutesOf colon ds rest) :
    Text.byteLength (colon ++ ds) = (colon ++ ds).length := by
  rcases parts with two | ⟨rfl, rfl, -⟩
  · have digits := (Text.isAscii_of_isDigit two.digits).byteLength_eq
    rw [Text.byteLength_append, digits, List.length_append]
    rcases two.colon with rfl | rfl <;> rfl
  · rfl

/-- A text that starts with minutes goes on with a literal. -/
theorem AreMinutes.not_endsLiteral {colon ds : List Char} (two : AreMinutes colon ds)
    (after : List Char) : ¬ EndsLiteral (colon ++ ds ++ after) := by
  intro ends
  rcases two.colon with rfl | rfl
  · obtain ⟨d, ds, rfl⟩ := List.exists_cons_of_length_eq_add_one two.two
    have digit := two.digits d List.mem_cons_self
    rw [(ends d rfl).1] at digit
    cases digit
  · exact (ends ':' rfl).2 rfl

theorem MinutesOf.congr_rest {colon ds rest other : List Char} (parts : MinutesOf colon ds rest)
    (ends : EndsLiteral other) : MinutesOf colon ds other := by
  refine parts.imp_right fun ⟨colon, ds, _⟩ => ⟨colon, ds, fun colon ds after whole two => ?_⟩
  exact two.not_endsLiteral after (whole ▸ ends)

theorem ClockOf.congr_rest {hours colon ds rest other : List Char}
    (clock : ClockOf hours colon ds rest) (ends : EndsLiteral other) :
    ClockOf hours colon ds other := by
  refine { clock with longest := fun fewer c next => ?_, minutes := clock.minutes.congr_rest ends }
  by_cases missing : colon ++ ds = []
  · rw [missing] at next
    exact (ends c next).1
  · apply clock.longest fewer c
    rwa [List.head?_append_of_ne_nil _ missing] at next ⊢

theorem exists_clockOf {cs : List Char} (given : Text.leadingDigits 2 cs ≠ []) :
    ∃ hours colon ds rest, cs = hours ++ (colon ++ ds ++ rest) ∧ ClockOf hours colon ds rest := by
  obtain ⟨behind, whole, longest⟩ := Text.exists_behind_leadingDigits 2 cs
  obtain ⟨colon, ds, rest, rfl, minutes⟩ := exists_minutesOf behind
  refine ⟨Text.leadingDigits 2 cs, colon, ds, rest, whole, given, ?_, ?_, longest, minutes⟩
  · exact fun _ => List.mem_takeWhile_imp
  · exact Nat.le_trans (List.takeWhile_prefix _).length_le (List.length_take_le 2 cs)

theorem magnitude_eq {hours colon ds rest : List Char} (clock : ClockOf hours colon ds rest)
    (sign : Int) (read : Nat) :
    magnitude sign read (hours ++ (colon ++ ds ++ rest))
      = if Text.digitsValue hours ≤ 23 ∧ Text.digitsValue ds ≤ 59 then
          some ⟨sign * (Text.digitsValue hours * nsPerHour + Text.digitsValue ds * nsPerMinute),
            read + (hours ++ (colon ++ ds)).length⟩
        else none := by
  have taken := Text.leadingDigits_eq clock.digits clock.short clock.longest
  have given : hours.isEmpty = false := List.isEmpty_eq_false_iff.mpr clock.given
  simp only [magnitude, taken, List.drop_left, minutes_eq clock.minutes, given, Bool.false_eq_true,
    false_or, List.length_append, Nat.add_assoc]
  by_cases fits : Text.digitsValue hours ≤ 23 ∧ Text.digitsValue ds ≤ 59
  · rw [if_pos fits, if_neg (by omega)]
  · rw [if_neg fits, if_pos (by omega)]

/-- What is read without hours is no literal. -/
theorem leadingDigits_ne_nil_of_magnitude {sign : Int} {read : Nat} {cs : List Char}
    {literal : OffsetLiteral} (found : magnitude sign read cs = some literal) :
    Text.leadingDigits 2 cs ≠ [] := by
  intro missing
  simp [magnitude, missing] at found

/-! ### Names and signs -/

/-- A name stands in front of a sign. -/
theorem read?_name {name : List Char} (named : IsUtcName name) (cs : List Char) :
    read? (name ++ cs) = signed? 3 cs := by
  have behind : (name ++ cs).drop 3 = cs := List.drop_left' named.length_eq
  have starts : startsWithUtc (name ++ cs) = true := by
    rw [startsWithUtc_iff_isUtcName, List.take_left' named.length_eq]
    exact named
  have other : ¬ ((name ++ cs).head? = some 'Z' ∨ (name ++ cs).head? = some 'z') := by
    intro zulu
    obtain ⟨c, name, rfl⟩ := List.exists_cons_of_length_eq_add_one named.length_eq
    simp only [List.cons_append, List.head?_cons, Option.some.injEq, ← Text.toLower_eq_z_iff]
      at zulu
    rcases named with utc | gmt
    · rw [Text.fold_cons, zulu] at utc
      cases utc
    · rw [Text.fold_cons, zulu] at gmt
      cases gmt
  rw [read?, if_neg other, if_pos starts, behind]

/-- Without a letter in front, a literal starts with its sign or its hours. -/
theorem read?_plain {c : Char} (plain : c.isAlpha = false) (cs : List Char) :
    read? (c :: cs)
      = if c = '+' ∨ c = '-' then signed? 0 (c :: cs) else magnitude 1 0 (c :: cs) := by
  have other {d : Char} (letter : d.isAlpha = true) (small : d.toLower = d) : c.toLower ≠ d := by
    intro same
    have equal : d = c := Text.eq_of_toLower_eq (small.trans same.symm) plain
    rw [equal, plain] at letter
    cases letter
  have zulu : ¬ ((c :: cs).head? = some 'Z' ∨ (c :: cs).head? = some 'z') := by
    simp only [List.head?_cons, Option.some.injEq, ← Text.toLower_eq_z_iff]
    exact other rfl rfl
  have unnamed : ¬ startsWithUtc (c :: cs) = true := by
    rw [startsWithUtc_iff_isUtcName]
    rintro (utc | gmt)
    · exact other rfl rfl (List.cons.inj utc).1
    · exact other rfl rfl (List.cons.inj gmt).1
  rw [read?, if_neg zulu, if_neg unnamed]
  simp only [List.head?_cons, Option.some.injEq]

theorem signed?_sign {sign : List Char} (signed : sign = ['+'] ∨ sign = ['-']) (read : Nat)
    (cs : List Char) :
    signed? read (sign ++ cs) = magnitude (direction sign) (read + 1) cs := by
  rcases signed with rfl | rfl <;> rfl

/-- Behind the name and the sign the hours are read. -/
theorem read?_behind {name sign cs : List Char} (named : name = [] ∨ IsUtcName name ∧ sign ≠ [])
    (signed : sign = [] ∨ sign = ['+'] ∨ sign = ['-']) (hours : ∃ c ∈ cs.head?, c.isDigit = true) :
    read? (name ++ sign ++ cs) = magnitude (direction sign) (name ++ sign).length cs := by
  rw [List.append_assoc]
  rcases signed with rfl | signed
  · rcases named with rfl | ⟨-, missing⟩
    · obtain ⟨c, first, digit⟩ := hours
      obtain ⟨rest, rfl⟩ := List.head?_eq_some_iff.mp first
      have unsigned : ¬ (c = '+' ∨ c = '-') := by
        rintro (rfl | rfl) <;> cases digit
      exact (read?_plain (Text.isAlpha_of_isDigit digit) rest).trans (if_neg unsigned)
    · exact absurd rfl missing
  · rcases named with rfl | ⟨named, -⟩
    · have read : read? (sign ++ cs) = signed? 0 (sign ++ cs) := by
        rcases signed with rfl | rfl
        · exact (read?_plain rfl cs).trans (if_pos (.inl rfl))
        · exact (read?_plain rfl cs).trans (if_pos (.inr rfl))
      rw [List.nil_append, List.nil_append, read, signed?_sign signed]
      rcases signed with rfl | rfl <;> rfl
    · rw [read?_name named, signed?_sign signed, List.length_append, named.length_eq]
      rcases signed with rfl | rfl <;> rfl

namespace Parts.Divide

variable {parts : Parts} {cs : List Char}

/-- The literal that the parts stand for, if they are in range. -/
theorem read?_eq (divide : parts.Divide cs) :
    read? cs = if parts.InRange then some ⟨parts.offset, parts.read.length⟩ else none := by
  have hours : ∃ c ∈ (parts.hours ++ (parts.colon ++ parts.minutes ++ parts.rest)).head?,
      c.isDigit = true := by
    obtain ⟨c, hours, starts⟩ := List.exists_cons_of_ne_nil divide.clock.given
    rw [starts]
    exact ⟨c, rfl, divide.clock.digits c (starts ▸ List.mem_cons_self)⟩
  have whole : cs = parts.name ++ parts.sign
      ++ (parts.hours ++ (parts.colon ++ parts.minutes ++ parts.rest)) := by
    simp only [divide.whole, Parts.read, List.append_assoc]
  rw [whole, read?_behind divide.name divide.sign hours, magnitude_eq divide.clock,
    ← List.length_append]
  rfl

/-- All parts are of one byte a character. -/
theorem byteLength_read (divide : parts.Divide cs) :
    Text.byteLength parts.read = parts.read.length := by
  have name : Text.byteLength parts.name = parts.name.length := by
    rcases divide.name with missing | ⟨named, -⟩
    · rw [missing]
      rfl
    · exact named.byteLength_eq.trans named.length_eq.symm
  have sign : Text.byteLength parts.sign = parts.sign.length := by
    rcases divide.sign with sign | sign | sign
    all_goals
      rw [sign]
      rfl
  have hours := (Text.isAscii_of_isDigit divide.clock.digits).byteLength_eq
  have minutes := divide.clock.minutes.byteLength_eq
  rw [Parts.read, Text.byteLength_append, Text.byteLength_append, Text.byteLength_append, name, sign,
    hours, minutes]
  simp only [List.length_append]

/-- Another text can follow, if it does not go on with the literal. -/
theorem congr_rest (divide : parts.Divide cs) {rest : List Char} (ends : EndsLiteral rest) :
    { parts with rest := rest }.Divide (parts.read ++ rest) :=
  ⟨rfl, divide.name, divide.sign, divide.clock.congr_rest ends⟩

end Parts.Divide

/-! ### Texts that start with a literal -/

theorem exists_divide_behind {name sign cs : List Char}
    (named : name = [] ∨ IsUtcName name ∧ sign ≠ [])
    (signed : sign = [] ∨ sign = ['+'] ∨ sign = ['-']) (given : Text.leadingDigits 2 cs ≠ []) :
    ∃ parts : Parts, parts.Divide (name ++ sign ++ cs) := by
  obtain ⟨hours, colon, ds, rest, rfl, clock⟩ := exists_clockOf given
  refine ⟨⟨name, sign, hours, colon, ds, rest⟩, ?_, named, signed, clock⟩
  simp only [Parts.read, List.append_assoc]

theorem exists_sign {read : Nat} {cs : List Char} {literal : OffsetLiteral}
    (found : signed? read cs = some literal) :
    ∃ sign rest, cs = sign ++ rest ∧ (sign = ['+'] ∨ sign = ['-']) ∧
      Text.leadingDigits 2 rest ≠ [] := by
  unfold signed? at found
  split at found
  next rest => exact ⟨['+'], rest, rfl, .inl rfl, leadingDigits_ne_nil_of_magnitude found⟩
  next rest => exact ⟨['-'], rest, rfl, .inr rfl, leadingDigits_ne_nil_of_magnitude found⟩
  next => cases found

/-- A literal other than `Z` is read by its parts. -/
theorem exists_divide {cs : List Char} {literal : OffsetLiteral} (found : read? cs = some literal)
    (other : ¬ (cs.head? = some 'Z' ∨ cs.head? = some 'z')) : ∃ parts : Parts, parts.Divide cs := by
  rw [read?, if_neg other] at found
  split at found
  next starts =>
    have named := (startsWithUtc_iff_isUtcName cs).mp starts
    obtain ⟨sign, rest, behind, signed, hours⟩ := exists_sign found
    rw [← List.take_append_drop 3 cs, behind, ← List.append_assoc]
    refine exists_divide_behind (.inr ⟨named, ?_⟩) (.inr signed) hours
    rcases signed with rfl | rfl <;> exact List.cons_ne_nil _ _
  next =>
    split at found
    next =>
      obtain ⟨sign, rest, rfl, signed, hours⟩ := exists_sign found
      exact @exists_divide_behind [] sign rest (.inl rfl) (.inr signed) hours
    next => exact exists_divide_behind (.inl rfl) (.inl rfl) (leadingDigits_ne_nil_of_magnitude found)

theorem StartsWith.read?_eq {cs : List Char} {literal : OffsetLiteral}
    (starts : StartsWith cs literal) : read? cs = some literal := by
  cases starts with
  | zulu first => exact if_pos first
  | clock parts divide fits => rw [divide.read?_eq, if_pos fits, divide.byteLength_read]

theorem startsWith_of_read? {cs : List Char} {literal : OffsetLiteral}
    (found : read? cs = some literal) : StartsWith cs literal := by
  by_cases zulu : cs.head? = some 'Z' ∨ cs.head? = some 'z'
  · rw [read?, if_pos zulu] at found
    cases found
    exact .zulu zulu
  · obtain ⟨parts, divide⟩ := exists_divide found zulu
    rw [divide.read?_eq, ← divide.byteLength_read] at found
    split at found
    next fits =>
      cases found
      exact .clock parts divide fits
    next => cases found

/-- What is read is a text of its own, which can be followed by any other that does not go on with
it. -/
theorem StartsWith.exists_split {cs : List Char} {literal : OffsetLiteral}
    (starts : StartsWith cs literal) :
    ∃ before after, Text.splitAtByte literal.length cs = some (before, after) ∧
      ∀ rest, EndsLiteral rest → StartsWith (before ++ rest) literal := by
  cases starts with
  | zulu first =>
    cases cs with
    | nil => simp at first
    | cons z after =>
      have size : Text.byteLength [z] = 1 := by
        rcases first with upper | lower
        · cases upper; rfl
        · cases lower; rfl
      refine ⟨[z], after, ?_, fun rest _ => .zulu first⟩
      rw [← size]
      exact Text.splitAtByte_append [z] after
  | clock parts divide fits =>
    refine ⟨parts.read, parts.rest, ?_, fun rest ends => ?_⟩
    · rw [divide.whole]
      exact Text.splitAtByte_append parts.read parts.rest
    · exact .clock { parts with rest := rest } (divide.congr_rest ends) fits

/-- The literal that is read is the one that the text starts with, and its length in bytes ends in
front of a character. Up to there the text is read again as the same literal, in front of any text
that does not go on with it. -/
theorem read?_by_grammar (cs : List Char) :
    (∀ literal, read? cs = some literal ↔ StartsWith cs literal) ∧
    ∀ literal, read? cs = some literal →
      ∃ before after, Text.splitAtByte literal.length cs = some (before, after) ∧
        ∀ rest, EndsLiteral rest → read? (before ++ rest) = some literal := by
  refine ⟨fun literal => ⟨startsWith_of_read?, StartsWith.read?_eq⟩, fun literal found => ?_⟩
  obtain ⟨before, after, split, again⟩ := (startsWith_of_read? found).exists_split
  exact ⟨before, after, split, fun rest ends => (again rest ends).read?_eq⟩

/-- A single digit of hours is followed by two of minutes, and those by a letter of two bytes. -/
theorem read?_half_past_nine :
    let spelled := ['g', 'M', 't', '-', '9', ':', '3', '0']
    let literal : OffsetLiteral := ⟨-(9 * nsPerHour + 30 * nsPerMinute), 8⟩
    StartsWith (spelled ++ ['é', '1']) literal ∧ read? (spelled ++ ['é', '1']) = some literal ∧
      EndsLiteral ['+'] ∧ read? (spelled ++ ['+']) = some literal := by
  intro spelled literal
  let parts : Parts := ⟨['g', 'M', 't'], ['-'], ['9'], [':'], ['3', '0'], ['é', '1']⟩
  have divide : parts.Divide (spelled ++ ['é', '1']) := by
    refine ⟨rfl, .inr ⟨.inr (by decide), by decide⟩, .inr (.inr rfl), ?_⟩
    have digits : AreMinutes [':'] ['3', '0'] := ⟨.inr rfl, rfl, List.all_eq_true.mp rfl⟩
    exact ⟨by decide, List.all_eq_true.mp rfl, by decide, by simp [parts], .inl digits⟩
  have starts : StartsWith (spelled ++ ['é', '1']) literal := by
    rw [show literal = ⟨parts.offset, Text.byteLength parts.read⟩ by decide]
    exact .clock parts divide (by decide)
  obtain ⟨grammar, again⟩ := read?_by_grammar (spelled ++ ['é', '1'])
  have found := (grammar literal).mpr starts
  obtain ⟨before, after, split, same⟩ := again literal found
  have front : before = spelled :=
    congrArg Prod.fst (Option.some.inj (split.symm.trans (Text.splitAtByte_append spelled _)))
  have ends : EndsLiteral ['+'] := by
    rintro c ⟨rfl⟩
    exact ⟨rfl, by decide⟩
  exact ⟨starts, found, ends, front ▸ same ['+'] ends⟩

end OffsetLiteral
end Zone
end CivilTime
