import CivilTime.Layout.Basic

/-!
# Patterns

A pattern describes a layout in one line. A run of one field letter is a field, whose form depends
on the length of the run; everything else is fixed text. Text between single quotes is fixed
text too, and two quotes in a row are a quote, inside and outside of quoted text.

Reading a pattern has three steps: quotes are resolved into marks, runs of marks become tokens, and
tokens become items, fixed texts being numbered in order of first use.
-/
namespace CivilTime

namespace Pattern

def fieldLetters : List Char :=
  ['G', 'y', 'M', 'd', 'E', 'u', 'a', 'H', 'k', 'K', 'h', 'm', 's', 'S', 'U', 'N', 'z', 'Z', 'x',
   'X']

/-- A character of a pattern, its role decided. -/
inductive Mark where
  | letter (c : Char)
  | text (c : Char)
  deriving DecidableEq, Repr

/-- The role of a character other than a quote. -/
def markOf (quoted : Bool) (c : Char) : Mark :=
  if !quoted && fieldLetters.contains c then .letter c else .text c

/-- The marks of a pattern from the character `position` on. `opened` is the position of the quote
that is open, and the error that of one that is never closed. -/
def marks (opened : Option Nat) (position : Nat) : List Char → Except Nat (List Mark)
  | [] =>
    match opened with
    | none => .ok []
    | some start => .error start
  | '\x27' :: '\x27' :: cs =>
    -- Two quotes in a row are text, and neither open nor close anything.
    (marks opened (position + 2) cs).map (.text '\x27' :: ·)
  | '\x27' :: cs =>
    marks (if opened.isSome then none else some position) (position + 1) cs
  | c :: cs =>
    (marks opened (position + 1) cs).map (markOf opened.isSome c :: ·)

/-- A field, or fixed text between fields. -/
inductive Token where
  | field (letter : Char) (count : Nat)
  | text (cs : List Char)
  deriving DecidableEq, Repr

/-- Puts a mark in front of tokens, joining it with the first one where they belong together. -/
def Token.cons : Mark → List Token → List Token
  | .letter c, .field d count :: ts =>
    if c = d then .field d (count + 1) :: ts else .field c 1 :: .field d count :: ts
  | .letter c, ts => .field c 1 :: ts
  | .text c, .text cs :: ts => .text (c :: cs) :: ts
  | .text c, ts => .text [c] :: ts

def tokens (marks : List Mark) : List Token := marks.foldr Token.cons []

/-- Whether a field shows digits only. -/
def isNumeric (letter : Char) (count : Nat) : Bool :=
  -- A longer run of this letter shows the name of the month.
  if letter = 'M' then
    count ≤ 2
  else
    ['y', 'd', 'u', 'H', 'k', 'K', 'h', 'm', 's', 'S', 'U', 'N'].contains letter

/-- Whether the tokens start with a field that shows digits only. -/
def startsNumeric : List Token → Bool
  | .field letter count :: _ => isNumeric letter count
  | _ => false

/-- One letter is greedy unless digits follow, more give the number of digits, up to nine. -/
def widthOf (count : Nat) (digitsFollow : Bool) : Width :=
  if count = 1 then (if digitsFollow then .fixed 1 else .greedy) else .fixed (min count 9)

/-- Two letters are the two-digit year, and three are greedy. -/
def yearWidth (count : Nat) (digitsFollow : Bool) : Width :=
  match count with
  | 2 => .fixed 2
  | 3 => .greedy
  | _ => widthOf count digitsFollow

/-- Two letters are greedy, and more are three digits. -/
def fractionWidth (count : Nat) (digitsFollow : Bool) : Width :=
  match count with
  | 1 => widthOf 1 digitsFollow
  | 2 => .greedy
  | _ => .fixed 3

/-- Four letters or more give the long name. -/
def styleOf (count : Nat) : Locale.NameStyle := if 4 ≤ count then .long else .short

def fieldItem (letter : Char) (count : Nat) (digitsFollow : Bool) : Item :=
  let width := widthOf count digitsFollow
  match letter with
  | 'G' => .era
  | 'y' => .year (yearWidth count digitsFollow)
  | 'M' => if 3 ≤ count then .monthName (styleOf count) else .number .month width
  | 'd' => .number .day width
  | 'E' => .weekdayName (styleOf count)
  | 'u' => .weekday
  | 'a' => .halfOfDay
  | 'H' => .hour .from0To23 width
  | 'k' => .hour .from1To24 width
  | 'K' => .hour .from0To11 width
  | 'h' => .hour .from1To12 width
  | 'm' => .number .minute width
  | 's' => .number .second width
  | 'S' => .number .millisecond (fractionWidth count digitsFollow)
  | 'U' => .number .microsecond (fractionWidth count digitsFollow)
  | 'N' => .number .nanosecond (fractionWidth count digitsFollow)
  | _ => .zone

/-- The place of a text in the table, which gets it at its end if it is new. -/
def intern (literals : List String) (text : String) : Nat × List String :=
  let index := literals.idxOf text
  if index < literals.length then (index, literals) else (literals.length, literals ++ [text])

/-- The items of the tokens, and the table after them. -/
def itemsFrom (literals : List String) : List Token → Except TimeError (List Item × List String)
  | [] => .ok ([], literals)
  | .field letter count :: ts =>
    (itemsFrom literals ts).map fun (items, table) =>
      (fieldItem letter count (startsNumeric ts) :: items, table)
  | .text cs :: ts =>
    let (index, literals) := intern literals (String.ofList cs)
    if index < Layout.maxLiterals then
      (itemsFrom literals ts).map fun (items, table) => (.literal index :: items, table)
    else
      fail .tooManyTextsInPattern

end Pattern

def Layout.ofPattern (pattern : String) : Except TimeError Layout :=
  match Pattern.marks none 0 pattern.toList with
  | .error start => .error { cause := .unterminatedQuote, position := some start }
  | .ok marks =>
    match Pattern.itemsFrom [] (Pattern.tokens marks) with
    | .error e => .error e
    | .ok (items, literals) => Layout.ofItems items literals

end CivilTime
