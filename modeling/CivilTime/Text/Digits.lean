import CivilTime.Nanos

/-!
# Decimal digits

Numbers written with the ten ASCII digits.
-/
namespace CivilTime.Text

/-- The digits of `n`, with zeros in front up to `width` digits. -/
def digits (n width : Nat) : List Char := (Nat.toDigits 10 n).leftpad width '0'

/-- The number that a run of digits denotes. -/
def digitsValue (ds : List Char) : Nat := Nat.ofDigitChars 10 ds 0

/-- The digits at the start of a text, at most `limit` of them. -/
def leadingDigits (limit : Nat) (cs : List Char) : List Char :=
  (cs.take limit).takeWhile Char.isDigit

theorem digitsValue_replicate_append (k : Nat) (ds : List Char) :
    digitsValue (List.replicate k '0' ++ ds) = digitsValue ds := by
  induction k with
  | zero => rfl
  | succ k ih => simpa [digitsValue, Nat.ofDigitChars, List.replicate_succ] using ih

theorem digitsValue_digits (n width : Nat) : digitsValue (digits n width) = n := by
  rw [digits, List.leftpad, digitsValue_replicate_append, digitsValue,
    Nat.ofDigitChars_toDigits (by decide) (by decide)]

theorem isDigit_of_mem_digits {n width : Nat} {c : Char} (h : c ∈ digits n width) :
    c.isDigit = true := by
  rw [digits, List.leftpad, List.mem_append] at h
  rcases h with h | h
  · rw [List.eq_of_mem_replicate h]; rfl
  · exact Nat.isDigit_of_mem_toDigits (by decide) (by decide) h

end CivilTime.Text
