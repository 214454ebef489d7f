import CivilTime.Text.Fold

/-!
# Bytes of a text

The UTF-8 form of a text. The bytes of ASCII letters stand for these letters alone, so case can be
disregarded byte by byte.
-/
namespace CivilTime.Text

/-- The bytes of the UTF-8 form. -/
def utf8 (cs : List Char) : List UInt8 := cs.flatMap String.utf8EncodeChar

/-- The byte, where it is that of an ASCII capital, made that of the small letter. -/
def foldByte (b : UInt8) : UInt8 := if 65 ≤ b.toNat ∧ b.toNat ≤ 90 then b + 32 else b

/-- The digit that a byte stands for. -/
def digit? (b : UInt8) : Option Nat :=
  if 48 ≤ b.toNat ∧ b.toNat ≤ 57 then some (b.toNat - 48) else none

end CivilTime.Text
