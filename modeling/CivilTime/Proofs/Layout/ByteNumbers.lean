import CivilTime.Layout.ByteCursor
import CivilTime.Proofs.Text.Digits

/-!
# Numbers read byte by byte

A number takes up its digits one by one, in 64 bits. Without a check each step keeps the low 64 bits,
and those of the last one are the low 64 bits of the number. With a check at each step the number is
refused exactly if it does not fit, for no step leads back below the one before.
-/
namespace CivilTime.ByteCursor

open Text (utf8 leadingDigits digitsValue digit? digitRun numberFrom)

theorem bmod_step (n d : Nat) :
    ((n : Int).bmod 18446744073709551616 * 10 + d).bmod 18446744073709551616
      = ((10 * n + d : Nat) : Int).bmod 18446744073709551616 := by
  rw [← Int.bmod_add_bmod, Int.bmod_mul_bmod, Int.bmod_add_bmod]
  congr 1
  push_cast
  ring

/-- The loop without a check takes so many digits, if they are there. -/
theorem fixedDigits_eq (n length count : Nat) (bytes : List UInt8) :
    fixedDigits ((n : Int).bmod 18446744073709551616) length count bytes
      = if count ≤ (digitRun bytes).length then
          .ok ((numberFrom n ((digitRun bytes).take count) : Int).bmod 18446744073709551616)
        else .error (length + (digitRun bytes).length) := by
  -- The bits kept so far are those of the number `n` of the digits so far, whatever its size.
  induction count generalizing n length bytes with
  | zero => simp [fixedDigits]
  | succ count ih =>
    cases bytes with
    | nil => simp [fixedDigits, digitRun]
    | cons byte bytes =>
      cases digit : digit? byte with
      | none => simp [fixedDigits, digitRun, digit]
      | some d =>
        simp only [fixedDigits, List.head?_cons, Option.bind_some, digit, List.tail_cons, bmod_step, ih,
          digitRun, List.length_cons, Nat.add_le_add_iff_right, List.take_succ_cons,
          Text.numberFrom_cons]
        congr 2
        omega

/-- The loop with a check takes all digits that come next, if their number fits. -/
theorem greedyDigits_eq {n : Nat} (fits : (n : Int) ≤ maxNanos) (length : Nat) (bytes : List UInt8) :
    greedyDigits n length bytes
      = if (numberFrom n (digitRun bytes) : Int) ≤ maxNanos then
          some ((numberFrom n (digitRun bytes) : Int), length + (digitRun bytes).length)
        else none := by
  -- The digits so far fit, and the loop ends at the first byte that is no digit.
  induction bytes generalizing n length with
  | nil => simp [greedyDigits, digitRun, fits]
  | cons byte bytes ih =>
    cases digit : digit? byte with
    | none => simp [greedyDigits, digitRun, digit, fits]
    | some d =>
      simp only [greedyDigits, digitRun, digit, Text.numberFrom_cons, List.length_cons]
      have next : (n : Int) * 10 + d = ((10 * n + d : Nat) : Int) := by
        push_cast
        ring
      rw [next]
      -- Both checks of a step succeed if the second one does, for nothing is negative here.
      by_cases more : ((10 * n + d : Nat) : Int) ≤ maxNanos
      · have steps : Representable ((n : Int) * 10) ∧ Representable ((10 * n + d : Nat) : Int) := by
          simp only [Representable, minNanos, maxNanos] at more ⊢
          omega
        rw [if_pos steps, ih more, Nat.add_assoc, Nat.add_comm 1]
      -- The number that all digits denote is not below the one that did not fit.
      · have beyond := Text.le_numberFrom (10 * n + d) (digitRun bytes)
        rw [if_neg fun steps => more steps.2.2, if_neg]
        omega

/-! ### Digits of characters -/

theorem fixedDigits_utf8 (count : Nat) (cs : List Char) :
    fixedDigits 0 0 count (utf8 cs)
      = if (leadingDigits count cs).length = count then
          .ok ((digitsValue (leadingDigits count cs) : Int).bmod 18446744073709551616)
        else .error (leadingDigits count cs).length := by
  have taken := fixedDigits_eq 0 0 count (utf8 cs)
  simp only [Nat.cast_zero, Int.zero_bmod, Nat.zero_add, Text.digitRun_utf8, List.length_map,
    ← List.map_take, Text.numberFrom_map] at taken
  rw [taken, Text.leadingDigits_eq_take, List.length_take]
  by_cases full : count ≤ (cs.takeWhile Char.isDigit).length
  · rw [if_pos full, if_pos (Nat.min_eq_left full), digitsValue]
  · have short : min count (cs.takeWhile Char.isDigit).length = (cs.takeWhile Char.isDigit).length :=
      Nat.min_eq_right (Nat.le_of_not_le full)
    rw [if_neg full, short, if_neg (by omega)]

theorem greedyDigits_utf8 (cs : List Char) :
    greedyDigits 0 0 (utf8 cs)
      = if (digitsValue (cs.takeWhile Char.isDigit) : Int) ≤ maxNanos then
          some ((digitsValue (cs.takeWhile Char.isDigit) : Int), (cs.takeWhile Char.isDigit).length)
        else none := by
  have taken := greedyDigits_eq (show ((0 : Nat) : Int) ≤ maxNanos by decide) 0 (utf8 cs)
  simp only [Nat.cast_zero, Nat.zero_add, Text.digitRun_utf8, List.length_map,
    Text.numberFrom_map] at taken
  exact taken

end CivilTime.ByteCursor
