import CivilTime.Proofs.Text.Bytes

/-!
# Digits at the start of a text

Digits are counted and taken off by characters or by bytes alike, for each is a byte of its own and
no byte of another character is one.
-/
namespace CivilTime.Text

/-! ### Leading digits -/

theorem leadingDigits_starts (limit : Nat) (cs : List Char) : leadingDigits limit cs <+: cs :=
  (List.takeWhile_prefix _).trans (List.take_prefix _ _)

theorem leadingDigits_length_le (limit : Nat) (cs : List Char) :
    (leadingDigits limit cs).length ≤ cs.length := by
  have front := leadingDigits_starts limit cs
  exact front.length_le

theorem isDigit_of_mem_leadingDigits {limit : Nat} {cs : List Char} {c : Char}
    (member : c ∈ leadingDigits limit cs) : c.isDigit = true :=
  List.mem_takeWhile_imp member

/-- They are the first of all digits that come next. -/
theorem leadingDigits_eq_take (limit : Nat) (cs : List Char) :
    leadingDigits limit cs = (cs.takeWhile Char.isDigit).take limit :=
  List.take_takeWhile.symm

/-- Fewer digits than asked for are all there are. -/
theorem leadingDigits_of_short {limit : Nat} {cs : List Char}
    (short : (leadingDigits limit cs).length < limit) :
    leadingDigits limit cs = cs.takeWhile Char.isDigit := by
  rw [leadingDigits_eq_take, List.length_take] at short
  rw [leadingDigits_eq_take, List.take_of_length_le (by omega)]

theorem takeWhile_isDigit_append {ds rest : List Char} (inside : ∀ c ∈ ds, c.isDigit = true)
    (next : ∀ c ∈ rest.head?, c.isDigit = false) : (ds ++ rest).takeWhile Char.isDigit = ds := by
  rw [List.takeWhile_append_of_pos inside]
  cases rest with
  | nil => simp
  | cons c rest => simp [next c rfl]

theorem leadingDigits_append {ds : List Char} (inside : ∀ c ∈ ds, c.isDigit = true)
    (rest : List Char) : leadingDigits ds.length (ds ++ rest) = ds := by
  rw [leadingDigits, List.take_left, List.takeWhile_eq_self_iff]
  exact inside

/-! ### Digits as bytes -/

theorem isDigit_iff_toNat {c : Char} : c.isDigit = true ↔ 48 ≤ c.toNat ∧ c.toNat ≤ 57 :=
  Char.isDigit_iff_toNat

theorem utf8_cons_digit {c : Char} (digit : c.isDigit = true) (cs : List Char) :
    utf8 (c :: cs) = c.toUInt8 :: utf8 cs ∧ digit? c.toUInt8 = some (c.toNat - '0'.toNat) := by
  have bounds := isDigit_iff_toNat.mp digit
  have ascii : c.toNat < 128 := by omega
  constructor
  · rw [utf8, List.flatMap_cons, String.utf8EncodeChar_eq_singleton (utf8Size_of_ascii ascii)]
    rfl
  · rw [digit?, toNat_toUInt8 ascii, if_pos bounds]
    rfl

/-- The first byte of any other character is no digit. -/
theorem head?_utf8_cons {c : Char} (other : ¬ c.isDigit = true) (cs : List Char) :
    ∃ byte bytes, utf8 (c :: cs) = byte :: bytes ∧ digit? byte = none := by
  have notDigit := mt isDigit_iff_toNat.mpr other
  by_cases ascii : c.toNat < 128
  · refine ⟨c.toUInt8, utf8 cs, ?_, ?_⟩
    · rw [utf8, List.flatMap_cons, String.utf8EncodeChar_eq_singleton (utf8Size_of_ascii ascii)]
      rfl
    · rw [digit?, toNat_toUInt8 ascii, if_neg notDigit]
  · have wide := toNat_ge_of_mem_utf8EncodeChar (Nat.le_of_not_lt ascii)
    have filled : String.utf8EncodeChar c ≠ [] := by
      rw [← List.length_pos_iff, String.length_utf8EncodeChar]
      exact c.utf8Size_pos
    obtain ⟨byte, rest, encoded⟩ := List.exists_cons_of_ne_nil filled
    have high := wide byte (encoded ▸ List.mem_cons_self)
    refine ⟨byte, rest ++ utf8 cs, ?_, if_neg (by omega)⟩
    rw [utf8, List.flatMap_cons, encoded]
    rfl

/-- The digits that bytes start with. -/
def digitRun : List UInt8 → List Nat
  | [] => []
  | byte :: bytes =>
    match digit? byte with
    | some digit => digit :: digitRun bytes
    | none => []

/-- The number that digits denote behind those of `n`. -/
def numberFrom (n : Nat) (ds : List Nat) : Nat := ds.foldl (fun n d => 10 * n + d) n

@[simp]
theorem numberFrom_nil (n : Nat) : numberFrom n [] = n := rfl

@[simp]
theorem numberFrom_cons (n d : Nat) (ds : List Nat) :
    numberFrom n (d :: ds) = numberFrom (10 * n + d) ds := rfl

theorem le_numberFrom (n : Nat) (ds : List Nat) : n ≤ numberFrom n ds := by
  induction ds generalizing n with
  | nil => exact Nat.le_refl n
  | cons d ds ih =>
    have bound := ih (10 * n + d)
    rw [numberFrom_cons]
    omega

theorem numberFrom_lt {n : Nat} {ds : List Nat} (inside : ∀ d ∈ ds, d < 10) :
    numberFrom n ds < (n + 1) * 10 ^ ds.length := by
  induction ds generalizing n with
  | nil => simp
  | cons d ds ih =>
    obtain ⟨first, rest⟩ := List.forall_mem_cons.mp inside
    have bound := ih (n := 10 * n + d) rest
    rw [numberFrom_cons, List.length_cons, Nat.pow_succ, Nat.mul_comm _ 10, ← Nat.mul_assoc]
    exact Nat.lt_of_lt_of_le bound (Nat.mul_le_mul_right _ (by omega))

theorem lt_of_mem_digitRun {d : Nat} {bytes : List UInt8} (member : d ∈ digitRun bytes) : d < 10 := by
  induction bytes with
  | nil => cases member
  | cons byte bytes ih =>
    rw [digitRun, digit?] at member
    by_cases digit : 48 ≤ byte.toNat ∧ byte.toNat ≤ 57
    · simp only [if_pos digit, List.mem_cons] at member
      rcases member with rfl | later
      · omega
      · exact ih later
    · simp only [if_neg digit, List.not_mem_nil] at member

/-- The digits of the bytes are those of the characters. -/
theorem digitRun_utf8 (cs : List Char) :
    digitRun (utf8 cs) = (cs.takeWhile Char.isDigit).map fun c => c.toNat - '0'.toNat := by
  induction cs with
  | nil => rfl
  | cons c cs ih =>
    by_cases digit : c.isDigit = true
    · obtain ⟨bytes, value⟩ := utf8_cons_digit digit cs
      simp only [bytes, digitRun, value, ih, List.takeWhile_cons, if_pos digit, List.map_cons]
    · obtain ⟨byte, rest, bytes, value⟩ := head?_utf8_cons digit cs
      simp only [bytes, digitRun, value, List.takeWhile_cons, if_neg digit, List.map_nil]

theorem numberFrom_map (n : Nat) (ds : List Char) :
    numberFrom n (ds.map fun c => c.toNat - '0'.toNat) = Nat.ofDigitChars 10 ds n := by
  rw [numberFrom, List.foldl_map]
  rfl

/-! ### Starts of as many bytes as characters -/

/-- The text starts with so many characters of one byte each. -/
def Narrow (count : Nat) (cs : List Char) : Prop :=
  ∃ taken rest, cs = taken ++ rest ∧ taken.length = count ∧ byteLength taken = count

theorem narrow_zero (cs : List Char) : Narrow 0 cs := ⟨[], cs, rfl, rfl, rfl⟩

theorem Narrow.length_le {count : Nat} {cs : List Char} (narrow : Narrow count cs) :
    count ≤ cs.length := by
  obtain ⟨taken, rest, rfl, length, -⟩ := narrow
  rw [List.length_append, length]
  exact Nat.le_add_right _ _

theorem Narrow.append {count more : Nat} {cs : List Char} (front : Narrow count cs)
    (back : Narrow more (cs.drop count)) : Narrow (count + more) cs := by
  obtain ⟨taken, rest, rfl, length, size⟩ := front
  rw [← length, List.drop_left] at back
  obtain ⟨further, behind, rfl, lengthToo, sizeToo⟩ := back
  refine ⟨taken ++ further, behind, (List.append_assoc _ _ _).symm, ?_, ?_⟩
  · rw [List.length_append, length, lengthToo]
  · rw [byteLength_append, size, sizeToo]

theorem narrow_of_prefix {taken cs : List Char} (starts : taken <+: cs) (ascii : IsAscii taken) :
    Narrow taken.length cs := by
  obtain ⟨rest, rfl⟩ := starts
  exact ⟨taken, rest, rfl, rfl, ascii.byteLength_eq⟩

theorem narrow_head {c : Char} {cs : List Char} (starts : cs.head? = some c) (ascii : c.toNat < 128) :
    Narrow 1 cs := by
  obtain ⟨rest, rfl⟩ := List.head?_eq_some_iff.mp starts
  have single : IsAscii [c] := by simpa [IsAscii] using ascii
  exact narrow_of_prefix ⟨rest, rfl⟩ single

theorem narrow_leadingDigits (limit : Nat) (cs : List Char) :
    Narrow (leadingDigits limit cs).length cs :=
  narrow_of_prefix (leadingDigits_starts limit cs)
    (isAscii_of_isDigit fun _ => isDigit_of_mem_leadingDigits)

theorem narrow_digitRun (cs : List Char) : Narrow (cs.takeWhile Char.isDigit).length cs :=
  narrow_of_prefix (List.takeWhile_prefix _) (isAscii_of_isDigit fun _ => List.mem_takeWhile_imp)

end CivilTime.Text
