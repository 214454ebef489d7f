import CivilTime.Proofs.Text.Positions
import CivilTime.Text.Digits

/-!
# The order of texts

Texts are compared byte by byte, the first byte that differs deciding, which puts them in the order
of their characters. Texts that are made of pieces of the same lengths are in the order of their
pieces.
-/
namespace CivilTime.Text

/-! ### Pieces of one length -/

section Pieces

variable {α ι : Type} [LT α]

theorem append_lt_append_iff {front front' back back' : List α}
    (length : front.length = front'.length) :
    front ++ back < front' ++ back' ↔ front < front' ∨ front = front' ∧ back < back' := by
  -- The pieces in front end together, so the first difference is in them or behind both.
  induction front generalizing front' with
  | nil =>
    obtain rfl := List.length_eq_zero_iff.mp length.symm
    simp
  | cons c front ih =>
    cases front' with
    | nil => cases length
    | cons c' front' =>
      have rest := ih (Nat.succ.inj length)
      simp only [List.cons_append, List.cons_lt_cons_iff, List.cons.injEq, rest]
      tauto

/-- Joined pieces are in the order of the values that order the pieces. -/
theorem flatMap_lt_flatMap_iff {items : List ι} {left right : ι → List α} {value value' : ι → Nat}
    (length : ∀ item ∈ items, (left item).length = (right item).length)
    (order : ∀ item ∈ items, left item < right item ↔ value item < value' item)
    (same : ∀ item ∈ items, left item = right item ↔ value item = value' item) :
    items.flatMap left < items.flatMap right ↔ items.map value < items.map value' := by
  induction items with
  | nil => simp
  | cons item items ih =>
    rw [List.forall_mem_cons] at length order same
    rw [List.flatMap_cons, List.flatMap_cons, append_lt_append_iff length.1, List.map_cons,
      List.map_cons, List.cons_lt_cons_iff, order.1, same.1, ih length.2 order.2 same.2]

end Pieces

/-! ### Bytes of ASCII texts -/

/-- All characters are of one byte. -/
def IsAscii (cs : List Char) : Prop := ∀ c ∈ cs, c.toNat < 128

instance : DecidablePred IsAscii := fun cs => List.decidableBAll (fun c : Char => c.toNat < 128) cs

theorem isAscii_of_isDigit {ds : List Char} (inside : ∀ c ∈ ds, c.isDigit = true) : IsAscii ds := by
  intro c member
  have bounds := Char.isDigit_iff_toNat.mp (inside c member)
  have nine : '9'.toNat = 57 := rfl
  omega

theorem isAscii_digits (n width : Nat) : IsAscii (digits n width) :=
  isAscii_of_isDigit fun _ => isDigit_of_mem_digits

theorem utf8Size_of_ascii {c : Char} (ascii : c.toNat < 128) : c.utf8Size = 1 := by
  rw [Char.utf8Size_eq_one_iff, UInt32.le_iff_toNat_le]
  exact Nat.le_of_lt_succ ascii

theorem IsAscii.byteLength_eq {cs : List Char} (ascii : IsAscii cs) : byteLength cs = cs.length := by
  induction cs with
  | nil => rfl
  | cons c cs ih =>
    obtain ⟨first, rest⟩ := List.forall_mem_cons.mp ascii
    rw [byteLength, utf8Size_of_ascii first, ih rest, List.length_cons, Nat.add_comm]

/-- The UTF-8 form of a text. -/
def bytes (text : String) : List UInt8 := text.toUTF8.data.toList

theorem bytes_eq_flatMap (text : String) :
    bytes text = text.toList.flatMap String.utf8EncodeChar := by
  have encoded : text.toUTF8 = text.toList.utf8Encode := by
    rw [← String.toByteArray_ofList, String.ofList_toList, String.toUTF8_eq_toByteArray]
  rw [bytes, encoded, List.utf8Encode, List.data_toByteArray]

theorem IsAscii.bytes_eq {text : String} (ascii : IsAscii text.toList) :
    bytes text = text.toList.map Char.toUInt8 := by
  rw [bytes_eq_flatMap, List.map_eq_flatMap]
  apply List.flatMap_congr
  intro c member
  exact String.utf8EncodeChar_eq_singleton (utf8Size_of_ascii (ascii c member))

theorem toNat_toUInt8 {c : Char} (ascii : c.toNat < 128) : c.toUInt8.toNat = c.toNat :=
  Nat.mod_eq_of_lt (Nat.lt_of_lt_of_le ascii (by decide))

/-! ### Bytes of characters in order -/

/-- Of two numbers the quotients decide on the order, and then the remainders. -/
theorem div_lt_or_mod_lt {m n : Nat} (less : m < n) (base : Nat) :
    m / base < n / base ∨ m / base = n / base ∧ m % base < n % base := by
  have ordered := Nat.div_le_div_right (c := base) (Nat.le_of_lt less)
  have left := Nat.div_add_mod m base
  have right := Nat.div_add_mod n base
  rcases Nat.lt_or_eq_of_le ordered with earlier | same
  · exact .inl earlier
  · refine .inr ⟨same, ?_⟩
    rw [same] at left
    omega

theorem toNat_lt (c : Char) : c.toNat < 1114112 := by
  rcases c.valid with low | ⟨-, high⟩
  · exact Nat.lt_trans low (by decide)
  · exact high

/-- The first byte tells how many bytes there are, and the bytes behind it are digits to base 64. -/
theorem utf8EncodeChar_append_lt {c d : Char} (less : c < d) (rest rest' : List UInt8) :
    String.utf8EncodeChar c ++ rest < String.utf8EncodeChar d ++ rest' := by
  have order : c.toNat < d.toNat := less
  have last := toNat_lt d
  have left : c.val.toNat = c.toNat := rfl
  have right : d.val.toNat = d.toNat := rfl
  -- The digits decide from the first one on, three of them at most.
  have units := div_lt_or_mod_lt order 64
  have second := fun less => div_lt_or_mod_lt (m := c.toNat / 64) (n := d.toNat / 64) less 64
  have third := fun less => div_lt_or_mod_lt (m := c.toNat / 4096) (n := d.toNat / 4096) less 64
  simp only [Nat.div_div_eq_div_mul, Nat.reduceMul] at second third
  simp only [String.utf8EncodeChar, left, right]
  split_ifs
  all_goals
    simp (disch := omega) only [List.cons_append, List.nil_append, List.cons_lt_cons_iff,
      UInt8.lt_iff_toNat_lt, ← UInt8.toNat_inj, UInt8.toNat_ofNat', Nat.mod_eq_of_lt]
    omega

theorem flatMap_utf8EncodeChar_lt {cs ds : List Char} (less : cs < ds) :
    cs.flatMap String.utf8EncodeChar < ds.flatMap String.utf8EncodeChar := by
  induction cs generalizing ds with
  | nil =>
    cases ds with
    | nil => exact absurd less (List.lt_irrefl _)
    | cons d ds =>
      have some : String.utf8EncodeChar d ≠ [] := by
        intro none
        have length := String.length_utf8EncodeChar d
        have positive := d.utf8Size_pos
        rw [none] at length
        exact absurd length (Nat.ne_of_lt positive)
      obtain ⟨b, bs, same⟩ := List.exists_cons_of_ne_nil some
      rw [List.flatMap_cons, same]
      exact List.nil_lt_cons _ _
  | cons c cs ih =>
    cases ds with
    | nil => exact absurd less (List.not_lt_nil _)
    | cons d ds =>
      rw [List.flatMap_cons, List.flatMap_cons]
      rcases List.cons_lt_cons_iff.mp less with first | ⟨rfl, rest⟩
      · exact utf8EncodeChar_append_lt first _ _
      · exact (append_lt_append_iff rfl).mpr (.inr ⟨rfl, ih rest⟩)

/-- Texts are in the order of their bytes. -/
theorem bytes_lt_bytes_iff {left right : String} :
    bytes left < bytes right ↔ left.toList < right.toList := by
  rw [bytes_eq_flatMap, bytes_eq_flatMap]
  refine ⟨fun less => ?_, flatMap_utf8EncodeChar_lt⟩
  rcases lt_trichotomy left.toList right.toList with before | same | after
  · exact before
  · rw [same] at less
    exact absurd less (List.lt_irrefl _)
  · exact absurd less (List.lt_asymm (flatMap_utf8EncodeChar_lt after))

end CivilTime.Text
