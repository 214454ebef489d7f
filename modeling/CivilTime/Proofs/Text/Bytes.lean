import CivilTime.Proofs.Text.Order
import CivilTime.Text.Bytes

/-!
# Bytes and ASCII case

The bytes of ASCII letters are those letters, and no other character has such a byte. So capitals
can be made small byte by byte, which keeps the size of a text, and a text starts with the bytes of
another one only if it starts with its characters.
-/
namespace CivilTime.Text

/-! ### Small letters byte by byte -/

theorem isUpper_iff_toNat {c : Char} : c.isUpper = true ↔ 65 ≤ c.toNat ∧ c.toNat ≤ 90 := by
  simp [Char.isUpper, UInt32.le_iff_toNat_le]

theorem toUInt8_toLower {c : Char} (ascii : c.toNat < 128) :
    c.toLower.toNat < 128 ∧ c.toLower.toUInt8 = foldByte c.toUInt8 := by
  rw [foldByte, toNat_toUInt8 ascii]
  by_cases capital : c.isUpper = true
  · have bounds := isUpper_iff_toNat.mp capital
    have small : c.toLower.toNat = c.toNat + 32 := by
      rw [Char.toLower_eq_of_isUpper capital, Char.toNat_ofNat, if_pos (.inl (by omega))]
    have single : c.toLower.toNat < 128 := by omega
    refine ⟨single, ?_⟩
    rw [if_pos bounds, ← UInt8.toNat_inj, UInt8.toNat_add, toNat_toUInt8 single,
      toNat_toUInt8 ascii, small]
    exact (Nat.mod_eq_of_lt (by omega)).symm
  · rw [Char.toLower_eq_of_not_isUpper capital, if_neg (mt isUpper_iff_toNat.mpr capital)]
    exact ⟨ascii, rfl⟩

theorem toNat_ge_of_mem_utf8EncodeChar {c : Char} (wide : 128 ≤ c.toNat) :
    ∀ b ∈ String.utf8EncodeChar c, 128 ≤ b.toNat := by
  have value : c.val.toNat = c.toNat := rfl
  simp only [String.utf8EncodeChar]
  split_ifs
  · omega
  -- Two, three or four bytes, each with its highest bit set.
  all_goals
    simp
    omega

theorem utf8EncodeChar_toLower (c : Char) :
    String.utf8EncodeChar c.toLower = (String.utf8EncodeChar c).map foldByte := by
  by_cases ascii : c.toNat < 128
  · obtain ⟨single, small⟩ := toUInt8_toLower ascii
    rw [String.utf8EncodeChar_eq_singleton (utf8Size_of_ascii ascii),
      String.utf8EncodeChar_eq_singleton (utf8Size_of_ascii single), List.map_singleton]
    exact congrArg (fun b => [b]) small
  · have wide := Nat.le_of_not_lt ascii
    have plain : ¬ c.isUpper = true := by
      intro capital
      have bounds := isUpper_iff_toNat.mp capital
      omega
    have kept : ∀ b ∈ String.utf8EncodeChar c, foldByte b = id b := by
      intro b member
      have large := toNat_ge_of_mem_utf8EncodeChar wide b member
      exact if_neg (by omega)
    rw [Char.toLower_eq_of_not_isUpper plain, List.map_congr_left kept, List.map_id]

@[simp] theorem utf8_nil : utf8 [] = [] := rfl

theorem utf8_fold (cs : List Char) : utf8 (fold cs) = (utf8 cs).map foldByte := by
  simp only [utf8, fold, List.flatMap_map, utf8EncodeChar_toLower, List.map_flatMap]

theorem bytes_eq_utf8 (text : String) : bytes text = utf8 text.toList := bytes_eq_flatMap text

theorem bytes_foldString (text : String) : bytes (foldString text) = (bytes text).map foldByte := by
  rw [bytes_eq_utf8, bytes_eq_utf8, foldString, String.toList_ofList, utf8_fold]

theorem length_utf8 (cs : List Char) : (utf8 cs).length = byteLength cs := by
  induction cs with
  | nil => rfl
  | cons c cs ih =>
    rw [utf8, List.flatMap_cons, List.length_append, String.length_utf8EncodeChar, byteLength]
    exact congrArg (c.utf8Size + ·) ih

theorem fold_fold (cs : List Char) : fold (fold cs) = fold cs := by
  simp [fold]

theorem byteLength_fold (cs : List Char) : byteLength (fold cs) = byteLength cs := by
  induction cs with
  | nil => rfl
  | cons c cs ih =>
    have size : c.toLower.utf8Size = c.utf8Size := by
      rw [← String.length_utf8EncodeChar, utf8EncodeChar_toLower, List.length_map,
        String.length_utf8EncodeChar]
    rw [fold_cons, byteLength, byteLength, size, ih]

/-! ### Starts of texts -/

/-- No byte of a character starts another one, so bytes in front are characters in front. -/
theorem utf8_prefix_iff {left right : List Char} : utf8 left <+: utf8 right ↔ left <+: right := by
  constructor
  · rintro ⟨rest, whole⟩
    apply List.isPrefix_of_utf8Encode_append_eq_utf8Encode rest.toByteArray
    rw [List.utf8Encode, List.utf8Encode, ← List.toByteArray_append]
    exact congrArg List.toByteArray whole
  · rintro ⟨rest, rfl⟩
    rw [utf8, utf8, List.flatMap_append]
    exact List.prefix_append _ _

/-- Texts of the same bytes start with each other. -/
theorem utf8_injective : Function.Injective utf8 := by
  intro left right same
  have front : left <+: right := utf8_prefix_iff.mp (by rw [same])
  have back : right <+: left := utf8_prefix_iff.mp (by rw [same])
  exact front.eq_of_length_le back.length_le

theorem bytes_injective : Function.Injective bytes := by
  intro left right same
  rw [bytes_eq_utf8, bytes_eq_utf8] at same
  exact String.toList_inj.mp (utf8_injective same)

theorem map_foldByte_prefix_iff {left right : List Char} :
    (utf8 left).map foldByte <+: (utf8 right).map foldByte ↔ fold left <+: fold right := by
  rw [← utf8_fold, ← utf8_fold, utf8_prefix_iff]

theorem length_le_byteLength (cs : List Char) : cs.length ≤ byteLength cs := by
  induction cs with
  | nil => exact Nat.le_refl 0
  | cons c cs ih =>
    have positive := c.utf8Size_pos
    rw [List.length_cons, byteLength]
    omega

/-- Of two starts of one text the one with more characters has more bytes. -/
theorem byteLength_le_iff {left right cs : List Char} (first : left <+: cs) (second : right <+: cs) :
    byteLength left ≤ byteLength right ↔ left.length ≤ right.length := by
  rcases List.prefix_or_prefix_of_prefix first second with ⟨rest, rfl⟩ | ⟨rest, rfl⟩
  all_goals
    have size := length_le_byteLength rest
    rw [byteLength_append, List.length_append]
  · omega
  · constructor
    · omega
    · intro shorter
      obtain rfl := List.length_eq_zero_iff.mp (show rest.length = 0 by omega)
      exact Nat.le_refl _

end CivilTime.Text
