import Reparse.Text.Slice

/-!
# Boundaries of characters

An offset that is the width of a beginning of a text lies between two of its characters, and slices
from there are what follows (`from?_width`, `slice?_width`). Byte by byte, a character of ASCII is
one byte and shows itself in it, while no byte of another character could be taken for one of ASCII
(`encode_ascii`, `encode_wide`). So whatever is found in the bytes by looking for characters of
ASCII is found between characters.
-/

namespace Reparse

namespace Utf8

/-- A character that is one byte. -/
def IsAscii (char : Char) : Prop := char.toNat < 128

instance (char : Char) : Decidable (IsAscii char) := inferInstanceAs (Decidable (_ < _))

/-! ## Widths and slices -/

@[simp]
theorem encode_nil : encode [] = [] := rfl

@[simp]
theorem encode_cons (char : Char) (chars : List Char) :
    encode (char :: chars) = String.utf8EncodeChar char ++ encode chars := rfl

@[simp]
theorem encode_append (left right : List Char) :
    encode (left ++ right) = encode left ++ encode right := List.flatMap_append

@[simp]
theorem width_nil : width [] = 0 := rfl

@[simp]
theorem width_cons (char : Char) (chars : List Char) :
    width (char :: chars) = char.utf8Size + width chars := rfl

@[simp]
theorem width_append (left right : List Char) :
    width (left ++ right) = width left + width right := by
  induction left with
  | nil => exact (Nat.zero_add _).symm
  | cons char left ih => rw [List.cons_append, width_cons, width_cons, ih, Nat.add_assoc]

@[simp]
theorem length_encode (chars : List Char) : (encode chars).length = width chars := by
  induction chars with
  | nil => rfl
  | cons char chars ih => simp [ih]

/-- Each character is at least one byte. -/
theorem length_le_width (chars : List Char) : chars.length ≤ width chars := by
  induction chars with
  | nil => exact Nat.le_refl _
  | cons char chars ih =>
    have := char.utf8Size_pos
    rw [List.length_cons, width_cons]
    omega

/-- The bytes of a string are those of its characters. -/
theorem encode_toList (text : String) : encode text.toList = text.toUTF8.data.toList := by
  have whole : text.toList.utf8Encode = text.toUTF8 := String.utf8Encode_toList
  rw [← whole]
  simp [List.utf8Encode, encode]

theorem split?_width (before after : List Char) :
    split? (width before) (before ++ after) = some (before, after) := by
  induction before with
  | nil => cases after <;> rfl
  | cons char before ih =>
    have wide : char.utf8Size ≠ 0 := Nat.ne_of_gt char.utf8Size_pos
    simp [split?, wide, ih]

theorem from?_width (before after : List Char) :
    from? (width before) (before ++ after) = some after := by
  rw [from?, split?_width]
  rfl

theorem slice?_width (before inside after : List Char) :
    slice? (width before) (width before + width inside) (before ++ (inside ++ after)) =
      some inside := by
  rw [slice?, if_neg (by omega), from?_width, Option.bind_some, Nat.add_sub_cancel_left,
    split?_width]
  rfl

/-! ## Characters in their bytes -/

theorem utf8Size_ascii {char : Char} (ascii : IsAscii char) : char.utf8Size = 1 := by
  rw [Char.utf8Size_eq_one_iff, UInt32.le_iff_toNat_le]
  exact Nat.le_of_lt_succ ascii

theorem toNat_ofUInt8 (byte : UInt8) : (Char.ofUInt8 byte).toNat = byte.toNat :=
  byte.toNat_toUInt32

/-- A character of ASCII is the one that its byte shows. -/
theorem encode_ascii {char : Char} (ascii : IsAscii char) :
    ∃ byte, String.utf8EncodeChar char = [byte] ∧ Char.ofUInt8 byte = char := by
  refine ⟨_, String.utf8EncodeChar_eq_singleton (utf8Size_ascii ascii), Char.toNat_inj.mp ?_⟩
  rw [toNat_ofUInt8, UInt32.toNat_toUInt8]
  exact Nat.mod_eq_of_lt (Nat.lt_trans ascii (by decide))

/-- No byte of a character past ASCII shows a character of ASCII. -/
theorem encode_wide {char : Char} (wide : ¬ IsAscii char) :
    ∀ byte ∈ String.utf8EncodeChar char, ¬ IsAscii (Char.ofUInt8 byte) := by
  have lead : ¬ char.val.toNat ≤ 127 := fun small => wide (Nat.lt_succ_of_le small)
  intro byte member
  simp only [IsAscii, toNat_ofUInt8, String.utf8EncodeChar, if_neg lead] at member ⊢
  split at member
  · simp only [List.mem_cons, List.not_mem_nil, or_false] at member
    rcases member with rfl | rfl <;> simp only [UInt8.toNat_ofNat'] <;> omega
  · split at member
    · simp only [List.mem_cons, List.not_mem_nil, or_false] at member
      rcases member with rfl | rfl | rfl <;> simp only [UInt8.toNat_ofNat'] <;> omega
    · simp only [List.mem_cons, List.not_mem_nil, or_false] at member
      rcases member with rfl | rfl | rfl | rfl <;> simp only [UInt8.toNat_ofNat'] <;> omega

/-- What the first byte of a text shows: its first character, if that is one of ASCII. -/
theorem head?_encode (chars : List Char) (char : Char) (ascii : IsAscii char) :
    (encode chars).head?.map Char.ofUInt8 = some char ↔ chars.head? = some char := by
  cases chars with
  | nil => simp
  | cons first rest =>
    by_cases plain : IsAscii first
    · rcases encode_ascii plain with ⟨byte, encoded, shown⟩
      simp [encoded, shown]
    · have others := encode_wide plain
      rcases bytes : String.utf8EncodeChar first with _ | ⟨byte, more⟩
      · exact absurd bytes String.utf8EncodeChar_ne_nil
      · simp only [encode_cons, bytes, List.cons_append, List.head?_cons, Option.map_some,
          Option.some.injEq]
        constructor
        · rintro rfl
          exact absurd ascii (others byte (by simp [bytes]))
        · rintro rfl
          exact absurd ascii plain

/-- The bytes at the beginning that pass a test for characters of ASCII are those of the characters
that pass it. -/
theorem takeWhile_encode {passes : Char → Bool} (plain : ∀ char, passes char → IsAscii char)
    (chars : List Char) :
    (encode chars).takeWhile (fun byte => passes (Char.ofUInt8 byte)) =
      encode (chars.takeWhile passes) := by
  induction chars with
  | nil => rfl
  | cons char chars ih =>
    by_cases ascii : IsAscii char
    · rcases encode_ascii ascii with ⟨byte, encoded, shown⟩
      by_cases passed : passes char = true <;> simp [encoded, shown, passed, ih]
    · have stopped : ¬ passes char = true := fun passed => ascii (plain char passed)
      rcases bytes : String.utf8EncodeChar char with _ | ⟨byte, more⟩
      · exact absurd bytes String.utf8EncodeChar_ne_nil
      · have refused : ¬ passes (Char.ofUInt8 byte) = true :=
          fun passed => encode_wide ascii byte (by simp [bytes]) (plain _ passed)
        simp [bytes, stopped, refused]

end Utf8

end Reparse
