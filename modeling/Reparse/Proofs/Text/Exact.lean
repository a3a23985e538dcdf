import Reparse.Proofs.Text.Decode
import Reparse.Proofs.Text.Slice

/-!
# Decoding is exact

A character is read where its encoding stands, and nowhere else (`Utf8.piece_eq_character_iff`): the
ranges of the lead bytes and of the byte after each leave out exactly the sequences that encode no
character. What begins no encoding is read byte by byte, as replacement characters. So the readings
of a text from its beginning on share its bytes out among them, give back the characters of a text
that is their encoding, and show no other character that the text does not hold
(`Utf8.decoding_exact`).
-/

namespace Reparse

namespace Utf8

/-- The encoding of a character stands in a text at an offset. -/
def EncodedAt (text : Text) (offset : Nat) (char : Char) : Prop :=
  String.utf8EncodeChar char <+: text.toList.drop offset

instance (text : Text) (offset : Nat) (char : Char) : Decidable (EncodedAt text offset char) :=
  inferInstanceAs (Decidable (_ <+: _))

deriving instance DecidableEq for Lead

section Pieces

variable {text : Text} {offset : Nat} {char : Char} {low high : UInt8} {code size : Nat}

theorem cons_prefix_drop {byte : UInt8} {bytes : List UInt8} :
    byte :: bytes <+: text.toList.drop offset ↔
      text[offset]? = some byte ∧ bytes <+: text.toList.drop (offset + 1) := by
  by_cases inside : offset < text.size
  · have listed : offset < text.toList.length := by simpa using inside
    rw [List.drop_eq_getElem_cons listed, List.cons_prefix_cons, Array.getElem?_eq_getElem inside,
      Option.some.injEq, Array.getElem_toList, eq_comm]
  · have listed : text.toList.length ≤ offset := by simpa using inside
    rw [List.drop_eq_nil_of_le listed, Array.getElem?_eq_none (Nat.le_of_not_lt inside)]
    simp

/-! ## The bytes of an encoding -/

theorem utf8EncodeChar_two (above : 0x80 ≤ char.toNat) (below : char.toNat < 0x800) :
    String.utf8EncodeChar char =
      [UInt8.ofNat (char.toNat / 64 + 0xC0), UInt8.ofNat (char.toNat % 64 + 0x80)] := by
  have value : char.val.toNat = char.toNat := rfl
  simp only [String.utf8EncodeChar, value]
  rw [if_neg (by omega), if_pos (by omega), Nat.mod_eq_of_lt (by omega)]

theorem utf8EncodeChar_three (above : 0x800 ≤ char.toNat) (below : char.toNat < 0x10000) :
    String.utf8EncodeChar char =
      [UInt8.ofNat (char.toNat / 4096 + 0xE0), UInt8.ofNat (char.toNat / 64 % 64 + 0x80),
        UInt8.ofNat (char.toNat % 64 + 0x80)] := by
  have value : char.val.toNat = char.toNat := rfl
  simp only [String.utf8EncodeChar, value]
  rw [if_neg (by omega), if_neg (by omega), if_pos (by omega),
    Nat.mod_eq_of_lt (show char.toNat / 4096 < 16 by omega)]

theorem toNat_lt (char : Char) : char.toNat < 0x110000 := by
  rcases char.valid with small | ⟨_, small⟩
  · exact Nat.lt_trans small (by decide)
  · exact small

theorem utf8EncodeChar_four (above : 0x10000 ≤ char.toNat) :
    String.utf8EncodeChar char =
      [UInt8.ofNat (char.toNat / 262144 + 0xF0), UInt8.ofNat (char.toNat / 4096 % 64 + 0x80),
        UInt8.ofNat (char.toNat / 64 % 64 + 0x80), UInt8.ofNat (char.toNat % 64 + 0x80)] := by
  have value : char.val.toNat = char.toNat := rfl
  have valid := toNat_lt char
  simp only [String.utf8EncodeChar, value]
  rw [if_neg (by omega), if_neg (by omega), if_neg (by omega),
    Nat.mod_eq_of_lt (show char.toNat / 262144 < 8 by omega)]

/-! ## Bytes that are read -/

theorem lead_two : ∀ bits < 32, 2 ≤ bits →
    lead? (UInt8.ofNat (bits + 0xC0)) = some ⟨1, 0x80, 0xBF, bits⟩ := by
  decide +kernel

theorem lead_three : ∀ bits < 16, lead? (UInt8.ofNat (bits + 0xE0)) =
    some ⟨2, if bits = 0 then 0xA0 else 0x80, if bits = 13 then 0x9F else 0xBF, bits⟩ := by
  decide +kernel

theorem lead_four : ∀ bits < 5, lead? (UInt8.ofNat (bits + 0xF0)) =
    some ⟨3, if bits = 0 then 0x90 else 0x80, if bits = 4 then 0x8F else 0xBF, bits⟩ := by
  decide +kernel

theorem lead_range {byte : UInt8} {lead : Lead} (leads : lead? byte = some lead) :
    0xC2 ≤ byte.toNat ∧ byte.toNat < 0xF5 :=
  of_decide_eq_true (@of_leads (fun byte _ => decide (0xC2 ≤ byte.toNat ∧ byte.toNat < 0xF5))
    (by decide +kernel) byte lead leads)

/-- A byte after a lead byte adds six bits, between the least and the most that may follow. -/
theorem tails_eq_character_iff {count total least most : Nat} (first : low.toNat = least + 0x80)
    (last : high.toNat = most + 0x80) (few : most < 64) :
    tails text (count + 1) low high code size offset = .character char total ↔
      ∃ digit, least ≤ digit ∧ digit ≤ most ∧
        text[offset]? = some (UInt8.ofNat (digit + 0x80)) ∧
        tails text count 0x80 0xBF (code * 64 + digit) (size + 1) (offset + 1) =
          .character char total := by
  rw [tails]
  cases found : text[offset]? with
  | none => simp
  | some byte =>
      simp only [Option.some.injEq, UInt8.le_iff_toNat_le]
      constructor
      · intro read
        split at read
        · rename_i within
          refine ⟨byte.toNat - 0x80, by omega, by omega, ?_, read⟩
          rw [Nat.sub_add_cancel (by omega), UInt8.ofNat_toNat]
        · cases read
      · rintro ⟨digit, least, most, rfl, read⟩
        have value : (UInt8.ofNat (digit + 0x80)).toNat = digit + 0x80 :=
          UInt8.toNat_ofNat_of_lt (show _ < 256 by omega)
        rw [value, if_pos (by omega), Nat.add_sub_cancel]
        exact read

theorem tails_rest_iff {count total : Nat} :
    tails text (count + 1) 0x80 0xBF code size offset = .character char total ↔
      ∃ digit ≤ 63, text[offset]? = some (UInt8.ofNat (digit + 0x80)) ∧
        tails text count 0x80 0xBF (code * 64 + digit) (size + 1) (offset + 1) =
          .character char total := by
  rw [@tails_eq_character_iff _ _ _ _ _ _ _ _ _ 0 63 rfl rfl (by decide)]
  simp only [Nat.zero_le, true_and]

theorem tails_zero_iff {total : Nat} :
    tails text 0 low high code size offset = .character char total ↔
      Char.ofNat code = char ∧ size = total := by
  rw [tails, Piece.character.injEq]

theorem piece_of_lead {byte : UInt8} {lead : Lead} (found : text[offset]? = some byte)
    (leads : lead? byte = some lead) :
    piece? text offset =
      some (tails text lead.tails lead.low lead.high lead.bits 1 (offset + 1)) := by
  have wide : ¬ byte < 0x80 := by
    rw [UInt8.lt_iff_toNat_lt]
    have := (lead_range leads).1
    show ¬ _ < 128
    omega
  simp only [piece?, found, if_neg wide, leads]

theorem piece_two {bits : Nat} (above : 2 ≤ bits) (below : bits < 32)
    (found : text[offset]? = some (UInt8.ofNat (bits + 0xC0))) :
    piece? text offset = some (.character char size) ↔
      ∃ digit ≤ 63, text[offset + 1]? = some (UInt8.ofNat (digit + 0x80)) ∧
        Char.ofNat (bits * 64 + digit) = char ∧ 2 = size := by
  rw [piece_of_lead found (lead_two bits below above), Option.some.injEq]
  simp only [tails_rest_iff, tails_zero_iff]

theorem piece_three {bits : Nat} (below : bits < 16)
    (found : text[offset]? = some (UInt8.ofNat (bits + 0xE0))) :
    piece? text offset = some (.character char size) ↔
      ∃ first, (if bits = 0 then 32 else 0) ≤ first ∧ first ≤ (if bits = 13 then 31 else 63) ∧
        text[offset + 1]? = some (UInt8.ofNat (first + 0x80)) ∧
        ∃ second ≤ 63, text[offset + 2]? = some (UInt8.ofNat (second + 0x80)) ∧
          Char.ofNat ((bits * 64 + first) * 64 + second) = char ∧ 3 = size := by
  have least : (if bits = 0 then 0xA0 else 0x80 : UInt8).toNat =
      (if bits = 0 then 32 else 0) + 0x80 := by
    split <;> rfl
  have most : (if bits = 13 then 0x9F else 0xBF : UInt8).toNat =
      (if bits = 13 then 31 else 63) + 0x80 := by
    split <;> rfl
  rw [piece_of_lead found (lead_three bits below), Option.some.injEq,
    tails_eq_character_iff least most (by split <;> decide)]
  simp only [tails_rest_iff, tails_zero_iff]

theorem piece_four {bits : Nat} (below : bits < 5)
    (found : text[offset]? = some (UInt8.ofNat (bits + 0xF0))) :
    piece? text offset = some (.character char size) ↔
      ∃ first, (if bits = 0 then 16 else 0) ≤ first ∧ first ≤ (if bits = 4 then 15 else 63) ∧
        text[offset + 1]? = some (UInt8.ofNat (first + 0x80)) ∧
        ∃ second ≤ 63, text[offset + 2]? = some (UInt8.ofNat (second + 0x80)) ∧
          ∃ third ≤ 63, text[offset + 3]? = some (UInt8.ofNat (third + 0x80)) ∧
            Char.ofNat (((bits * 64 + first) * 64 + second) * 64 + third) = char ∧ 4 = size := by
  have least : (if bits = 0 then 0x90 else 0x80 : UInt8).toNat =
      (if bits = 0 then 16 else 0) + 0x80 := by
    split <;> rfl
  have most : (if bits = 4 then 0x8F else 0xBF : UInt8).toNat =
      (if bits = 4 then 15 else 63) + 0x80 := by
    split <;> rfl
  rw [piece_of_lead found (lead_four bits below), Option.some.injEq,
    tails_eq_character_iff least most (by split <;> decide)]
  simp only [tails_rest_iff, tails_zero_iff]

/-! ## Exactness -/

theorem encodedAt_one (below : char.toNat < 0x80) :
    EncodedAt text offset char ↔ text[offset]? = some (UInt8.ofNat char.toNat) := by
  have value : char.val.toNat ≤ 127 := Nat.le_of_lt_succ below
  rw [EncodedAt, String.utf8EncodeChar, if_pos value]
  simp only [cons_prefix_drop, List.nil_prefix, and_true]
  rfl

theorem encodedAt_two (above : 0x80 ≤ char.toNat) (below : char.toNat < 0x800) :
    EncodedAt text offset char ↔
      text[offset]? = some (UInt8.ofNat (char.toNat / 64 + 0xC0)) ∧
        text[offset + 1]? = some (UInt8.ofNat (char.toNat % 64 + 0x80)) := by
  rw [EncodedAt, utf8EncodeChar_two above below]
  simp only [cons_prefix_drop, List.nil_prefix, and_true]

theorem encodedAt_three (above : 0x800 ≤ char.toNat) (below : char.toNat < 0x10000) :
    EncodedAt text offset char ↔
      text[offset]? = some (UInt8.ofNat (char.toNat / 4096 + 0xE0)) ∧
        text[offset + 1]? = some (UInt8.ofNat (char.toNat / 64 % 64 + 0x80)) ∧
        text[offset + 2]? = some (UInt8.ofNat (char.toNat % 64 + 0x80)) := by
  rw [EncodedAt, utf8EncodeChar_three above below]
  simp only [cons_prefix_drop, List.nil_prefix, and_true]

theorem encodedAt_four (above : 0x10000 ≤ char.toNat) :
    EncodedAt text offset char ↔
      text[offset]? = some (UInt8.ofNat (char.toNat / 262144 + 0xF0)) ∧
        text[offset + 1]? = some (UInt8.ofNat (char.toNat / 4096 % 64 + 0x80)) ∧
        text[offset + 2]? = some (UInt8.ofNat (char.toNat / 64 % 64 + 0x80)) ∧
        text[offset + 3]? = some (UInt8.ofNat (char.toNat % 64 + 0x80)) := by
  rw [EncodedAt, utf8EncodeChar_four above]
  simp only [cons_prefix_drop, List.nil_prefix, and_true]

theorem utf8Size_two (above : 0x80 ≤ char.toNat) (below : char.toNat < 0x800) :
    char.utf8Size = 2 := by
  rw [← String.length_utf8EncodeChar, utf8EncodeChar_two above below]
  rfl

theorem utf8Size_three (above : 0x800 ≤ char.toNat) (below : char.toNat < 0x10000) :
    char.utf8Size = 3 := by
  rw [← String.length_utf8EncodeChar, utf8EncodeChar_three above below]
  rfl

theorem utf8Size_four (above : 0x10000 ≤ char.toNat) : char.utf8Size = 4 := by
  rw [← String.length_utf8EncodeChar, utf8EncodeChar_four above]
  rfl

/-- The bytes that are read as a character are the ones that encode it, whatever its lead byte. -/
theorem encodedAt_of_two {bits : Nat} (above : 2 ≤ bits) (below : bits < 32)
    (found : text[offset]? = some (UInt8.ofNat (bits + 0xC0)))
    (read : piece? text offset = some (.character char size)) :
    EncodedAt text offset char ∧ char.utf8Size = size := by
  rcases (piece_two above below found).mp read with ⟨digit, few, second, rfl, rfl⟩
  have value := @toNat_ofNat_of_valid (bits * 64 + digit) (Or.inl (by omega))
  rw [encodedAt_two (by omega) (by omega), utf8Size_two (by omega) (by omega), value,
    show (bits * 64 + digit) / 64 = bits by omega,
    show (bits * 64 + digit) % 64 = digit by omega]
  exact ⟨⟨found, second⟩, rfl⟩

theorem encodedAt_of_three {bits : Nat} (below : bits < 16)
    (found : text[offset]? = some (UInt8.ofNat (bits + 0xE0)))
    (read : piece? text offset = some (.character char size)) :
    EncodedAt text offset char ∧ char.utf8Size = size := by
  rcases (piece_three below found).mp read with
    ⟨first, least, most, second, next, few, third, rfl, rfl⟩
  -- The least value of the first digit excludes overlong forms, the most excludes surrogates.
  have long : bits = 0 → 32 ≤ first := fun zero => by rwa [if_pos zero] at least
  have plain : bits = 13 → first ≤ 31 := fun high => by rwa [if_pos high] at most
  have small : first ≤ 63 := by split at most <;> omega
  have value := @toNat_ofNat_of_valid ((bits * 64 + first) * 64 + next) (by
    show _ ∨ _
    omega)
  rw [encodedAt_three (by omega) (by omega), utf8Size_three (by omega) (by omega), value,
    show ((bits * 64 + first) * 64 + next) / 4096 = bits by omega,
    show ((bits * 64 + first) * 64 + next) / 64 % 64 = first by omega,
    show ((bits * 64 + first) * 64 + next) % 64 = next by omega]
  exact ⟨⟨found, second, third⟩, rfl⟩

theorem encodedAt_of_four {bits : Nat} (below : bits < 5)
    (found : text[offset]? = some (UInt8.ofNat (bits + 0xF0)))
    (read : piece? text offset = some (.character char size)) :
    EncodedAt text offset char ∧ char.utf8Size = size := by
  rcases (piece_four below found).mp read with
    ⟨first, least, most, second, next, few, third, last, small, fourth, rfl, rfl⟩
  -- The least value of the first digit excludes overlong forms, the most what is past U+10FFFF.
  have long : bits = 0 → 16 ≤ first := fun zero => by rwa [if_pos zero] at least
  have last_plane : bits = 4 → first ≤ 15 := fun high => by rwa [if_pos high] at most
  have short : first ≤ 63 := by split at most <;> omega
  have value := @toNat_ofNat_of_valid (((bits * 64 + first) * 64 + next) * 64 + last) (by
      show _ ∨ _
      omega)
  rw [encodedAt_four (by omega), utf8Size_four (by omega), value,
    show (((bits * 64 + first) * 64 + next) * 64 + last) / 262144 = bits by omega,
    show (((bits * 64 + first) * 64 + next) * 64 + last) / 4096 % 64 = first by omega,
    show (((bits * 64 + first) * 64 + next) * 64 + last) / 64 % 64 = next by omega,
    show (((bits * 64 + first) * 64 + next) * 64 + last) % 64 = last by omega]
  exact ⟨⟨found, second, third, fourth⟩, rfl⟩

/-- A character that is read has its encoding there. -/
theorem encodedAt_of_piece (read : piece? text offset = some (.character char size)) :
    EncodedAt text offset char ∧ char.utf8Size = size := by
  cases found : text[offset]? with
  | none => simp only [piece?, found, reduceCtorEq] at read
  | some byte =>
      by_cases ascii : byte < 0x80
      · have small : byte.toNat < 0x80 := UInt8.lt_iff_toNat_lt.mp ascii
        have value := toNat_ofNat_of_small small
        simp only [piece?, found, if_pos ascii, Option.some.injEq, Piece.character.injEq] at read
        rcases read with ⟨rfl, rfl⟩
        rw [encodedAt_one (by omega), utf8Size_ascii (by unfold IsAscii; omega), value, UInt8.ofNat_toNat]
        exact ⟨found, rfl⟩
      · cases leads : lead? byte with
        | none => simp [piece?, found, if_neg ascii, leads] at read
        | some lead =>
            rcases lead_range leads with ⟨least, most⟩
            have marked {mark : Nat} (within : mark ≤ byte.toNat) :
                text[offset]? = some (UInt8.ofNat (byte.toNat - mark + mark)) := by
              rw [found, Nat.sub_add_cancel within, UInt8.ofNat_toNat]
            by_cases two : byte.toNat < 0xE0
            · exact encodedAt_of_two (by omega) (by omega) (marked (by omega)) read
            · by_cases three : byte.toNat < 0xF0
              · exact encodedAt_of_three (by omega) (marked (by omega)) read
              · exact encodedAt_of_four (by omega) (marked (by omega)) read

/-- Where the encoding of a character stands, the character is read. -/
theorem piece_of_encodedAt (encoded : EncodedAt text offset char) :
    piece? text offset = some (.character char char.utf8Size) := by
  have whole := Char.ofNat_toNat char
  have valid : char.toNat < 0xD800 ∨ 0xDFFF < char.toNat ∧ char.toNat < 0x110000 := char.valid
  by_cases one : char.toNat < 0x80
  · rw [encodedAt_one one] at encoded
    have value : (UInt8.ofNat char.toNat).toNat = char.toNat :=
      UInt8.toNat_ofNat_of_lt (show _ < 256 by omega)
    have ascii : UInt8.ofNat char.toNat < 0x80 := by
      rw [UInt8.lt_iff_toNat_lt, value]
      exact one
    rw [utf8Size_ascii one]
    simp only [piece?, encoded, if_pos ascii, value, whole]
  by_cases two : char.toNat < 0x800
  · rw [encodedAt_two (by omega) two] at encoded
    rcases encoded with ⟨first, second⟩
    rw [utf8Size_two (by omega) two]
    refine (piece_two (by omega) (by omega) first).mpr ⟨_, by omega, second, ?_, rfl⟩
    rw [show char.toNat / 64 * 64 + char.toNat % 64 = char.toNat by omega, whole]
  by_cases three : char.toNat < 0x10000
  · rw [encodedAt_three (by omega) three] at encoded
    rcases encoded with ⟨first, second, third⟩
    rw [utf8Size_three (by omega) three]
    refine (piece_three (by omega) first).mpr
      ⟨_, by split <;> omega, by split <;> omega, second, _, by omega, third, ?_, rfl⟩
    rw [show (char.toNat / 4096 * 64 + char.toNat / 64 % 64) * 64 + char.toNat % 64 = char.toNat
      by omega, whole]
  · rw [encodedAt_four (by omega)] at encoded
    rcases encoded with ⟨first, second, third, fourth⟩
    rw [utf8Size_four (by omega)]
    refine (piece_four (by omega) first).mpr
      ⟨_, by split <;> omega, by split <;> omega, second, _, by omega, third, _, by omega, fourth,
        ?_, rfl⟩
    rw [show ((char.toNat / 262144 * 64 + char.toNat / 4096 % 64) * 64 + char.toNat / 64 % 64) * 64
      + char.toNat % 64 = char.toNat by omega, whole]

/-- A character is read exactly where its encoding stands, and with all of its bytes. -/
theorem piece_eq_character_iff :
    piece? text offset = some (.character char size) ↔
      EncodedAt text offset char ∧ char.utf8Size = size := by
  constructor
  · exact encodedAt_of_piece
  · rintro ⟨encoded, rfl⟩
    exact piece_of_encodedAt encoded

/-- At most one character is encoded at an offset. -/
theorem EncodedAt.unique {other : Char} (encoded : EncodedAt text offset char)
    (also : EncodedAt text offset other) : char = other := by
  have same := (piece_of_encodedAt encoded).symm.trans (piece_of_encodedAt also)
  rw [Option.some.injEq, Piece.character.injEq] at same
  exact same.1

theorem next_of_encodedAt (encoded : EncodedAt text offset char) :
    next? text offset = some ⟨char, char.utf8Size, false⟩ := by
  rw [next_eq_piece, piece_of_encodedAt encoded]
  rfl

theorem next_of_not_encodedAt (inside : offset < text.size)
    (foreign : ∀ char, ¬ EncodedAt text offset char) :
    next? text offset = some ⟨replacement, 1, true⟩ := by
  rw [next_eq_piece]
  cases read : piece? text offset with
  | none =>
      have ended : next? text offset = none := by rw [next_eq_piece, read]; rfl
      exact absurd (next_eq_none_iff.mp ended) (Nat.not_le.mpr inside)
  | some piece =>
      cases piece with
      | character char size => exact absurd (piece_eq_character_iff.mp read).1 (foreign char)
      | malformed size cut => rfl

/-- What a scanner reads is a character that is encoded there, or one byte that begins no encoding. -/
theorem next_cases {decoded : Decoded} (read : next? text offset = some decoded) :
    (∃ char, EncodedAt text offset char ∧ decoded = ⟨char, char.utf8Size, false⟩) ∨
      ((∀ char, ¬ EncodedAt text offset char) ∧ decoded = ⟨replacement, 1, true⟩) := by
  by_cases encoded : ∃ char, EncodedAt text offset char
  · rcases encoded with ⟨char, encoded⟩
    left
    rw [next_of_encodedAt encoded, Option.some.injEq] at read
    exact ⟨char, encoded, read.symm⟩
  · right
    have foreign := not_exists.mp encoded
    rw [next_of_not_encodedAt ?inside foreign, Option.some.injEq] at read
    · exact ⟨foreign, read.symm⟩
    case inside =>
      apply Nat.lt_of_not_le
      intro ended
      rw [next_eq_none_iff.mpr ended] at read
      cases read

end Pieces

/-! ## Whole texts -/

/-- A character as a scanner sees it, and the offset where it begins. -/
structure Reading extends Decoded where
  offset : Nat
  deriving DecidableEq, Repr

/-- The offsets of the bytes of a reading. -/
def Reading.bytes (reading : Reading) : List Nat := List.range' reading.offset reading.size

/-- All that is read of a text from an offset on. -/
def readings (text : Text) (offset : Nat) : List Reading :=
  match _read : next? text offset with
  | none => []
  | some decoded => ⟨decoded, offset⟩ :: readings text (offset + decoded.size)
termination_by text.size - offset
decreasing_by
  have spec := next_spec _read
  omega

section Readings

variable {text : Text} {offset : Nat}

theorem readings_of_none (ended : next? text offset = none) : readings text offset = [] := by
  rw [readings]
  split
  · rfl
  · rename_i read
    rw [ended] at read
    cases read

theorem readings_of_some {decoded : Decoded} (read : next? text offset = some decoded) :
    readings text offset = ⟨decoded, offset⟩ :: readings text (offset + decoded.size) := by
  rw [readings]
  split
  · rename_i ended
    rw [ended] at read
    cases read
  · rename_i other found
    rw [found, Option.some.injEq] at read
    rw [read]

/-- The readings share the bytes out: each is one of exactly one of them, in order. -/
theorem flatMap_bytes_readings (text : Text) (offset : Nat) :
    (readings text offset).flatMap Reading.bytes = List.range' offset (text.size - offset) := by
  fun_induction readings text offset with
  | case1 offset ended =>
      rw [Nat.sub_eq_zero_of_le (next_eq_none_iff.mp ended)]
      rfl
  | case2 offset decoded read ih =>
      have spec := next_spec read
      have rest : text.size - offset = decoded.size + (text.size - (offset + decoded.size)) := by
        omega
      rw [List.flatMap_cons, ih, Reading.bytes, List.range'_append_1, rest]

/-- Each reading is what is read at its offset. -/
theorem next_of_mem_readings {reading : Reading} (member : reading ∈ readings text offset) :
    next? text reading.offset = some reading.toDecoded := by
  fun_induction readings text offset with
  | case1 offset ended => cases member
  | case2 offset decoded read ih =>
      rcases List.mem_cons.mp member with rfl | later
      · exact read
      · exact ih later

/-- A byte within a character, its first one apart, is read alone. -/
theorem size_of_within {place : Nat} {whole decoded : Decoded}
    (read : next? text offset = some whole) (later : offset < place)
    (within : place < offset + whole.size) (again : next? text place = some decoded) :
    decoded.size = 1 := by
  have tail : ¬Interrupts text[place]? := by
    intro ends
    have split : place = offset + (place - offset) := by omega
    rw [split] at ends
    have short := size_le_of_interrupted (by omega) ends read
    omega
  simp only [Interrupts, not_forall, Bool.not_eq_false] at tail
  rcases tail with ⟨byte, found, continues⟩
  rcases isTail_iff.mp continues with ⟨above, below⟩
  have leads : lead? byte = none := if_pos (UInt8.lt_of_le_of_lt below (by decide))
  simp only [next?, piece?, found, if_neg (UInt8.not_lt.mpr above), leads, Option.some.injEq]
    at again
  rw [← again]

/-- The characters of a text are read off their encodings. -/
theorem readings_encode {chars : List Char} (encoded : text.toList.drop offset = encode chars) :
    (readings text offset).map Reading.toDecoded =
      chars.map fun char => ⟨char, char.utf8Size, false⟩ := by
  induction chars generalizing offset with
  | nil =>
      have ended : text.size ≤ offset := by simpa using List.drop_eq_nil_iff.mp encoded
      rw [readings_of_none (next_eq_none_iff.mpr ended)]
      rfl
  | cons char chars ih =>
      rw [encode_cons] at encoded
      have here : EncodedAt text offset char := by
        rw [EncodedAt, encoded]
        exact List.prefix_append _ _
      have later : text.toList.drop (offset + char.utf8Size) = encode chars := by
        rw [← List.drop_drop, encoded, ← String.length_utf8EncodeChar, List.drop_left]
      rw [readings_of_some (next_of_encodedAt here), List.map_cons, List.map_cons, ih later]

end Readings

/-- Decoding is exact. At an offset inside a text, the character is read whose encoding stands there,
with all of its bytes, and one byte as a replacement character if no encoding does. So the readings
of a text visit each byte once, give back the characters of a text that is their encoding, and show
no character but the replacement character that is not encoded where it is read. -/
theorem decoding_exact (text : Text) :
    (∀ offset < text.size,
      (∀ char, EncodedAt text offset char →
        next? text offset = some ⟨char, (String.utf8EncodeChar char).length, false⟩) ∧
      ((∀ char, ¬ EncodedAt text offset char) →
        next? text offset = some ⟨replacement, 1, true⟩)) ∧
    (readings text 0).flatMap Reading.bytes = List.range text.size ∧
    (∀ chars, text.toList = encode chars → (readings text 0).map Reading.toDecoded =
      chars.map fun char => ⟨char, char.utf8Size, false⟩) ∧
    ∀ reading ∈ readings text 0, next? text reading.offset = some reading.toDecoded ∧
      (reading.char ≠ replacement → EncodedAt text reading.offset reading.char) := by
  refine ⟨fun offset inside => ⟨fun char encoded => ?_, next_of_not_encodedAt inside⟩, ?_,
    fun chars encoded => readings_encode encoded, fun reading member => ?_⟩
  · rw [String.length_utf8EncodeChar]
    exact next_of_encodedAt encoded
  · rw [flatMap_bytes_readings, List.range_eq_range']
    rfl
  · have read := next_of_mem_readings member
    refine ⟨read, fun shown => ?_⟩
    rcases next_cases read with ⟨char, encoded, same⟩ | ⟨_, same⟩
    · rwa [same]
    · exact absurd (by rw [same]) shown

/-- The text holds a character of two bytes, a surrogate half and a character of ASCII. -/
theorem decoding_exact_surrogate :
    let text : Text := #[0xC3, 0xA9, 0xED, 0xA0, 0x80, 0x61]
    EncodedAt text 0 'é' ∧ next? text 0 = some ⟨'é', 2, false⟩ ∧
      (∀ char, ¬ EncodedAt text 2 char) ∧ next? text 2 = some ⟨replacement, 1, true⟩ ∧
      (readings text 0).flatMap Reading.bytes = [0, 1, 2, 3, 4, 5] ∧
      (⟨⟨'a', 1, false⟩, 5⟩ ∈ readings text 0 → EncodedAt text 5 'a') := by
  intro text
  have encoded : EncodedAt text 0 'é' := by decide +kernel
  have foreign : ∀ char, ¬ EncodedAt text 2 char := by
    intro char here
    have malformed : (next? text 2).map Decoded.malformed = some true := by decide +kernel
    rw [next_of_encodedAt here] at malformed
    cases malformed
  rcases decoding_exact text with ⟨at_, bytes, _, shown⟩
  exact ⟨encoded, (at_ 0 (by decide)).1 'é' encoded, foreign, (at_ 2 (by decide)).2 foreign, bytes,
    fun member => (shown _ member).2 (by decide)⟩

end Utf8

end Reparse
