import Mathlib.Algebra.Ring.Nat
import Reparse.Proofs.Text.Width
import Reparse.Text.Utf8

/-!
# What a decoded character tells about its bytes

A character that a scanner reads lies within the text and has at least one byte. A byte below 128 is
a character of its own, and no other character has one among its bytes or is any of them
(`Utf8.Foreign`). So what is read at an offset depends on no byte beyond the next one of this kind
(`Utf8.next_congr`).
-/

namespace Reparse

namespace Utf8

/-- A byte that is missing or a character of its own ends every other character before it. -/
def Ends (byte : Option UInt8) : Prop := ∀ value, byte = some value → value < 0x80

/-- A byte that is missing or continues no character interrupts every character before it. -/
def Interrupts (byte : Option UInt8) : Prop := ∀ value, byte = some value → isTail value = false

/-- What was checked of 256 numbers holds of every byte. -/
theorem of_bytes {property : UInt8 → Prop} (checked : ∀ value < 256, property (UInt8.ofNat value))
    (byte : UInt8) : property byte := by
  have spec := checked byte.toNat byte.toNat_lt
  rwa [UInt8.ofNat_toNat] at spec

theorem isTail_iff {byte : UInt8} : isTail byte = true ↔ 0x80 ≤ byte ∧ byte ≤ 0xBF :=
  @of_bytes (fun byte => isTail byte = true ↔ 0x80 ≤ byte ∧ byte ≤ 0xBF) (by decide +kernel) byte

theorem Ends.interrupts {byte : Option UInt8} (ends : Ends byte) : Interrupts byte := by
  intro value same
  have low := ends value same
  cases tail : isTail value with
  | false => rfl
  | true => exact absurd low (UInt8.not_lt.mpr (isTail_iff.mp tail).1)

/-- The character that a scanner reads of a piece. -/
def Piece.decoded : Piece → Decoded
  | character char size => ⟨char, size, false⟩
  | malformed _ _ => ⟨replacement, 1, true⟩

theorem next_eq_piece (text : Text) (offset : Nat) :
    next? text offset = (piece? text offset).map Piece.decoded := by
  unfold next?
  cases piece? text offset with
  | none => rfl
  | some piece => cases piece <;> rfl

/-- A character that no byte below 128 stands for, or what an encoding of no character gives. -/
def Foreign (char : Char) : Prop := 0x80 ≤ char.toNat ∨ char.toNat = 0

/-! ## Lead bytes and the bytes after them -/

/-- What was checked of 256 numbers holds of every lead byte. -/
theorem of_leads {property : UInt8 → Lead → Bool}
    (checked : ∀ value < 256,
      (lead? (UInt8.ofNat value)).all (property (UInt8.ofNat value)) = true)
    {byte : UInt8} {lead : Lead} (leads : lead? byte = some lead) : property byte lead = true := by
  have spec := @of_bytes (fun byte => (lead? byte).all (property byte) = true) checked byte
  rwa [leads] at spec

theorem lead_spec {byte : UInt8} {lead : Lead} (leads : lead? byte = some lead) :
    0x80 ≤ lead.low ∧ ∃ count, lead.tails = count + 1 ∧
      128 ≤ (lead.bits * 64 + (lead.low.toNat - 0x80)) * 64 ^ count := by
  have spec := @of_leads (fun _ lead => decide (0x80 ≤ lead.low ∧ 1 ≤ lead.tails ∧
    128 ≤ (lead.bits * 64 + (lead.low.toNat - 0x80)) * 64 ^ (lead.tails - 1)))
    (by decide +kernel) byte lead leads
  rcases of_decide_eq_true spec with ⟨low, inhabited, wide⟩
  exact ⟨low, lead.tails - 1, by omega, wide⟩

theorem lead_bounds {byte : UInt8} {lead : Lead} (leads : lead? byte = some lead) :
    0x80 ≤ lead.low ∧ lead.high ≤ 0xBF :=
  of_decide_eq_true (@of_leads (fun _ lead => decide (0x80 ≤ lead.low ∧ lead.high ≤ 0xBF))
    (by decide +kernel) byte lead leads)

section Tails

variable {text : Text} {low high : UInt8} {code size offset : Nat}

theorem tails_of_interrupted {count place : Nat} (above : 0x80 ≤ low) (below : high ≤ 0xBF)
    (interrupts : Interrupts text[place]?) :
    (tails text (count + 1) low high code size place).decoded = ⟨replacement, 1, true⟩ := by
  rw [tails]
  cases found : text[place]? with
  | none => rfl
  | some byte =>
      dsimp only
      split
      · rename_i within
        have tail := isTail_iff.mpr ⟨UInt8.le_trans above within.1, UInt8.le_trans within.2 below⟩
        rw [interrupts byte found] at tail
        cases tail
      · rfl

theorem tails_character {count : Nat} {char : Char} {total : Nat} (above : 0x80 ≤ low)
    (read : tails text (count + 1) low high code size offset = .character char total) :
    total = size + (count + 1) ∧
      (∀ index < count + 1, ∃ byte, text[offset + index]? = some byte ∧ 0x80 ≤ byte) ∧
      ∃ value, char = Char.ofNat value ∧
        (code * 64 + (low.toNat - 0x80)) * 64 ^ count ≤ value := by
  induction count generalizing low high code size offset with
  | zero =>
      rw [tails] at read
      split at read
      · cases read
      · rename_i byte found
        split at read
        · rename_i within
          rw [tails, Piece.character.injEq] at read
          refine ⟨read.2.symm, ?_, _, read.1.symm, ?_⟩
          · intro index first
            obtain rfl : index = 0 := by omega
            exact ⟨byte, found, UInt8.le_trans above within.1⟩
          · have := UInt8.le_iff_toNat_le.mp within.1
            omega
        · cases read
  | succ count ih =>
      rw [tails] at read
      split at read
      · cases read
      · rename_i byte found
        split at read
        · rename_i within
          rcases ih (by decide) read with ⟨length, bytes, value, same, large⟩
          refine ⟨by omega, ?_, value, same, Nat.le_trans ?_ large⟩
          · intro index inside
            cases index with
            | zero => exact ⟨byte, found, UInt8.le_trans above within.1⟩
            | succ index =>
                rcases bytes index (by omega) with ⟨other, there, high⟩
                refine ⟨other, ?_, high⟩
                rw [← there]
                congr 1
                omega
          · have least := UInt8.le_iff_toNat_le.mp within.1
            rw [Nat.pow_succ, Nat.mul_comm (64 ^ count), ← Nat.mul_assoc]
            apply Nat.mul_le_mul_right
            omega
        · cases read

/-- What is read after a lead byte depends on no byte from the first one on that continues no
character, except for whether the text is cut off there. -/
theorem decoded_tails_congr {other : Text} {place count length : Nat} (above : 0x80 ≤ low)
    (below : high ≤ 0xBF)
    (same : ∀ index < length, text[offset + index]? = other[place + index]?)
    (ends : Interrupts text[offset + length]?) (stops : Interrupts other[place + length]?) :
    (tails text count low high code size offset).decoded =
      (tails other count low high code size place).decoded := by
  induction count generalizing low high code size offset place length with
  | zero => rfl
  | succ count ih =>
      cases length with
      | zero =>
          rw [Nat.add_zero] at ends stops
          rw [tails_of_interrupted above below ends, tails_of_interrupted above below stops]
      | succ length =>
          have here := same 0 (Nat.succ_pos _)
          rw [Nat.add_zero, Nat.add_zero] at here
          rw [tails, tails, here]
          cases other[place]? with
          | none => rfl
          | some byte =>
              dsimp only
              split
              · refine @ih _ _ _ _ _ _ length (by decide) (by decide) (fun index inside => ?_) ?_ ?_
                · have next := same (index + 1) (by omega)
                  rw [Nat.add_assoc, Nat.add_comm 1, Nat.add_assoc, Nat.add_comm 1]
                  exact next
                · rw [Nat.add_assoc, Nat.add_comm 1]
                  exact ends
                · rw [Nat.add_assoc, Nat.add_comm 1]
                  exact stops
              · rfl

end Tails

/-! ## Characters -/

theorem toNat_ofNat_of_valid {value : Nat} (valid : value.isValidChar) :
    (Char.ofNat value).toNat = value := by
  rw [Char.ofNat, dif_pos valid]
  rfl

theorem toNat_ofNat_of_small {value : Nat} (small : value < 0x80) :
    (Char.ofNat value).toNat = value :=
  toNat_ofNat_of_valid (Or.inl (by omega))

theorem foreign_ofNat {value : Nat} (large : 0x80 ≤ value) : Foreign (Char.ofNat value) := by
  by_cases valid : value.isValidChar
  · left
    rw [toNat_ofNat_of_valid valid]
    exact large
  · right
    simp [Char.ofNat, valid]

section Next

variable {text : Text} {offset : Nat} {decoded : Decoded}

theorem next_eq_none_iff : next? text offset = none ↔ text.size ≤ offset := by
  rw [← Array.getElem?_eq_none_iff]
  unfold next? piece?
  cases text[offset]? with
  | none => simp
  | some byte =>
      simp only [reduceCtorEq, iff_false]
      split
      · rename_i missing
        split at missing
        · cases missing
        · split at missing <;> cases missing
      · nofun
      · nofun

theorem next_of_ascii {byte : UInt8} (found : text[offset]? = some byte) (ascii : byte < 0x80) :
    next? text offset = some ⟨Char.ofNat byte.toNat, 1, false⟩ := by
  simp [next?, piece?, found, ascii]

/-- A character read is a byte below 128, or foreign to such bytes and made of others. -/
theorem next_spec (read : next? text offset = some decoded) :
    1 ≤ decoded.size ∧ offset + decoded.size ≤ text.size ∧
      ((∃ byte, text[offset]? = some byte ∧ byte < 0x80 ∧
          decoded = ⟨Char.ofNat byte.toNat, 1, false⟩) ∨
        (Foreign decoded.char ∧
          ∀ index < decoded.size, ∃ byte, text[offset + index]? = some byte ∧ 0x80 ≤ byte)) := by
  cases found : text[offset]? with
  | none => simp [next?, piece?, found] at read
  | some byte =>
      have inside : offset < text.size := by
        apply Nat.lt_of_not_le
        intro outside
        rw [Array.getElem?_eq_none outside] at found
        cases found
      by_cases ascii : byte < 0x80
      · rw [next_of_ascii found ascii, Option.some.injEq] at read
        subst read
        exact ⟨Nat.le_refl _, inside, Or.inl ⟨byte, rfl, ascii, rfl⟩⟩
      · have high : 0x80 ≤ byte := UInt8.not_lt.mp ascii
        have malformed : Foreign replacement := Or.inl (by decide)
        have alone : ∀ index < 1, ∃ byte, text[offset + index]? = some byte ∧ 0x80 ≤ byte := by
          intro index first
          obtain rfl : index = 0 := by omega
          exact ⟨byte, found, high⟩
        simp only [next?, piece?, found, if_neg ascii] at read
        cases leads : lead? byte with
        | none =>
            simp only [leads, Option.some.injEq] at read
            subst read
            exact ⟨Nat.le_refl _, inside, Or.inr ⟨malformed, alone⟩⟩
        | some lead =>
            rcases lead_spec leads with ⟨above, count, length, large⟩
            simp only [leads, length] at read
            cases after : tails text (count + 1) lead.low lead.high lead.bits 1 (offset + 1) with
            | malformed size cut =>
                simp only [after, Option.some.injEq] at read
                subst read
                exact ⟨Nat.le_refl _, inside, Or.inr ⟨malformed, alone⟩⟩
            | character char size =>
                simp only [after, Option.some.injEq] at read
                subst read
                rcases tails_character above after with ⟨total, bytes, value, same, least⟩
                have all : ∀ index < size,
                    ∃ byte, text[offset + index]? = some byte ∧ 0x80 ≤ byte := by
                  intro index within
                  cases index with
                  | zero => exact ⟨byte, found, high⟩
                  | succ index =>
                      rcases bytes index (by omega) with ⟨other, there, high⟩
                      refine ⟨other, ?_, high⟩
                      rw [← there]
                      congr 1
                      omega
                refine ⟨by dsimp only; omega, ?_, Or.inr ⟨?_, all⟩⟩
                · rcases all (size - 1) (by omega) with ⟨last, there, _⟩
                  have bound : offset + (size - 1) < text.size := by
                    apply Nat.lt_of_not_le
                    intro outside
                    rw [Array.getElem?_eq_none outside] at there
                    cases there
                  dsimp only
                  omega
                · rw [same]
                  exact foreign_ofNat (Nat.le_trans large least)

/-- What is read depends on no byte from the first one on that continues no character. -/
theorem next_of_interrupted {other : Text} {place length : Nat} (inhabited : 0 < length)
    (same : ∀ index < length, text[offset + index]? = other[place + index]?)
    (ends : Interrupts text[offset + length]?) (stops : Interrupts other[place + length]?) :
    next? text offset = next? other place := by
  have here := same 0 inhabited
  rw [Nat.add_zero, Nat.add_zero] at here
  rw [next_eq_piece, next_eq_piece]
  unfold piece?
  rw [here]
  cases other[place]? with
  | none => rfl
  | some byte =>
      by_cases ascii : byte < 0x80
      · simp [ascii]
      · simp only [if_neg ascii]
        cases leads : lead? byte with
        | none => rfl
        | some lead =>
            simp only [Option.map_some, Option.some.injEq]
            have bounds := lead_bounds leads
            refine @decoded_tails_congr text _ _ _ _ _ other _ _ (length - 1) bounds.1 bounds.2
              (fun index inside => ?_) ?_ ?_
            · have next := same (index + 1) (by omega)
              rw [Nat.add_assoc, Nat.add_comm 1, Nat.add_assoc, Nat.add_comm 1]
              exact next
            · have rest : offset + 1 + (length - 1) = offset + length := by omega
              rw [rest]
              exact ends
            · have rest : place + 1 + (length - 1) = place + length := by omega
              rw [rest]
              exact stops

/-- What is read depends on no byte beyond one that ends every character. -/
theorem next_congr {other : Text} {place length : Nat}
    (same : ∀ index ≤ length, text[offset + index]? = other[place + index]?)
    (ends : Ends text[offset + length]?) : next? text offset = next? other place := by
  have last := same length (Nat.le_refl _)
  cases length with
  | zero =>
      rw [Nat.add_zero, Nat.add_zero] at last
      rw [Nat.add_zero] at ends
      cases found : text[offset]? with
      | none => simp [next?, piece?, found, ← last]
      | some byte =>
          have ascii := ends byte found
          rw [next_of_ascii found ascii, next_of_ascii (last ▸ found) ascii]
  | succ length =>
      have interrupts := ends.interrupts
      apply next_of_interrupted (Nat.succ_pos length) (fun index inside => ?_) interrupts
      · rw [← last]
        exact interrupts
      · exact same index (Nat.le_of_lt inside)

/-- A character does not reach beyond a byte that continues no character. -/
theorem size_le_of_interrupted {length : Nat} (inhabited : 0 < length)
    (ends : Interrupts text[offset + length]?) (read : next? text offset = some decoded) :
    decoded.size ≤ length := by
  have short : next? (text.extract 0 (offset + length)) offset = some decoded := by
    rw [← read]
    refine (next_of_interrupted inhabited (fun index inside => ?_) ends ?_).symm
    · rw [Array.getElem?_extract]
      simp
      omega
    · intro value found
      have outside : (text.extract 0 (offset + length)).size ≤ offset + length := by
        simp only [Array.size_extract]
        omega
      rw [Array.getElem?_eq_none outside] at found
      cases found
  have bound := (next_spec short).2.1
  simp only [Array.size_extract] at bound
  omega

end Next

/-- Texts that are alike in a stretch read alike, as far as a byte is known to end a character. -/
theorem next_of_mirrors {text other : Text} {source target bound : Nat}
    (mirrors : text.Mirrors other source target bound) {place stop image : Nat}
    (begun : source ≤ place) (before : place ≤ stop) (inside : stop ≤ bound)
    (ends : Ends text[stop]?) (moved : image + source = place + target) :
    next? other image = next? text place := by
  have length : place + (stop - place) = stop := by omega
  rw [← length] at ends
  refine (next_congr (fun index within => ?_) ends).symm
  symm
  apply mirrors <;> omega

end Utf8

end Reparse
