import Reparse.Proofs.Edit.Unchanged
import Reparse.Proofs.Text.Decode

/-!
# How far a reading looks

What is read at an offset depends on at most four bytes, and a character on its own bytes only. The
first byte of a character continues no other one, so it also ends what was read before it. Where two
texts agree up to a character and over all of its bytes, or a few bytes beyond a malformed one, they
therefore read alike up to there (`Text.Agree.next_eq`).
-/

namespace Reparse

namespace Utf8

variable {text other : Text} {offset place : Nat}

/-- No character has more than three bytes after its lead byte. -/
theorem tails_lead_le {byte : UInt8} {lead : Lead} (leads : lead? byte = some lead) :
    lead.tails ≤ 3 :=
  of_decide_eq_true (@of_leads (fun _ lead => decide (lead.tails ≤ 3)) (by decide +kernel) byte lead
    leads)

theorem tails_congr {low high : UInt8} {code size count : Nat}
    (same : ∀ index < count, text[offset + index]? = other[place + index]?) :
    tails text count low high code size offset = tails other count low high code size place := by
  induction count generalizing low high code size offset place with
  | zero => rfl
  | succ count ih =>
      have here : text[offset]? = other[place]? := same 0 (Nat.succ_pos count)
      have later : ∀ index < count, text[offset + 1 + index]? = other[place + 1 + index]? := by
        intro index inside
        have next := same (index + 1) (Nat.succ_lt_succ inside)
        rwa [Nat.add_comm index, ← Nat.add_assoc, ← Nat.add_assoc] at next
      simp only [tails, here]
      split
      · rfl
      · split
        · exact ih later
        · rfl

/-- What a lead byte begins depends on no more bytes than it asks for. -/
theorem next_of_tails {byte : UInt8} {lead : Lead} (found : text[offset]? = some byte)
    (leads : lead? byte = some lead)
    (same : ∀ index < lead.tails + 1, text[offset + index]? = other[place + index]?) :
    next? text offset = next? other place := by
  have here : other[place]? = some byte := by
    rw [← found]
    exact (same 0 (Nat.succ_pos _)).symm
  have later : ∀ index < lead.tails, text[offset + 1 + index]? = other[place + 1 + index]? := by
    intro index inside
    have next := same (index + 1) (Nat.succ_lt_succ inside)
    rwa [Nat.add_comm index, ← Nat.add_assoc, ← Nat.add_assoc] at next
  simp only [next?, piece?, found, here, leads, tails_congr later]

/-- What is read depends on at most four bytes. -/
theorem next_of_four (same : ∀ index < 4, text[offset + index]? = other[place + index]?) :
    next? text offset = next? other place := by
  have here : text[offset]? = other[place]? := same 0 (by decide)
  cases found : text[offset]? with
  | none =>
      rw [found] at here
      simp [next?, piece?, found, ← here]
  | some byte =>
      cases leads : lead? byte with
      | none =>
          rw [found] at here
          simp [next?, piece?, found, ← here, leads]
      | some lead =>
          have few := tails_lead_le leads
          exact next_of_tails found leads fun index inside => same index (by omega)

/-- A character that is read is a byte below 128, or a lead byte and what it asks for. -/
theorem next_character {decoded : Decoded} (read : next? text offset = some decoded)
    (proper : decoded.malformed = false) :
    ∃ byte, text[offset]? = some byte ∧
      (byte < 0x80 ∧ decoded.size = 1 ∨
        ∃ lead, lead? byte = some lead ∧ decoded.size = lead.tails + 1) := by
  cases found : text[offset]? with
  | none => simp [next?, piece?, found] at read
  | some byte =>
      refine ⟨byte, rfl, ?_⟩
      by_cases ascii : byte < 0x80
      · left
        rw [next_of_ascii found ascii, Option.some.injEq] at read
        exact ⟨ascii, read ▸ rfl⟩
      · right
        simp only [next?, piece?, found, if_neg ascii] at read
        cases leads : lead? byte with
        | none =>
            simp only [leads, Option.some.injEq] at read
            rw [← read] at proper
            cases proper
        | some lead =>
            refine ⟨lead, rfl, ?_⟩
            rcases lead_spec leads with ⟨above, count, length, _⟩
            simp only [leads, length] at read
            cases after : tails text (count + 1) lead.low lead.high lead.bits 1 (offset + 1) with
            | malformed size cut =>
                simp only [after, Option.some.injEq] at read
                rw [← read] at proper
                cases proper
            | character char size =>
                simp only [after, Option.some.injEq] at read
                have total := (tails_character above after).1
                rw [← read, length]
                exact total.trans (Nat.add_comm _ _)

/-- A character depends on its own bytes only. -/
theorem next_of_character {decoded : Decoded} (read : next? text offset = some decoded)
    (proper : decoded.malformed = false)
    (same : ∀ index < decoded.size, text[offset + index]? = other[place + index]?) :
    next? other place = some decoded := by
  rcases next_character read proper with ⟨byte, found, ⟨ascii, size⟩ | ⟨lead, leads, size⟩⟩
  · have here : other[place]? = some byte := by
      rw [← found]
      exact (same 0 (by omega)).symm
    rw [← read, next_of_ascii found ascii, next_of_ascii here ascii]
  · rw [size] at same
    rw [← read]
    exact (next_of_tails found leads same).symm

/-- A lead byte continues no character. -/
theorem isTail_of_lead {byte : UInt8} {lead : Lead} (leads : lead? byte = some lead) :
    isTail byte = false := by
  have spec := @of_leads (fun byte _ => !isTail byte) (by decide +kernel) byte lead leads
  simpa only [Bool.not_eq_true'] using spec

/-- Where a character begins, and at the end of the text, every character before it has ended. -/
theorem interrupts_of_next (proper : ∀ decoded, next? text offset = some decoded →
    decoded.malformed = false) : Interrupts text[offset]? := by
  intro value found
  cases read : next? text offset with
  | none =>
      have outside := next_eq_none_iff.mp read
      rw [Array.getElem?_eq_none outside] at found
      cases found
  | some decoded =>
      rcases next_character read (proper decoded read) with
        ⟨byte, here, ⟨ascii, _⟩ | ⟨lead, leads, _⟩⟩
      · have low : Ends text[offset]? := by
          intro other there
          rw [here, Option.some.injEq] at there
          exact there ▸ ascii
        exact low.interrupts value found
      · rw [here, Option.some.injEq] at found
        exact found ▸ isTail_of_lead leads

/-- The number of bytes that what is read at an offset may depend on: the bytes of a character, five
from a malformed byte on, and the end of the text counts as a byte. -/
def sight (text : Text) (offset : Nat) : Nat :=
  match next? text offset with
  | none => 1
  | some decoded => if decoded.malformed then 5 else decoded.size

theorem sight_of_end (ended : next? text offset = none) : sight text offset = 1 := by
  simp only [sight, ended]

theorem sight_of_read {decoded : Decoded} (read : next? text offset = some decoded) :
    sight text offset = if decoded.malformed then 5 else decoded.size := by
  simp only [sight, read]

theorem sight_pos (text : Text) (offset : Nat) : 0 < sight text offset := by
  unfold sight
  split
  · exact Nat.one_pos
  · rename_i decoded read
    have positive := (next_spec read).1
    split <;> omega

end Utf8

namespace Text.Agree

variable {text other : Text} {place otherPlace reach : Nat}

theorem mono (agree : text.Agree other place otherPlace reach) {less : Nat} (within : less ≤ reach) :
    text.Agree other place otherPlace less :=
  fun step inside => agree step (Nat.lt_of_lt_of_le inside within)

/-- Texts that have both ended agree from there on. -/
theorem of_ended (agree : text.Agree other place otherPlace reach) {last : Nat} (within : last < reach)
    (ended : text.size ≤ place + last) (further : Nat) :
    text.Agree other place otherPlace further := by
  have otherEnded : other.size ≤ otherPlace + last := by
    have final := agree last within
    rwa [Array.getElem?_eq_none ended, Array.getElem?_eq_none_iff] at final
  intro step _
  by_cases inside : step < reach
  · exact agree step inside
  · rw [Array.getElem?_eq_none (by omega), Array.getElem?_eq_none (by omega)]

/-- Texts that agree as far as a reading at `last` looks read alike up to there. -/
theorem next_eq {last : Nat}
    (agree : text.Agree other place otherPlace (last + Utf8.sight text (place + last))) {step : Nat}
    (until_ : step ≤ last) :
    Utf8.next? other (otherPlace + step) = Utf8.next? text (place + step) := by
  have bytes : ∀ step length, step + length ≤ last + Utf8.sight text (place + last) →
      ∀ index < length, text[place + step + index]? = other[otherPlace + step + index]? := by
    intro step length within index inside
    rw [Nat.add_assoc, Nat.add_assoc]
    exact (agree (step + index) (by omega)).symm
  by_cases malformed : ∃ decoded, Utf8.next? text (place + last) = some decoded ∧
      decoded.malformed = true
  · rcases malformed with ⟨decoded, read, malformed⟩
    have wide : Utf8.sight text (place + last) = 5 := by
      simp [Utf8.sight_of_read read, malformed]
    rw [wide] at bytes
    exact (Utf8.next_of_four (bytes step 4 (by omega))).symm
  · have proper : ∀ decoded, Utf8.next? text (place + last) = some decoded →
        decoded.malformed = false := by
      intro decoded read
      cases flag : decoded.malformed with
      | false => rfl
      | true => exact absurd ⟨decoded, read, flag⟩ malformed
    have interrupts := Utf8.interrupts_of_next proper
    have final : text[place + last]? = other[otherPlace + last]? :=
      (agree last (Nat.lt_add_of_pos_right (Utf8.sight_pos text _))).symm
    rcases Nat.lt_or_eq_of_le until_ with before | rfl
    · have stands : place + step + (last - step) = place + last := by omega
      have otherStands : otherPlace + step + (last - step) = otherPlace + last := by omega
      symm
      apply Utf8.next_of_interrupted (Nat.sub_pos_of_lt before)
      · exact bytes step (last - step) (by omega)
      · rw [stands]
        exact interrupts
      · rw [otherStands, ← final]
        exact interrupts
    · cases read : Utf8.next? text (place + step) with
      | none =>
          rw [Utf8.next_eq_none_iff] at read ⊢
          rwa [Array.getElem?_eq_none read, eq_comm, Array.getElem?_eq_none_iff] at final
      | some decoded =>
          have size : Utf8.sight text (place + step) = decoded.size := by
            simp [Utf8.sight_of_read read, proper decoded read]
          rw [size] at bytes
          exact Utf8.next_of_character read (proper decoded read)
            (bytes step decoded.size (Nat.le_refl _))

end Text.Agree

end Reparse
