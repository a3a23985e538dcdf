import Reparse.Proofs.Scanner.Faces
import Reparse.Proofs.Scanner.Runs
import Reparse.Proofs.Text.Exact

/-!
# Columns

A scanner counts the characters of its line by the bytes that begin one, while it reads every
malformed byte as a character of its own. The two counts part where such a byte could continue a
character: it is read, but not counted (`Utf8.Reading.IsStray`). So a column is the number of
characters that the scanner has passed on the line, less the stray bytes among them
(`Scanner.column_add_strays`), and one stray byte is enough to make a column wrong
(`Scanner.column_misses_stray`).
-/

namespace Reparse

theorem Text.stretch_append {text : Text} {start middle stop : Nat} (first : start ≤ middle)
    (last : middle ≤ stop) :
    text.stretch start middle ++ text.stretch middle stop = text.stretch start stop := by
  have front : text.stretch start middle = (text.stretch start stop).take (middle - start) := by
    rw [stretch, stretch, List.drop_take, List.drop_take, List.take_take, Nat.min_eq_left (by omega)]
  have back : text.stretch middle stop = (text.stretch start stop).drop (middle - start) := by
    rw [drop_stretch, Nat.add_sub_cancel' first]
  rw [front, back, List.take_append_drop]

namespace Utf8

/-! ## The bytes that begin a character -/

theorem isTail_six_bits : ∀ bits < 64, isTail (UInt8.ofNat (bits + 0x80)) = true := by
  decide +kernel

theorem isTail_outside : ∀ value < 256, value < 0x80 ∨ 0xC0 ≤ value →
    isTail (UInt8.ofNat value) = false := by
  decide +kernel

theorem countP_of_tails {first : UInt8} {rest : List UInt8} (begins : isTail first = false)
    (tails : ∀ byte ∈ rest, isTail byte = true) :
    (first :: rest).countP (fun byte => !isTail byte) = 1 := by
  have none : rest.countP (fun byte => !isTail byte) = 0 := by
    rw [List.countP_eq_zero]
    intro byte member
    simp [tails byte member]
  rw [List.countP_cons_of_pos (by simpa using begins), none]

/-- An encoding has one byte that begins a character. -/
theorem countP_utf8EncodeChar (char : Char) :
    (String.utf8EncodeChar char).countP (fun byte => !isTail byte) = 1 := by
  have valid := toNat_lt char
  have tail {bits : Nat} (few : bits < 64) := isTail_six_bits bits few
  by_cases one : char.toNat < 0x80
  · have value : char.val.toNat ≤ 127 := Nat.le_of_lt_succ one
    rw [String.utf8EncodeChar, if_pos value]
    exact countP_of_tails (isTail_outside char.toNat (by omega) (Or.inl one)) (by simp)
  by_cases two : char.toNat < 0x800
  · rw [utf8EncodeChar_two (by omega) two]
    apply countP_of_tails (isTail_outside _ (by omega) (by omega))
    simp only [List.forall_mem_cons]
    exact ⟨tail (by omega), by simp⟩
  by_cases three : char.toNat < 0x10000
  · rw [utf8EncodeChar_three (by omega) three]
    apply countP_of_tails (isTail_outside _ (by omega) (by omega))
    simp only [List.forall_mem_cons]
    exact ⟨tail (by omega), tail (by omega), by simp⟩
  · rw [utf8EncodeChar_four (by omega)]
    apply countP_of_tails (isTail_outside _ (by omega) (by omega))
    simp only [List.forall_mem_cons]
    exact ⟨tail (by omega), tail (by omega), tail (by omega), by simp⟩

theorem countCharacters_eq (text : Text) (start stop : Nat) :
    countCharacters text start stop =
      (text.stretch start stop).countP fun byte => !isTail byte := by
  rw [countCharacters, List.countP_eq_length_filter, ← Text.toList_extract_eq,
    ← Array.toList_filter, Array.length_toList]

theorem countCharacters_append (text : Text) {start middle stop : Nat} (first : start ≤ middle)
    (last : middle ≤ stop) :
    countCharacters text start stop =
      countCharacters text start middle + countCharacters text middle stop := by
  rw [countCharacters_eq, countCharacters_eq, countCharacters_eq, ← Text.stretch_append first last,
    List.countP_append]

theorem countCharacters_self (text : Text) (offset : Nat) :
    countCharacters text offset offset = 0 := by
  rw [countCharacters_eq, Text.stretch_eq_nil (Or.inl (Nat.le_refl _))]
  rfl

/-! ## Stray bytes -/

/-- A malformed byte that continues no character, although it could. -/
def Reading.IsStray (text : Text) (reading : Reading) : Prop :=
  reading.malformed = true ∧ ∃ byte, text[reading.offset]? = some byte ∧ isTail byte = true

instance (text : Text) (reading : Reading) : Decidable (reading.IsStray text) :=
  decidable_of_iff
    (reading.malformed = true ∧ (text[reading.offset]?).any isTail = true) <| by
      simp [Reading.IsStray, Option.any_eq_true]

/-- What is read is counted as one character, unless it is a stray byte. -/
theorem countCharacters_next {text : Text} {offset : Nat} {decoded : Decoded}
    (read : next? text offset = some decoded) :
    countCharacters text offset (offset + decoded.size) =
      if Reading.IsStray text ⟨decoded, offset⟩ then 0 else 1 := by
  rcases next_cases read with ⟨char, encoded, rfl⟩ | ⟨_, rfl⟩
  · have proper : ¬ Reading.IsStray text ⟨⟨char, char.utf8Size, false⟩, offset⟩ := by
      rintro ⟨malformed, _⟩
      cases malformed
    have stretch : text.stretch offset (offset + char.utf8Size) = String.utf8EncodeChar char := by
      rw [Text.stretch, List.drop_take, Nat.add_sub_cancel_left, ← String.length_utf8EncodeChar]
      exact (List.prefix_iff_eq_take.mp encoded).symm
    rw [if_neg proper, countCharacters_eq, stretch, countP_utf8EncodeChar]
  · have inside : offset < text.size := (next_spec read).2.1
    have stretch : text.stretch offset (offset + 1) = [text[offset]] := by
      rw [Text.stretch, List.drop_take, Nat.add_sub_cancel_left,
        List.drop_eq_getElem_cons (by rwa [Array.length_toList]), List.take_succ_cons,
        List.take_zero, Array.getElem_toList]
    have found : text[offset]? = some text[offset] := Array.getElem?_eq_getElem _
    rw [countCharacters_eq, stretch, List.countP_singleton]
    cases tail : isTail text[offset] with
    | true =>
        rw [if_pos (show Reading.IsStray text _ from ⟨rfl, _, found, tail⟩)]
        rfl
    | false =>
        have proper : ¬ Reading.IsStray text ⟨⟨replacement, 1, true⟩, offset⟩ := by
          rintro ⟨_, byte, here, continues⟩
          rw [found, Option.some.injEq] at here
          rw [← here, tail] at continues
          cases continues
        rw [if_neg proper]
        rfl

/-- The readings since the last line end. -/
def line (passed : List Reading) : List Reading :=
  (passed.reverse.takeWhile fun reading => reading.char ≠ '\n').reverse

theorem line_snoc (passed : List Reading) (reading : Reading) :
    line (passed ++ [reading]) =
      if reading.char = '\n' then [] else line passed ++ [reading] := by
  simp only [line, List.reverse_append, List.reverse_singleton, List.singleton_append,
    List.takeWhile_cons]
  split <;> simp_all

/-- What is read of a text up to a position, whose column is as many bytes as its line has: each
character of the line is counted but the stray bytes. -/
structure ReadUpTo (text : Text) (passed : List Reading) (position : Extent) : Prop where
  split : readings text 0 = passed ++ readings text position.bytes
  begun : position.point.column ≤ position.bytes
  counted : countCharacters text (position.bytes - position.point.column) position.bytes +
    (line passed).countP (·.IsStray text) = (line passed).length

theorem ReadUpTo.zero (text : Text) : ReadUpTo text [] Extent.zero :=
  ⟨rfl, Nat.le_refl 0, countCharacters_self text 0⟩

/-- One character further the line is one character longer, or begins anew. -/
theorem ReadUpTo.next {text : Text} {passed : List Reading} {position : Extent} {decoded : Decoded}
    (upTo : ReadUpTo text passed position) (read : next? text position.bytes = some decoded) :
    ReadUpTo text (passed ++ [⟨decoded, position.bytes⟩])
      (Scanner.past position decoded.char decoded.size) := by
  rcases upTo with ⟨split, begun, counted⟩
  rw [readings_of_some read] at split
  have onward : readings text 0 = (passed ++ [⟨decoded, position.bytes⟩]) ++
      readings text (position.bytes + decoded.size) := by
    rw [split, List.append_assoc, List.singleton_append]
  have lined := line_snoc passed ⟨decoded, position.bytes⟩
  unfold Scanner.past
  split
  · rename_i newline
    rw [if_pos newline] at lined
    refine ⟨onward, Nat.zero_le _, ?_⟩
    rw [lined, Nat.sub_zero, countCharacters_self]
    rfl
  · rename_i other
    rw [if_neg other] at lined
    refine ⟨onward, Nat.add_le_add_right begun _, ?_⟩
    dsimp only
    rw [lined, Nat.add_sub_add_right, List.countP_append, List.countP_singleton, List.length_append,
      List.length_singleton, ← counted, countCharacters_append text (Nat.sub_le _ _)
      (Nat.le_add_right _ _), countCharacters_next read]
    by_cases stray : Reading.IsStray text ⟨decoded, position.bytes⟩
    · rw [if_pos stray, if_pos (decide_eq_true stray)]
      omega
    · rw [if_neg stray, if_neg (by simpa using stray)]
      omega

end Utf8

namespace Scanner

open Utf8 (Reading ReadUpTo readings line)

variable {text : Text} {scanner other : Scanner}

/-- Every scanner of all of a text that scans come to. -/
inductive Moved (text : Text) : Scanner → Prop where
  | new : Moved text (Scanner.new text [Span.whole])
  | start {scanner : Scanner} (moved : Moved text scanner) : Moved text scanner.start
  | advance {scanner : Scanner} (moved : Moved text scanner) (skip : Bool) :
      Moved text (scanner.advance skip)

/-- The scanner has read the text up to its position, and what it has loaded comes next. -/
structure HasRead (text : Text) (scanner : Scanner) : Prop where
  text_eq : scanner.text = text
  single : scanner.ahead.length ≤ 1
  upTo : ∃ passed, ReadUpTo text passed scanner.position
  loaded : ∀ char size, scanner.loaded = some (char, size) → ∃ malformed,
    Utf8.next? text scanner.position.bytes = some ⟨char, size, malformed⟩

/-- One span or none leaves the position as it is. -/
theorem settle_single {position : Extent} {previous : Option Span} {ahead : List Span}
    (single : ahead.length ≤ 1) : ∃ last later,
      settle position previous ahead = (position, last, later) ∧ later.length ≤ 1 := by
  match ahead with
  | [] => exact ⟨previous, [], rfl, Nat.zero_le 1⟩
  | [span] =>
      rw [settle]
      split
      · exact ⟨previous, [span], rfl, Nat.le_refl 1⟩
      · exact ⟨some span, [], rfl, Nat.zero_le 1⟩

theorem hasRead_load (text_eq : scanner.text = text) (single : scanner.ahead.length ≤ 1)
    (upTo : ∃ passed, ReadUpTo text passed scanner.position) : scanner.load.HasRead text := by
  unfold Scanner.load
  cases read : Utf8.next? scanner.text scanner.position.bytes with
  | none => exact ⟨text_eq, Nat.zero_le 1, upTo, nofun⟩
  | some decoded =>
      refine ⟨text_eq, single, upTo, fun char size loaded => ⟨decoded.malformed, ?_⟩⟩
      rw [Option.some.injEq, Prod.mk.injEq] at loaded
      rw [← text_eq, ← loaded.1, ← loaded.2]
      exact read

/-- Where a step leads before the spans are looked at: behind the character that is loaded. A scanner
that was only placed has none, and stays. -/
def reached (scanner : Scanner) : Extent :=
  match scanner.loaded with
  | some (char, size) => past scanner.position char size
  | none => scanner.position

theorem step_eq_of_reached {position : Extent} {previous : Option Span} {ahead : List Span}
    (settles : settle scanner.reached scanner.previous scanner.ahead = (position, previous, ahead))
    (skip : Bool) :
    scanner.step skip =
      if ahead.isEmpty then
        { scanner with
          position, previous, ahead
          tokenStart := if skip then position else scanner.tokenStart
          loaded := none
          malformed := false }
      else
        ({ scanner with
          position, previous, ahead
          tokenStart := if skip then position else scanner.tokenStart } : Scanner).load := by
  unfold reached at settles
  cases shown : scanner.loaded with
  | none => rw [shown] at settles; simp only [step, shown, settles]
  | some pair => rw [shown] at settles; simp only [step, shown, settles]

theorem HasRead.reached (has : scanner.HasRead text) :
    ∃ passed, ReadUpTo text passed scanner.reached := by
  rcases has.upTo with ⟨passed, upTo⟩
  unfold Scanner.reached
  cases shown : scanner.loaded with
  | none => exact ⟨passed, upTo⟩
  | some pair =>
      rcases has.loaded pair.1 pair.2 shown with ⟨malformed, read⟩
      exact ⟨_, upTo.next read⟩

theorem HasRead.step (has : scanner.HasRead text) (skip : Bool) :
    (scanner.step skip).HasRead text := by
  rcases @settle_single scanner.reached scanner.previous _ has.single with
    ⟨last, later, settles, few⟩
  rw [step_eq_of_reached settles]
  split
  · exact ⟨has.text_eq, few, has.reached, nofun⟩
  · exact hasRead_load has.text_eq few has.reached

theorem Moved.hasRead (moved : Moved text scanner) : scanner.HasRead text := by
  induction moved with
  | new => exact ⟨rfl, Nat.le_refl 1, ⟨[], .zero text⟩, nofun⟩
  | @start scanner moved ih =>
      apply @start_induction scanner (HasRead text)
      · exact ⟨ih.text_eq, ih.single, ih.upTo, ih.loaded⟩
      · intro between has
        exact hasRead_load has.text_eq has.single has.upTo
      · intro between has
        exact has.step true
  | @advance scanner moved skip ih =>
      unfold Scanner.advance
      split
      · exact ih
      · have reported : (scanner.report (.passed skip scanner.lookahead)).HasRead text :=
          ⟨ih.text_eq, ih.single, ih.upTo, ih.loaded⟩
        exact reported.step skip

/-- The column of a scanner is the number of characters it has passed on the line, less the stray
bytes among them. So it is the number of these characters exactly where no byte on the line is
stray. -/
theorem column_add_strays (moved : Moved text scanner) :
    ∃ passed, readings text 0 = passed ++ readings text scanner.position.bytes ∧
      scanner.column + (line passed).countP (·.IsStray text) = (line passed).length ∧
      (scanner.column = (line passed).length ↔
        ∀ reading ∈ line passed, ¬ reading.IsStray text) := by
  have has := moved.hasRead
  rcases has.upTo with ⟨passed, upTo⟩
  have counted : scanner.column + (line passed).countP (·.IsStray text) =
      (line passed).length := by
    rw [Scanner.column, has.text_eq]
    exact upTo.counted
  refine ⟨passed, upTo.split, counted, ?_⟩
  have none : (line passed).countP (·.IsStray text) = 0 ↔
      ∀ reading ∈ line passed, ¬ reading.IsStray text := by
    simp [List.countP_eq_zero]
  rw [← none]
  omega

/-- Behind a line end and a character of two bytes stands a byte that no text may hold. -/
theorem column_add_strays_unpaired :
    let text : Text := #[0x0A, 0xC3, 0xA9, 0xFF, 0x62]
    let scanner :=
      ((((Scanner.new text [Span.whole]).start.advance false).advance true).advance false)
    Moved text scanner ∧ scanner.position.bytes = 4 ∧
      ∃ passed, readings text 0 = passed ++ readings text 4 ∧
        scanner.column + (line passed).countP (·.IsStray text) = (line passed).length ∧
        (scanner.column = (line passed).length ↔
          ∀ reading ∈ line passed, ¬ reading.IsStray text) := by
  intro text scanner
  have moved : Moved text scanner := .advance (.advance (.advance (.start .new) false) true) false
  have stands : scanner.position.bytes = 4 := by decide +kernel
  refine ⟨moved, stands, ?_⟩
  have spec := column_add_strays moved
  rwa [stands] at spec

/-- The byte 0x80 begins no character and is read as one, but the column behind it is zero. -/
theorem column_misses_stray :
    let text : Text := #[0x80, 0x61]
    let scanner := (Scanner.new text [Span.whole]).start.advance false
    let stray : Reading := ⟨⟨Utf8.replacement, 1, true⟩, 0⟩
    Moved text scanner ∧ scanner.lookahead = 'a' ∧
      readings text 0 = [stray] ++ readings text scanner.position.bytes ∧
      (line [stray]).length = 1 ∧ scanner.column = 0 := by
  intro text scanner stray
  have stands : scanner.lookahead = 'a' ∧ scanner.position.bytes = 1 ∧ scanner.column = 0 := by
    decide +kernel
  have read : Utf8.next? text 0 = some stray.toDecoded := by decide +kernel
  refine ⟨.advance (.start .new) false, stands.1, ?_, by decide, stands.2.2⟩
  rw [stands.2.1, Utf8.readings_of_some read]
  rfl

end Scanner

end Reparse
