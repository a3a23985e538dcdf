import Reparse.Proofs.Scanner.Runs
import Reparse.Proofs.Text.Decode
import Reparse.Proofs.Text.Width

/-!
# A scanner that sees all of a text

Without included spans a scanner sees the text as it is: its position is the place of an offset, and
what it has loaded is the character there. `Scanner.Placed` holds of every scanner that was moved to
an offset, `Scanner.Reads` of one that has read the character there, and `Scanner.Scans` of one that
is at work on a token. The text has to be shorter than the largest offset, since a position there
means the end of everything.
-/

namespace Reparse

namespace Scanner

variable {text : Text} {offset further : Nat} {scanner other reached : Scanner}

/-! ## Where a scanner stands -/

/-- A scanner of a whole text is at an offset. -/
structure Standing (text : Text) (offset : Nat) (scanner : Scanner) : Prop where
  text_eq : scanner.text = text
  spans_eq : scanner.spans = [Span.whole]
  previous_eq : scanner.previous = none
  position_eq : scanner.position = text.place offset
  inside : offset ≤ text.size

/-- The scanner has read what is at the offset. -/
structure Reads (text : Text) (offset : Nat) (scanner : Scanner) : Prop
    extends Standing text offset scanner where
  loaded_eq : scanner.loaded = (Utf8.next? text offset).map fun decoded =>
    (decoded.char, decoded.size)
  ahead_eq : scanner.ahead = if (Utf8.next? text offset).isSome then [Span.whole] else []

/-- The scanner has read what is at the offset, or has just been moved there. -/
def Placed (text : Text) (offset : Nat) (scanner : Scanner) : Prop :=
  scanner.Reads text offset ∨
    (scanner.Standing text offset ∧ scanner.ahead = [Span.whole] ∧ scanner.loaded = none)

theorem Placed.standing (placed : scanner.Placed text offset) : scanner.Standing text offset := by
  rcases placed with reads | ⟨standing, _⟩
  · exact reads.toStanding
  · exact standing

theorem Standing.bytes_position (standing : scanner.Standing text offset) :
    scanner.position.bytes = offset := by
  rw [standing.position_eq, Text.bytes_place]

theorem Standing.of_samePlace (standing : scanner.Standing text offset)
    (same : scanner.SamePlace other) : other.Standing text offset where
  text_eq := same.text_eq.trans standing.text_eq
  spans_eq := same.spans_eq.trans standing.spans_eq
  previous_eq := same.previous_eq.trans standing.previous_eq
  position_eq := same.position_eq.trans standing.position_eq
  inside := standing.inside

theorem Reads.of_samePlace (reads : scanner.Reads text offset) (same : scanner.SamePlace other)
    (loaded_eq : other.loaded = scanner.loaded) : other.Reads text offset :=
  ⟨reads.toStanding.of_samePlace same, loaded_eq.trans reads.loaded_eq,
    same.ahead_eq.trans reads.ahead_eq⟩

theorem Placed.of_samePlace (placed : scanner.Placed text offset) (same : scanner.SamePlace other)
    (loaded_eq : other.loaded = scanner.loaded) : other.Placed text offset := by
  rcases placed with reads | ⟨standing, ahead, unread⟩
  · exact Or.inl (reads.of_samePlace same loaded_eq)
  · exact Or.inr ⟨standing.of_samePlace same, same.ahead_eq.trans ahead, loaded_eq.trans unread⟩

theorem placed_goTo (short : text.size < maxOffset) (sees : scanner.text = text)
    (spans : scanner.spans = [Span.whole]) (inside : offset ≤ text.size) :
    (scanner.goTo (text.place offset)).Placed text offset := by
  have before : offset < Span.whole.stop.bytes := Nat.lt_of_le_of_lt inside short
  have inhabited : Span.whole.start.bytes < Span.whole.stop.bytes := by decide
  have found : locate (text.place offset) none [Span.whole] = (none, [Span.whole]) := by
    simp [locate, before, inhabited]
  right
  unfold goTo
  rw [spans, found]
  refine ⟨⟨sees, rfl, rfl, ?_, inside⟩, rfl, rfl⟩
  have start : Span.whole.start = text.place 0 := rfl
  simp only [Text.bytes_place, start]
  split
  · rename_i least
    obtain rfl : offset = 0 := Nat.le_zero.mp least
    rfl
  · rfl

theorem Placed.reset {here : Nat} (short : text.size < maxOffset)
    (placed : scanner.Placed text here) (inside : offset ≤ text.size) :
    (scanner.reset (text.place offset)).Placed text offset := by
  have standing := placed.standing
  unfold Scanner.reset
  split
  · rename_i same
    rw [standing.bytes_position, Text.bytes_place] at same
    subst same
    exact placed
  · exact placed_goTo short standing.text_eq standing.spans_eq inside

theorem Placed.report (placed : scanner.Placed text offset) (notice : Notice) :
    (scanner.report notice).Placed text offset :=
  placed.of_samePlace (samePlace_report scanner notice) rfl

/-- Reading at an offset loads the character there, and shows the end of the text. -/
theorem Standing.load (standing : scanner.Standing text offset)
    (ahead : scanner.ahead = [Span.whole]) : scanner.load.Reads text offset := by
  rcases standing with ⟨rfl, spans, previous, position, inside⟩
  unfold Scanner.load
  rw [position, Text.bytes_place]
  cases read : Utf8.next? scanner.text offset with
  | none =>
      exact ⟨⟨rfl, spans, previous, rfl, inside⟩, by simp [read], by simp [read]⟩
  | some decoded =>
      exact ⟨⟨rfl, spans, previous, rfl, inside⟩, by simp [read], by simp [read, ahead]⟩

theorem Reads.lookahead (reads : scanner.Reads text offset) :
    scanner.lookahead = ((Utf8.next? text offset).map Utf8.Decoded.char).getD '\x00' := by
  unfold Scanner.lookahead
  rw [reads.loaded_eq]
  cases Utf8.next? text offset <;> rfl

theorem Reads.atEnd (reads : scanner.Reads text offset) :
    scanner.atEnd = (Utf8.next? text offset).isNone := by
  unfold Scanner.atEnd
  rw [reads.ahead_eq]
  cases Utf8.next? text offset <;> rfl

/-! ## Moving on -/

/-- Moving past a character adds the width of its bytes. -/
theorem past_eq_add {decoded : Utf8.Decoded} (read : Utf8.next? text offset = some decoded)
    (position : Extent) :
    past position decoded.char decoded.size = position + text.width offset decoded.size := by
  rcases Utf8.next_spec read with ⟨_, _, ⟨byte, found, ascii, rfl⟩ | ⟨foreign, bytes⟩⟩
  · have single : text.width offset 1 = Text.breadth (some byte) := by
      rw [Text.width_one, found]
    have small : byte.toNat < 0x80 := ascii
    have turns : Char.ofNat byte.toNat = '\n' ↔ byte = 10 := by
      constructor
      · intro same
        have value := congrArg Char.toNat same
        rw [Utf8.toNat_ofNat_of_small small] at value
        exact UInt8.toNat_inj.mp value
      · rintro rfl
        rfl
    rw [single]
    by_cases newline : byte = 10
    · subst newline
      rfl
    · simp only [past, turns, newline, if_false, Text.breadth, Option.some.injEq]
      rfl
  · have flat : ∀ index < decoded.size, text[offset + index]? ≠ some 10 := by
      intro index inside newline
      rcases bytes index inside with ⟨byte, found, high⟩
      rw [found, Option.some.injEq] at newline
      subst newline
      exact absurd high (by decide)
    have other : decoded.char ≠ '\n' := by
      intro same
      rw [same] at foreign
      exact absurd foreign (by unfold Utf8.Foreign; decide)
    rw [Text.width_of_no_newline flat, past, if_neg other]
    rfl

/-- Behind a character is the place where its bytes end. -/
theorem past_place {decoded : Utf8.Decoded} (read : Utf8.next? text offset = some decoded) :
    past (text.place offset) decoded.char decoded.size = text.place (offset + decoded.size) := by
  rw [past_eq_add read, ← Text.place_add]

/-- A step past a character moves the scanner to where its bytes end. -/
theorem Reads.step {decoded : Utf8.Decoded} (short : text.size < maxOffset)
    (reads : scanner.Reads text offset) (read : Utf8.next? text offset = some decoded)
    (skip : Bool) :
    (scanner.step skip).Reads text (offset + decoded.size) ∧
      (scanner.step skip).tokenStart =
        (if skip then text.place (offset + decoded.size) else scanner.tokenStart) ∧
      (scanner.step skip).tokenStop = scanner.tokenStop := by
  rcases reads with ⟨⟨sees, spans, previous, position, _⟩, loaded, ahead⟩
  have inside : offset + decoded.size ≤ text.size := (Utf8.next_spec read).2.1
  have before : offset + decoded.size < Span.whole.stop.bytes := Nat.lt_of_le_of_lt inside short
  have inhabited : Span.whole.stop.bytes ≠ Span.whole.start.bytes := by decide
  rw [read] at loaded ahead
  have reached : settle (text.place (offset + decoded.size)) none [Span.whole] =
      (text.place (offset + decoded.size), none, [Span.whole]) := by
    simp [settle, before, inhabited]
  simp only [Option.map_some] at loaded
  simp only [Option.isSome_some, if_true] at ahead
  have moved : scanner.step skip = ({ scanner with
      position := text.place (offset + decoded.size)
      previous := none
      ahead := [Span.whole]
      tokenStart := if skip then text.place (offset + decoded.size)
        else scanner.tokenStart } : Scanner).load := by
    unfold Scanner.step
    rw [loaded, ahead, previous, position]
    dsimp only
    rw [past_place read, reached]
    rfl
  rw [moved]
  refine ⟨Standing.load ⟨sees, spans, rfl, rfl, inside⟩ rfl, ?_, ?_⟩
  · unfold Scanner.load
    split <;> rfl
  · unfold Scanner.load
    split <;> rfl

/-- A scanner that has moved on has less to read. -/
theorem Reads.remaining_lt (reads : scanner.Reads text offset) (later : reached.Reads text further)
    (within : (Utf8.next? text offset).isSome = true) (less : offset < further) :
    reached.remaining < scanner.remaining := by
  have most : reached.ahead.length ≤ 1 := by
    rw [later.ahead_eq]
    split <;> simp
  have one : scanner.ahead.length = 1 := by simp [reads.ahead_eq, within]
  have inside := later.inside
  have scaled : reached.ahead.length * (text.size + 1) ≤ 1 * (text.size + 1) :=
    Nat.mul_le_mul_right _ most
  unfold remaining
  rw [reads.text_eq, later.text_eq, reads.bytes_position, later.bytes_position, one]
  omega

/-! ## Scanning a token -/

/-- The scanner has begun a token at `start`, which has not ended, and has read on to an offset. -/
structure Scans (text : Text) (start offset : Nat) (scanner : Scanner) : Prop
    extends Reads text offset scanner where
  tokenStart_eq : scanner.tokenStart = text.place start
  tokenStop_eq : scanner.tokenStop = none

/-- Where the first token after an offset begins if nothing is blank: the mark at the beginning of
a text belongs to no token. -/
def entry (text : Text) (offset : Nat) : Nat :=
  match Utf8.next? text offset with
  | none => offset
  | some decoded =>
    if offset = 0 ∧ decoded.char = byteOrderMark then offset + decoded.size else offset

theorem le_entry (offset : Nat) : offset ≤ entry text offset := by
  unfold entry
  split
  · exact Nat.le_refl _
  · split <;> omega

theorem entry_inside (inside : offset ≤ text.size) : entry text offset ≤ text.size := by
  unfold entry
  split
  · exact inside
  · rename_i decoded read
    have := (Utf8.next_spec read).2.1
    split <;> omega

theorem Reads.report (reads : scanner.Reads text offset) (notice : Notice) :
    (scanner.report notice).Reads text offset :=
  reads.of_samePlace (samePlace_report scanner notice) rfl

theorem Scans.advance {decoded : Utf8.Decoded} {start : Nat} (short : text.size < maxOffset)
    (scans : scanner.Scans text start offset) (read : Utf8.next? text offset = some decoded) :
    (scanner.advance false).Scans text start (offset + decoded.size) := by
  have within : scanner.atEnd = false := by simp [scans.atEnd, read]
  simp only [Scanner.advance, within, Bool.false_eq_true, if_false]
  rcases (scans.toReads.report _).step short read false with ⟨reads, start, stop⟩
  exact ⟨reads, start.trans scans.tokenStart_eq, stop.trans scans.tokenStop_eq⟩

/-- A skipped character does not belong to the token. -/
theorem Scans.skip {decoded : Utf8.Decoded} {start : Nat} (short : text.size < maxOffset)
    (scans : scanner.Scans text start offset) (read : Utf8.next? text offset = some decoded) :
    (scanner.advance true).Scans text (offset + decoded.size) (offset + decoded.size) := by
  have within : scanner.atEnd = false := by simp [scans.atEnd, read]
  simp only [Scanner.advance, within, Bool.false_eq_true, if_false]
  rcases (scans.toReads.report _).step short read true with ⟨reads, start, stop⟩
  exact ⟨reads, start, stop.trans scans.tokenStop_eq⟩

theorem Placed.fresh (placed : scanner.Placed text offset) :
    scanner.fresh.Placed text offset :=
  placed.of_samePlace (samePlace_fresh scanner) rfl

/-- At the end nothing is loaded. -/
theorem Placed.unloaded (placed : scanner.Placed text offset) (ended : scanner.ahead = []) :
    scanner.loaded = none := by
  rcases placed with reads | ⟨_, ahead, _⟩
  · have last := reads.atEnd
    rw [atEnd_eq_true.mpr ended, eq_comm, Option.isNone_iff_eq_none] at last
    rw [reads.loaded_eq, last, Option.map_none]
  · rw [ahead] at ended
    cases ended

/-- What stands at the offset is read, unless that was done before. -/
theorem Placed.primed (placed : scanner.Placed text offset) :
    scanner.primed.Reads text offset := by
  rcases placed with reads | ⟨standing, ahead, loaded⟩
  · have ready : (scanner.atEnd || scanner.loaded.isSome) = true := by
      rw [reads.atEnd, reads.loaded_eq]
      cases Utf8.next? text offset <;> rfl
    rw [Scanner.primed, if_pos ready]
    exact reads
  · have unread : (scanner.atEnd || scanner.loaded.isSome) = false := by
      rw [Scanner.atEnd, ahead, loaded]
      rfl
    rw [Scanner.primed, unread, if_neg Bool.false_ne_true]
    exact standing.load ahead

/-- A scanner that was moved to an offset begins a token there. -/
theorem Placed.start (short : text.size < maxOffset) (placed : scanner.Placed text offset) :
    scanner.start.Scans text (entry text offset) (entry text offset) := by
  have reads := placed.fresh.primed
  have begun : scanner.fresh.primed.tokenStart = text.place offset := by
    rw [tokenStart_primed]
    exact placed.standing.position_eq
  have unended : scanner.fresh.primed.tokenStop = none := tokenStop_primed _
  rw [start_eq placed.unloaded, entry, reads.lookahead, reads.bytes_position]
  cases read : Utf8.next? text offset with
  | none =>
      rw [if_neg fun mark => absurd mark.2 (by decide)]
      exact ⟨reads, begun, unended⟩
  | some decoded =>
      dsimp only [Option.map_some, Option.getD_some]
      split
      · rcases reads.step short read true with ⟨after, start, stop⟩
        exact ⟨after, start, stop.trans unended⟩
      · exact ⟨reads, begun, unended⟩

theorem Reads.tokenBoundary (reads : scanner.Reads text offset) :
    scanner.tokenBoundary = text.place offset := by
  unfold Scanner.tokenBoundary
  rw [reads.previous_eq, reads.position_eq]
  cases scanner.ahead <;> rfl

/-- A token that ends where the scanner stands. -/
theorem Scans.markEnd {start : Nat} (scans : scanner.Scans text start offset) :
    scanner.markEnd.Reads text offset ∧ scanner.markEnd.tokenStart = text.place start ∧
      scanner.markEnd.tokenStop = some (text.place offset) := by
  refine ⟨scans.toReads.of_samePlace (samePlace_markEnd scanner) rfl, scans.tokenStart_eq, ?_⟩
  simp only [Scanner.markEnd, scans.tokenBoundary]

end Scanner

end Reparse
