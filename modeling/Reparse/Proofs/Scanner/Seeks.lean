import Reparse.Proofs.Scanner.Course
import Reparse.Proofs.Scanner.Runs

/-!
# Scanning a token in any spans

A token begins where a character stands in an included span (`Scanner.Entrance`), and the scanner
that seeks it does not fall back behind that place, whatever the scan program does
(`Scanner.Seeks`). If nothing was found, the scanner has come to the end, or it can be placed again
where the token would have begun, to take the character there as an unexpected token
(`Scanner.Course.start_of_entrance`).
-/

namespace Reparse

namespace Scanner

variable {text : Text} {spans : List Span} {scanner reached : Scanner} {reads : Bool}

/-! ## Beginning a token -/

/-- In an included span stands a character at the offset that may belong to a token. -/
structure Entrance (text : Text) (spans : List Span) (offset : Nat) : Prop where
  inside : ∃ before span after, spans = before ++ span :: after ∧ span.start.bytes ≤ offset ∧
    offset < span.stop.bytes
  shows : ∃ decoded, Utf8.next? text offset = some decoded ∧
    (offset = 0 → decoded.char ≠ byteOrderMark)

theorem Located.lookahead_of_ended (located : scanner.Located text spans)
    (ended : scanner.ahead = []) : scanner.lookahead = '\x00' := by
  rw [lookahead, located.unloaded ended]

theorem Sighted.lookahead_eq (sighted : scanner.Sighted text spans) (more : scanner.ahead ≠ [])
    {decoded : Utf8.Decoded} (read : Utf8.next? text scanner.position.bytes = some decoded) :
    scanner.lookahead = decoded.char := by
  rcases sighted.sees more with ⟨other, again, loaded⟩
  rw [read, Option.some.injEq] at again
  rw [lookahead, loaded, again]

theorem Sighted.entrance (sighted : scanner.Sighted text spans) (more : scanner.ahead ≠ [])
    (unmarked : scanner.position.bytes = 0 → scanner.lookahead ≠ byteOrderMark) :
    Entrance text spans scanner.position.bytes := by
  rcases sighted.place with ended | ⟨before, span, after, split, _, _, begun, inside⟩
  · exact absurd ended more
  · rcases sighted.sees more with ⟨decoded, read, _⟩
    refine ⟨⟨before, span, after, split, begun, inside⟩, decoded, read, ?_⟩
    rw [← sighted.lookahead_eq more read]
    exact unmarked

/-- Where a character stands, reading it does not lead to the end. -/
theorem ahead_primed_ne_nil (more : scanner.ahead ≠ [])
    (shown : (Utf8.next? scanner.text scanner.position.bytes).isSome = true) :
    scanner.primed.ahead ≠ [] := by
  unfold primed
  split
  · exact more
  · rcases Option.isSome_iff_exists.mp shown with ⟨decoded, read⟩
    rw [Scanner.load, read]
    exact more

/-- Where a token may begin, a scanner begins one. -/
theorem Course.start_of_entrance (ordered : Span.Ordered 0 spans)
    (course : Course text spans reads scanner) (more : scanner.ahead ≠ [])
    (entrance : Entrance text spans scanner.position.bytes) :
    Course text spans true scanner.start ∧ scanner.start.ahead ≠ [] ∧
      scanner.start.position = scanner.position ∧ scanner.start.tokenStart = scanner.position := by
  have located := course.located ordered
  have ready := course.fresh.primed ordered
  have position : scanner.fresh.primed.position = scanner.position := position_primed _
  have start : scanner.fresh.primed.tokenStart = scanner.position := tokenStart_primed _
  rcases entrance.shows with ⟨decoded, read, unmarked⟩
  have shown : (Utf8.next? scanner.text scanner.position.bytes).isSome = true := by
    rw [located.text_eq, read]
    rfl
  have onward : scanner.fresh.primed.ahead ≠ [] := @ahead_primed_ne_nil scanner.fresh more shown
  rw [← position] at read unmarked
  have char := (ready.sighted ordered).lookahead_eq onward read
  rw [start_eq located.unloaded, if_neg fun marked => unmarked marked.1 (char.symm.trans marked.2)]
  exact ⟨ready, onward, position, start⟩

/-! ## The scan of a token -/

/-- The scanner is about to find a token that begins at `floor` or later. It stands at the end of the
input or has come to a character where the token may begin, and no end of the token is marked behind
the place where it stands. -/
structure Seeks (text : Text) (spans : List Span) (floor : Nat) (scanner : Scanner) : Prop where
  course : Course text spans true scanner
  begun : scanner.atEnd = true ∧ scanner.tokenStart.bytes = scanner.position.bytes ∨
    Entrance text spans scanner.tokenStart.bytes ∧ floor ≤ scanner.tokenStart.bytes ∧
      scanner.tokenStart.bytes ≤ scanner.position.bytes
  stop_le : ∀ stop, scanner.tokenStop = some stop → stop.bytes ≤ scanner.position.bytes

variable {floor : Nat}

theorem Seeks.advance (ordered : Span.Ordered 0 spans) (seeks : scanner.Seeks text spans floor)
    (skip : Bool) : (scanner.advance skip).Seeks text spans floor := by
  have course := seeks.course.advance skip
  by_cases ended : scanner.ahead = []
  · rw [Scanner.advance, if_pos (atEnd_eq_true.mpr ended)]
    exact seeks
  · have stepped := seeks.course.steppedFrom_advance ordered ended skip
    generalize scanner.advance skip = moved at *
    have sighted := course.sighted ordered
    have passed : scanner.position.bytes < moved.position.bytes :=
      Nat.lt_of_lt_of_le stepped.le_boundary (sighted.toLocated.tokenBoundary_le ordered)
    rcases seeks.begun with ⟨final, _⟩ | ⟨entrance, after, le⟩
    · exact absurd (atEnd_eq_true.mp final) ended
    · refine ⟨course, ?_, fun stop marked => ?_⟩
      · rw [stepped.tokenStart_eq]
        cases skip with
        | true =>
            cases final : moved.atEnd with
            | true => exact Or.inl ⟨rfl, rfl⟩
            | false =>
                refine Or.inr ⟨sighted.entrance (atEnd_eq_false.mp final) ?_, ?_, Nat.le_refl _⟩
                · omega
                · exact Nat.le_trans after (Nat.le_trans le (Nat.le_of_lt passed))
        | false => exact Or.inr ⟨entrance, after, Nat.le_trans le (Nat.le_of_lt passed)⟩
      · rw [stepped.tokenStop_eq] at marked
        exact Nat.le_trans (seeks.stop_le stop marked) (Nat.le_of_lt passed)

theorem Seeks.markEnd (ordered : Span.Ordered 0 spans) (seeks : scanner.Seeks text spans floor) :
    scanner.markEnd.Seeks text spans floor where
  course := seeks.course.markEnd
  begun := seeks.begun
  stop_le stop marked := by
    obtain rfl : scanner.tokenBoundary = stop := Option.some.inj marked
    exact (seeks.course.located ordered).tokenBoundary_le ordered

theorem Seeks.named (seeks : scanner.Seeks text spans floor) (symbol : Nat) :
    ({ scanner with symbol } : Scanner).Seeks text spans floor :=
  ⟨seeks.course.mark ⟨rfl, rfl, rfl, rfl, rfl⟩ rfl, seeks.begun, seeks.stop_le⟩

theorem Seeks.accept (ordered : Span.Ordered 0 spans) (seeks : scanner.Seeks text spans floor)
    (symbol : Nat) : (scanner.accept symbol).Seeks text spans floor :=
  (seeks.named symbol).markEnd ordered

theorem stable_course : Stable (Course text spans true) where
  advance skip course := course.advance skip
  markEnd course := course.markEnd
  accept symbol course := course.accept symbol

theorem stable_seeks (ordered : Span.Ordered 0 spans) :
    Stable fun scanner => scanner.Seeks text spans floor where
  advance skip seeks := seeks.advance ordered skip
  markEnd seeks := seeks.markEnd ordered
  accept symbol seeks := seeks.accept ordered symbol

theorem Seeks.of_begun (ordered : Span.Ordered 0 spans) (course : Course text spans true scanner)
    (start : scanner.tokenStart = scanner.position) (stop : scanner.tokenStop = none)
    (shows : scanner.ahead ≠ [] → floor ≤ scanner.position.bytes ∧
      (scanner.position.bytes = 0 → scanner.lookahead ≠ byteOrderMark)) :
    scanner.Seeks text spans floor where
  course
  begun := by
    rw [start]
    cases ended : scanner.atEnd with
    | true => exact Or.inl ⟨rfl, rfl⟩
    | false =>
        have more := atEnd_eq_false.mp ended
        rcases shows more with ⟨low, unmarked⟩
        exact Or.inr ⟨(course.sighted ordered).entrance more unmarked, low, Nat.le_refl _⟩
  stop_le place marked := by
    rw [stop] at marked
    cases marked

/-- A scanner that begins a token seeks it from its position on. -/
theorem Course.seeks (ordered : Span.Ordered 0 spans) (course : Course text spans reads scanner)
    (low : scanner.ahead ≠ [] → floor ≤ scanner.position.bytes) :
    scanner.start.Seeks text spans floor ∧ scanner.start.tokenStart = scanner.start.position := by
  have ready := course.fresh.primed ordered
  have sighted := ready.sighted ordered
  have position : scanner.fresh.primed.position = scanner.position := position_primed _
  have start : scanner.fresh.primed.tokenStart = scanner.fresh.primed.position :=
    (tokenStart_primed _).trans position.symm
  have stop : scanner.fresh.primed.tokenStop = none := tokenStop_primed _
  have reached (onward : scanner.fresh.primed.ahead ≠ []) :
      floor ≤ scanner.fresh.primed.position.bytes := by
    rw [position]
    refine low fun ended => onward ?_
    rw [@primed_of_ended scanner.fresh ended]
    exact ended
  rw [start_eq (course.located ordered).unloaded]
  split
  · rename_i mark
    -- the mark is shown by a character, so the scanner steps past it
    have onward : scanner.fresh.primed.ahead ≠ [] := by
      intro ended
      rw [sighted.toLocated.lookahead_of_ended ended] at mark
      exact absurd mark.2 (by decide)
    have low := reached onward
    have forward := ready.lt_step ordered (atEnd_eq_false.mpr onward) true
    have stepped := (sighted.step ordered onward true).2
    have begun : (scanner.fresh.primed.step true).tokenStart =
        (scanner.fresh.primed.step true).position := stepped.tokenStart_eq
    refine ⟨.of_begun ordered (ready.step (atEnd_eq_false.mpr onward) true) begun
      (stepped.tokenStop_eq.trans stop) fun _ => ⟨?_, ?_⟩, begun⟩
    · omega
    · omega
  · rename_i unmarked
    exact ⟨.of_begun ordered ready start stop
      fun onward => ⟨reached onward, fun first mark => unmarked ⟨first, mark⟩⟩, start⟩

theorem Course.start (ordered : Span.Ordered 0 spans) (course : Course text spans reads scanner) :
    Course text spans true scanner.start :=
  (@Course.seeks text spans scanner reads 0 ordered course fun _ => Nat.zero_le _).1.course

theorem Entrance.lt_size {offset : Nat} (entrance : Entrance text spans offset) :
    offset < text.size := by
  rcases entrance.shows with ⟨decoded, read, _⟩
  rcases Utf8.next_spec read with ⟨positive, within, _⟩
  omega

/-- Where no token was found before the end, the scanner begins one character again. -/
theorem Seeks.restart (ordered : Span.Ordered 0 spans) (seeks : scanner.Seeks text spans floor)
    (entrance : Entrance text spans scanner.tokenStart.bytes)
    (unfinished : ¬(scanner.atEnd = true ∧ scanner.position.bytes = scanner.tokenStart.bytes)) :
    Course text spans true (scanner.reset scanner.tokenStart).start ∧
      (scanner.reset scanner.tokenStart).start.ahead ≠ [] ∧
      (scanner.reset scanner.tokenStart).start.position.bytes = scanner.tokenStart.bytes ∧
      (scanner.reset scanner.tokenStart).start.tokenStart.bytes = scanner.tokenStart.bytes := by
  have placed : ∃ reads, Course text spans reads (scanner.reset scanner.tokenStart) ∧
      (scanner.reset scanner.tokenStart).ahead ≠ [] ∧
      (scanner.reset scanner.tokenStart).position.bytes = scanner.tokenStart.bytes := by
    unfold Scanner.reset
    split
    · rename_i same
      exact ⟨true, seeks.course, fun ended => unfinished ⟨atEnd_eq_true.mpr ended, same.symm⟩,
        same.symm⟩
    · rcases entrance.inside with ⟨before, span, after, rfl, begun, short⟩
      have spans_eq := (seeks.course.located ordered).spans_eq
      rcases goTo_of_inside ordered spans_eq begun short with ⟨ahead, same⟩
      exact ⟨false, seeks.course.goTo _, by rw [ahead]; exact List.cons_ne_nil _ _, same⟩
  rcases placed with ⟨reads, course, more, same⟩
  rcases course.start_of_entrance ordered more (same ▸ entrance) with
    ⟨started, onward, position, start⟩
  exact ⟨started, onward, (congrArg Extent.bytes position).trans same,
    (congrArg Extent.bytes start).trans same⟩

end Scanner

end Reparse
