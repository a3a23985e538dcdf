import Reparse.Proofs.Scanner.Reads
import Reparse.Proofs.Scanner.Runs

/-!
# Where a scan leaves its marks

A program that scans a token of a whole text can skip, move on and mark the end of the token as it
likes. The scanner never goes back, so the marks of the token stand, in order, between the place
where it was begun and the place where the scanner stands (`Scanner.Works`). Moving to the end leads
to the end of the text.
-/

namespace Reparse

namespace Scanner

variable {text : Text} {least offset : Nat} {scanner reached : Scanner}

/-- The scanner is at work on a token that was begun at `least` and has read on to an offset. The
marks of the token stand between the two. -/
structure Works (text : Text) (least offset : Nat) (scanner : Scanner) : Prop
    extends Reads text offset scanner where
  starts : ∃ place, least ≤ place ∧ place ≤ offset ∧ scanner.tokenStart = text.place place
  stops : ∀ stop, scanner.tokenStop = some stop →
    ∃ place, least ≤ place ∧ place ≤ offset ∧ stop = text.place place

theorem Scans.works (scans : scanner.Scans text least offset) (forward : least ≤ offset) :
    scanner.Works text least offset where
  toReads := scans.toReads
  starts := ⟨least, Nat.le_refl _, forward, scans.tokenStart_eq⟩
  stops stop marked := by
    rw [scans.tokenStop_eq] at marked
    cases marked

theorem Works.le (works : scanner.Works text least offset) : least ≤ offset := by
  rcases works.starts with ⟨place, first, last, _⟩
  exact Nat.le_trans first last

theorem Works.advance (short : text.size < maxOffset) (works : scanner.Works text least offset)
    (skip : Bool) : ∃ further, (scanner.advance skip).Works text least further := by
  cases read : Utf8.next? text offset with
  | none =>
      have ended : scanner.atEnd = true := by simp [works.atEnd, read]
      rw [Scanner.advance, if_pos ended]
      exact ⟨offset, works⟩
  | some decoded =>
      have within : scanner.atEnd = false := by simp [works.atEnd, read]
      simp only [Scanner.advance, within, Bool.false_eq_true, if_false]
      rcases (works.toReads.report _).step short read skip with ⟨reads, start, stop⟩
      refine ⟨offset + decoded.size, reads, ?_, ?_⟩
      · rw [start]
        split
        · have forward := works.le
          exact ⟨offset + decoded.size, by omega, Nat.le_refl _, rfl⟩
        · rcases works.starts with ⟨place, first, last, same⟩
          exact ⟨place, first, Nat.le_add_right_of_le last, same⟩
      · intro marked same
        rw [stop] at same
        rcases works.stops marked same with ⟨place, first, last, at_⟩
        exact ⟨place, first, Nat.le_add_right_of_le last, at_⟩

theorem Works.markEnd (works : scanner.Works text least offset) :
    scanner.markEnd.Works text least offset where
  toReads := works.toReads.of_samePlace (samePlace_markEnd scanner) rfl
  starts := works.starts
  stops stop marked := by
    simp only [Scanner.markEnd, works.tokenBoundary, Option.some.injEq] at marked
    exact ⟨offset, works.le, Nat.le_refl _, marked.symm⟩

theorem Works.accept (works : scanner.Works text least offset) (symbol : Nat) :
    (scanner.accept symbol).Works text least offset := by
  have named : ({ scanner with symbol } : Scanner).Works text least offset :=
    ⟨works.toReads.of_samePlace ⟨rfl, rfl, rfl, rfl, rfl⟩ rfl, works.starts, works.stops⟩
  exact named.markEnd

/-- Whatever a program does, the marks of the token stand where they should. -/
theorem Works.runFrom (short : text.size < maxOffset) {program : ScanProgram} {label : Nat}
    {found : Bool} (works : scanner.Works text least offset)
    (run : program.runFrom label scanner = some (found, reached)) :
    ∃ further, reached.Works text least further := by
  have stable : Stable fun scanner => ∃ offset, scanner.Works text least offset :=
    { advance := fun skip ⟨_, works⟩ => works.advance short skip
      markEnd := fun ⟨offset, works⟩ => ⟨offset, works.markEnd⟩
      accept := fun symbol ⟨offset, works⟩ => ⟨offset, works.accept symbol⟩ }
  exact stable.runFrom ⟨offset, works⟩ run

/-! ## The end of a token -/

/-- What the scanner says its token spans. -/
def tokenSpan (scanner : Scanner) : Span := ⟨scanner.tokenStart, scanner.tokenEnd⟩

/-- A token spans what was said of it, but begins at its end if that lies before its beginning. -/
theorem tokenSpan_finish (scanner : Scanner) :
    scanner.finish.1.tokenSpan =
      ⟨if (scanner.tokenStop.getD scanner.tokenBoundary).bytes < scanner.tokenStart.bytes then
          scanner.tokenStop.getD scanner.tokenBoundary
        else scanner.tokenStart, scanner.tokenStop.getD scanner.tokenBoundary⟩ := by
  rcases scanner.closed_spec with ⟨_, _, stop, start, _⟩
  rw [fst_finish, stop, start]
  split
  · exact congrArg (Span.mk _) stop
  · exact congrArg₂ Span.mk start stop

theorem Works.exists_stop (works : scanner.Works text least offset) :
    ∃ place, least ≤ place ∧ place ≤ offset ∧
      scanner.tokenStop.getD scanner.tokenBoundary = text.place place := by
  cases marked : scanner.tokenStop with
  | none => exact ⟨offset, works.le, Nat.le_refl _, works.tokenBoundary⟩
  | some stop => exact works.stops stop marked

/-- How far the scan of a token looked: at the byte behind the scanner, and at four more if a malformed
byte was read there. -/
theorem finish_seen (scanner : Scanner) :
    scanner.finish.2 =
      if scanner.malformed then min (min (scanner.position.bytes + 1) maxOffset + 4) maxOffset
      else min (scanner.position.bytes + 1) maxOffset := by
  simp only [finish]
  cases scanner.tokenStop with
  | none =>
      simp only [Option.isNone_none, if_true]
      split <;> rfl
  | some stop =>
      simp only [Option.isNone_some, Bool.false_eq_true, if_false]
      split <;> rfl

/-- The scan of a token looks at the byte behind the scanner. -/
theorem le_finish (scanner : Scanner) :
    min (scanner.position.bytes + 1) maxOffset ≤ scanner.finish.2 := by
  rw [finish_seen]
  split <;> omega

/-- A token that has an end and does not start behind it is finished. -/
theorem finish_of_marked {stop : Extent} (marked : scanner.tokenStop = some stop)
    (forward : scanner.tokenStart.bytes ≤ stop.bytes) : scanner.finish.1 = scanner := by
  have still : (if scanner.tokenStop.isNone then scanner.markEnd else scanner) = scanner := by
    rw [marked]
    rfl
  have ended : scanner.tokenEnd = stop := by simp [Scanner.tokenEnd, marked]
  simp only [finish, still, ended]
  exact if_neg (Nat.not_lt.mpr forward)

/-- A finished token spans some text between its beginning and the scanner, and its scan depended on
the byte behind it. -/
theorem Works.finish (short : text.size < maxOffset) (works : scanner.Works text least offset) :
    ∃ first last, least ≤ first ∧ first ≤ last ∧ last ≤ offset ∧
      scanner.finish.1.tokenSpan = ⟨text.place first, text.place last⟩ ∧
      scanner.finish.1.Reads text offset ∧ last < scanner.finish.2 := by
  rcases works.starts with ⟨first, least_le, _, started⟩
  rcases works.exists_stop with ⟨last, le_last, last_le, ended⟩
  have reads : scanner.finish.1.Reads text offset :=
    works.toReads.of_samePlace (samePlace_finish scanner) (loaded_finish scanner)
  have beyond : last < scanner.finish.2 := by
    have seen := scanner.le_finish
    have inside := works.inside
    rw [works.bytes_position] at seen
    omega
  rw [tokenSpan_finish, ended, started, Text.bytes_place, Text.bytes_place]
  by_cases backward : last < first
  · -- a token that ended before it started starts where it ended
    rw [if_pos backward]
    exact ⟨last, last, le_last, Nat.le_refl _, last_le, rfl, reads, beyond⟩
  · rw [if_neg backward]
    exact ⟨first, last, least_le, Nat.not_lt.mp backward, last_le, rfl, reads, beyond⟩

/-! ## To the end of the text -/

theorem Reads.runToEnd (short : text.size < maxOffset) (reads : scanner.Reads text offset) :
    scanner.runToEnd.position = text.place text.size := by
  induction bound : text.size - offset using Nat.strongRecOn generalizing scanner offset with
  | ind rest ih =>
      rw [Scanner.runToEnd]
      cases read : Utf8.next? text offset with
      | none =>
          have ended : scanner.atEnd = true := by simp [reads.atEnd, read]
          have here : offset = text.size :=
            Nat.le_antisymm reads.inside (Utf8.next_eq_none_iff.mp read)
          rw [if_pos ended, reads.position_eq, here]
      | some decoded =>
          have within : ¬scanner.atEnd = true := by simp [reads.atEnd, read]
          rcases Utf8.next_spec read with ⟨positive, inside, _⟩
          have moved := (reads.step short read false).1
          rw [if_neg within]
          dsimp only
          split
          · exact ih _ (by omega) moved rfl
          · rename_i further
            exact absurd (reads.remaining_lt moved (by simp [read]) (by omega)) further

/-- Moving on to the end leads to the end of the text. -/
theorem Placed.skipToEnd (short : text.size < maxOffset) (placed : scanner.Placed text offset) :
    scanner.skipToEnd.position = text.place text.size := by
  rw [skipToEnd_eq]
  exact placed.primed.runToEnd short

end Scanner

end Reparse
