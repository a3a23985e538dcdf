import Reparse.Proofs.Arithmetic.Scan
import Reparse.Proofs.Parse.Forward

/-!
# The scan program gains

In whatever spans the scan program of the arithmetic language is run, it comes to an end, and the
tokens that it finds are not empty (`Arithmetic.gains_program`): it jumps only behind a step, and
accepts only what it has made a step in.
-/

namespace Reparse

namespace Scanner

variable {text : Text} {spans : List Span} {scanner : Scanner}

/-- The token that was begun is not empty if it ends where the scanner stands. -/
structure Grows (text : Text) (spans : List Span) (scanner : Scanner) : Prop where
  course : Course text spans true scanner
  longer : scanner.tokenStart.bytes < scanner.tokenBoundary.bytes

theorem Course.grows (ordered : Span.Ordered 0 spans) (course : Course text spans true scanner)
    (more : scanner.ahead ≠ []) (low : scanner.tokenStart.bytes ≤ scanner.position.bytes) :
    (scanner.advance false).Grows text spans ∧
      (scanner.advance false).remaining < scanner.remaining := by
  have stepped := course.steppedFrom_advance ordered more false
  refine ⟨⟨course.advance false, ?_⟩, stepped.remaining_lt⟩
  rw [stepped.tokenStart_eq]
  exact Nat.lt_of_lt_of_le (Nat.lt_succ_of_le low) stepped.le_boundary

theorem Grows.advance (ordered : Span.Ordered 0 spans) (grows : scanner.Grows text spans)
    (more : scanner.ahead ≠ []) :
    (scanner.advance false).Grows text spans ∧
      (scanner.advance false).remaining < scanner.remaining := by
  apply grows.course.grows ordered more
  have behind := (grows.course.located ordered).tokenBoundary_le ordered
  exact Nat.le_trans (Nat.le_of_lt grows.longer) behind

end Scanner

namespace Arithmetic

open Scanner (Course Grows atEnd_eq_false)

variable {text : Text} {spans : List Span} {scanner reached : Scanner} {label : Nat}

/-- From a label the scan of a token comes to an end, and a token that it finds is not empty. -/
def Completes (label : Nat) (scanner : Scanner) : Prop :=
  ∃ found reached, program.runFrom label scanner = some (found, reached) ∧
    (found = true → ∃ stop, reached.tokenStop = some stop ∧
      reached.tokenStart.bytes < stop.bytes)

theorem completes_of_jumped {next : Nat}
    (jumped : (program label).run scanner = (.jumped next, reached))
    (further : reached.remaining < scanner.remaining) (rest : Completes next reached) :
    Completes label scanner := by
  rcases rest with ⟨found, last, run, marked⟩
  exact ⟨found, last, (ScanProgram.runFrom_of_jumped jumped further).trans run, marked⟩

theorem completes_of_failed (stopped : (program label).run scanner = (.stopped false, reached)) :
    Completes label scanner :=
  ⟨false, reached, ScanProgram.runFrom_of_stopped stopped, fun found => by cases found⟩

theorem completes_of_accepted {symbol : Nat} (grows : reached.Grows text spans)
    (stopped : (program label).run scanner = (.stopped true, reached.accept symbol)) :
    Completes label scanner :=
  ⟨true, _, ScanProgram.runFrom_of_stopped stopped, fun _ => ⟨_, rfl, grows.longer⟩⟩

/-- A loop that does not go on at the end ends, since every round of it is a step. -/
theorem completes_loop (ordered : Span.Ordered 0 spans) {belongs : Char → Bool → Bool}
    {symbol : Nat} (block : program label = loopBlock belongs label symbol)
    (ended : belongs '\x00' true = false) (grows : scanner.Grows text spans) :
    Completes label scanner := by
  induction left : scanner.remaining using Nat.strongRecOn generalizing scanner with
  | ind left ih =>
      have step := @run_loopBlock scanner belongs label symbol
      rw [← block] at step
      by_cases goes : belongs scanner.lookahead scanner.atEnd = true
      · rw [if_pos goes] at step
        have more : scanner.ahead ≠ [] := by
          intro final
          rw [(grows.course.located ordered).lookahead_of_ended final,
            Scanner.atEnd_eq_true.mpr final, ended] at goes
          cases goes
        rcases grows.advance ordered more with ⟨onward, less⟩
        exact completes_of_jumped step less (ih _ (left ▸ less) onward rfl)
      · rw [if_neg goes] at step
        exact completes_of_accepted grows step

theorem completes_numberLoop (ordered : Span.Ordered 0 spans) (grows : scanner.Grows text spans) :
    Completes numberLoop scanner :=
  completes_loop ordered rfl rfl grows

theorem completes_wordLoop (ordered : Span.Ordered 0 spans) (grows : scanner.Grows text spans) :
    Completes wordLoop scanner :=
  completes_loop ordered rfl rfl grows

theorem completes_commentLoop (ordered : Span.Ordered 0 spans)
    (grows : scanner.Grows text spans) : Completes commentLoop scanner :=
  completes_loop ordered rfl rfl grows

/-- The scan of the rest of a token, at its first character. -/
theorem completes_rest (ordered : Span.Ordered 0 spans) {symbol : Nat}
    (rest : (program label).run scanner = (restBlock symbol).run scanner)
    (grows : (scanner.advance false).Grows text spans)
    (less : (scanner.advance false).remaining < scanner.remaining) : Completes label scanner := by
  unfold restBlock at rest
  split at rest
  · exact completes_of_jumped rest less (completes_numberLoop ordered grows)
  split at rest
  · exact completes_of_jumped rest less (completes_wordLoop ordered grows)
  split at rest
  · simp only [Block.run] at rest
    split at rest
    · rename_i slash
      have more : (scanner.advance false).ahead ≠ [] := by
        intro final
        rw [(grows.course.located ordered).lookahead_of_ended final] at slash
        cases slash
      rcases grows.advance ordered more with ⟨onward, further⟩
      exact completes_of_jumped rest (Nat.lt_trans further less)
        (completes_commentLoop ordered onward)
    · exact completes_of_failed rest
  · exact completes_of_accepted grows rest

/-- The scan of a token that begins where the scanner stands. -/
theorem completes_program (ordered : Span.Ordered 0 spans) (course : Course text spans true scanner)
    (begun : scanner.tokenStart.bytes ≤ scanner.position.bytes) : Completes 0 scanner := by
  induction left : scanner.remaining using Nat.strongRecOn generalizing scanner with
  | ind left ih =>
      cases ended : scanner.atEnd with
      | true =>
          have stopped : (program 0).run scanner = (.stopped false, scanner) := by
            simp [program, Block.run, ended]
          exact completes_of_failed stopped
      | false =>
          have more := atEnd_eq_false.mp ended
          cases solid : isBlank scanner.lookahead with
          | true =>
              have jumped : (program 0).run scanner = (.jumped 0, scanner.advance true) := by
                simp [program, Block.run, ended, solid]
              have stepped := course.steppedFrom_advance ordered more true
              refine completes_of_jumped jumped stepped.remaining_lt
                (ih _ (left ▸ stepped.remaining_lt) (course.advance true) ?_ rfl)
              rw [stepped.tokenStart_eq, if_pos rfl]
          | false =>
              have first : (program 0).run scanner = (tokenBlock scanner.lookahead).run scanner := by
                simp [program, Block.run, ended, solid]
              rw [tokenBlock_eq] at first
              cases found : begins scanner.lookahead with
              | none =>
                  rw [found] at first
                  exact completes_of_failed first
              | some symbol =>
                  rw [found] at first
                  rcases course.grows ordered more begun with ⟨grows, less⟩
                  exact completes_rest ordered first grows less

theorem gains_program : program.Gains := by
  intro text spans reads scanner ordered course
  have seeks := @Scanner.Course.seeks text spans scanner reads 0 ordered course fun _ =>
    Nat.zero_le _
  exact completes_program ordered seeks.1.course (by rw [seeks.2])

end Arithmetic

end Reparse
