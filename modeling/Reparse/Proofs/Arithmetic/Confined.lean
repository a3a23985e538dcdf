import Reparse.Parser
import Reparse.Proofs.Arithmetic.Rounds
import Reparse.Proofs.Arithmetic.Simulation
import Reparse.Proofs.Parse.Abreast

/-!
# Parsing included text

The scan program of the arithmetic language asks for nothing but characters, so parsing a text in
spans goes abreast with parsing the text that the spans include: both come to trees of one shape
(`Arithmetic.shape_parse_included`).
-/

namespace Reparse

/-! ## Spans that are accepted -/

namespace Parser

variable {initial parser : Parser} {spans : List Span}

theorem limit_setSpans (accepted : initial.setSpans spans = .ok parser) :
    parser.limit = initial.limit := by
  unfold setSpans at accepted
  split at accepted
  · exact Except.ok.inj accepted ▸ rfl
  · cases accepted

/-- Spans that begin and end between characters cut the text, and so does all of it. -/
theorem cut_included {text : Text} (accepted : initial.setSpans spans = .ok parser)
    (boundaries : ∀ span ∈ spans, span.start.bytes < span.stop.bytes →
      text.isBoundary span.start.bytes = true ∧ text.isBoundary span.stop.bytes = true)
    (short : text.size < maxOffset) : text.Cut 0 parser.included := by
  unfold setSpans at accepted
  split at accepted
  · rename_i ordered
    obtain rfl := Except.ok.inj accepted
    unfold included
    split
    · exact Text.cut_whole short
    · exact Text.cut_of_firstMisplacedFrom ordered boundaries
  · cases accepted

end Parser

namespace Arithmetic

open Parsing

/-! ## The scan program -/

theorem isPlain_tokenBlock (char : Char) : (tokenBlock char).IsPlain := by
  unfold tokenBlock
  split_ifs
  · trivial
  · trivial
  · trivial
  · trivial
  · trivial
  · intro next ended
    dsimp only
    split_ifs <;> trivial
  · trivial

theorem isPlain_loopBlock (belongs : Char → Bool → Bool) (label symbol : Nat) :
    (loopBlock belongs label symbol).IsPlain := by
  intro char ended
  dsimp only
  split_ifs <;> trivial

theorem isPlain_program (label : Nat) : (program label).IsPlain := by
  match label with
  | 0 =>
      intro char ended
      dsimp only
      split_ifs
      · trivial
      · trivial
      · exact isPlain_tokenBlock char
  | 1 => exact isPlain_loopBlock _ _ _
  | 2 => exact isPlain_loopBlock _ _ _
  | _ + 3 => exact isPlain_loopBlock _ _ _

/-! ## Parses -/

theorem exists_wholeTree_included {text : Text} {spans : List Span} (cut : text.Cut 0 spans)
    (unmarked : Scanner.Unmarked (text.included spans)) (short : text.size < maxOffset) :
    ∃ tree after other reached,
      (wholeTree grammar).run (Context.new vocabulary program text spans none 0) =
        .ok (tree, after) ∧
      (wholeTree grammar).run
        (Context.new vocabulary program (text.included spans) [Span.whole] none 0) =
          .ok (other, reached) ∧
      tree.shape = other.shape := by
  have smaller := cut.size_included_le
  have imageShort : (text.included spans).size < maxOffset := Nat.lt_of_le_of_lt smaller short
  have same := (Text.included_whole imageShort).symm
  have readable : text.Readable spans := ⟨cut, unmarked⟩
  have imageReadable : (text.included spans).Readable [Span.whole] :=
    ⟨Text.cut_whole imageShort, same ▸ unmarked⟩
  rcases @run_wholeTree (text.included spans) none imageShort (by simp [Reliable]) with
    ⟨items, reached, run, _⟩
  have operations := operationsSimulate_abreast readable imageReadable smaller
  have simulates := simulates_grammar operations fun _ _ abreast => abreast.budget_le smaller
  have begun := @abreast_new text (text.included spans) spans [Span.whole] vocabulary program cut
    imageReadable.cut isPlain_program same
  rcases exists_wholeTree readable imageReadable smaller simulates begun run with
    ⟨tree, after, runs, shapes⟩
  exact ⟨tree, after, _, reached, runs, run, shapes⟩

end Arithmetic

end Reparse
