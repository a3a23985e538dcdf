import Reparse.Proofs.Arithmetic.Confined
import Reparse.Proofs.Arithmetic.Halted
import Reparse.Proofs.Parse.Bounds

/-!
# Leaves of arithmetic in spans

Every leaf of a parsed tree that has text begins with an included byte, whatever spans are accepted
that cut no character (`Arithmetic.leaves_bounded`). It ends behind its last included byte, unless a
span without text begins behind that: then it may reach over excluded bytes up to the beginning of
that span, as the number in `12` does before two excluded bytes and an empty span between them
(`Arithmetic.number_reaches_out`).
-/

namespace Reparse

namespace Arithmetic

/-- What is consumed before a parse begins is nothing, which is bounded. -/
theorem bounds_begun {parser : Parser} (ordered : Span.Ordered 0 parser.included) (identity : Nat)
    (text : Text) :
    (parser.begun (Language.arithmetic identity) text none).Bounds text parser.included [] where
  older_eq := rfl
  steady := (Parser.underway_arithmetic ordered identity text none).steady
  position_eq := rfl
  childless := nofun
  along := nofun
  ahead := nofun

/-- Parsing with spans that begin and end between characters succeeds, and every leaf of the tree
that has text begins with an included byte of the text. It ends just behind another one, unless a
span without text begins where it ends; then there are only excluded bytes between the two. -/
theorem leaves_bounded {initial parser : Parser} {spans : List Span} {text : Text}
    (accepted : initial.setSpans spans = .ok parser) (unlimited : initial.limit = 0)
    (boundaries : ∀ span ∈ spans, span.start.bytes < span.stop.bytes →
      text.isBoundary span.start.bytes = true ∧ text.isBoundary span.stop.bytes = true)
    (short : text.size < maxOffset) (identity : Nat) :
    ∃ result, parser.parseIn (Language.arithmetic identity) text none = .ok result ∧
      ∀ leaf ∈ result.document.root.leaves, leaf.start.bytes < leaf.stop.bytes →
        text.Includes parser.included leaf.start.bytes ∧
        text.EndsAt parser.included leaf.stop.bytes ∧
        ((∀ span ∈ parser.included, span.IsBare text → span.start.bytes ≠ leaf.stop.bytes) →
          text.Includes parser.included (leaf.stop.bytes - 1)) := by
  have cut := Parser.cut_included accepted boundaries short
  have limit := (Parser.limit_setSpans accepted).trans unlimited
  rcases exists_concludes cut.ordered identity text none with ⟨parsed, skipped, draft, concludes⟩
  rcases concludes.exists_parsed with ⟨result, run⟩
  refine ⟨result, run, fun leaf member longer => ?_⟩
  rcases concludes.calls with ⟨scans, calls⟩
  have bounds := calls.bounds cut (bounds_begun cut.ordered identity text)
  have running := concludes.running limit rfl
  rcases concludes.ended with halted | ⟨final, ahead, ends⟩
  · rw [running] at halted
    cases halted
  · rcases bounds.ahead final ahead with ⟨bare, bounded⟩
    have leaves := concludes.leaves_of_running run running ahead ends bounds.childless bare
    have along := bounds.along.add (bounds.position_eq ▸ bounded)
    rw [← leaves] at along
    have fitted : result.document.tree.Fitted :=
      Parser.in_parseIn Tree.isFamily_fitted byInterface_grammar (by simp) run
    have placed : (leaf.tree, leaf.span) ∈ Tree.laidOut Extent.zero result.document.tree.leaves := by
      rw [← Node.spans_leaves fitted]
      exact List.mem_map_of_mem member
    rcases along _ placed longer with ⟨begins, stops⟩
    exact ⟨begins, stops, stops.includes⟩

/-- A sum with two excluded bytes behind its first number, and a span behind the text. -/
theorem leaves_bounded_sum :
    let text : Text := #[49, 50, 120, 120, 43, 51]
    let spans : List Span :=
      [⟨⟨0, 0, 0⟩, ⟨2, 0, 2⟩⟩, ⟨⟨4, 0, 4⟩, ⟨6, 0, 6⟩⟩, ⟨⟨9, 1, 0⟩, ⟨12, 1, 3⟩⟩]
    ∃ parser result, Parser.new.setSpans spans = .ok parser ∧ Parser.new.limit = 0 ∧
      (∀ span ∈ spans, span.start.bytes < span.stop.bytes →
        text.isBoundary span.start.bytes = true ∧ text.isBoundary span.stop.bytes = true) ∧
      text.size < maxOffset ∧ parser.parseIn (Language.arithmetic 0) text none = .ok result ∧
      ∀ leaf ∈ result.document.root.leaves, leaf.start.bytes < leaf.stop.bytes →
        text.Includes parser.included leaf.start.bytes ∧
        text.EndsAt parser.included leaf.stop.bytes ∧
        ((∀ span ∈ parser.included, span.IsBare text → span.start.bytes ≠ leaf.stop.bytes) →
          text.Includes parser.included (leaf.stop.bytes - 1)) := by
  intro text spans
  have accepted : Parser.new.setSpans spans = .ok { Parser.new with spans } := rfl
  have boundaries : ∀ span ∈ spans, span.start.bytes < span.stop.bytes →
      text.isBoundary span.start.bytes = true ∧ text.isBoundary span.stop.bytes = true := by
    decide
  have short : text.size < maxOffset := by decide
  rcases leaves_bounded accepted rfl boundaries short 0 with ⟨result, run, bounded⟩
  exact ⟨_, result, accepted, rfl, boundaries, short, run, bounded⟩

/-- In the same sum an empty span lies between the two excluded bytes: the number reaches over the
first of them. -/
theorem number_reaches_out :
    let text : Text := #[49, 50, 120, 120, 43, 51]
    let spans : List Span :=
      [⟨⟨0, 0, 0⟩, ⟨2, 0, 2⟩⟩, ⟨⟨3, 0, 3⟩, ⟨3, 0, 3⟩⟩, ⟨⟨4, 0, 4⟩, ⟨6, 0, 6⟩⟩]
    ∃ (parser : Parser) (result : Parsed) (leaf : Node),
      Parser.new.setSpans spans = .ok parser ∧ Parser.new.limit = 0 ∧
      (∀ span ∈ spans, span.start.bytes < span.stop.bytes →
        text.isBoundary span.start.bytes = true ∧ text.isBoundary span.stop.bytes = true) ∧
      text.size < maxOffset ∧ parser.parseIn (Language.arithmetic 0) text none = .ok result ∧
      leaf ∈ result.document.root.leaves ∧ leaf.start.bytes < leaf.stop.bytes ∧
      ¬text.Includes parser.included (leaf.stop.bytes - 1) := by
  intro text spans
  let parser : Parser := { Parser.new with spans }
  have reaches : (match parser.parseIn (Language.arithmetic 0) text none with
      | .ok result => result.document.root.leaves.any fun leaf =>
          decide (leaf.start.bytes < leaf.stop.bytes) &&
            !decide (text.Includes parser.included (leaf.stop.bytes - 1))
      | .error _ => false) = true := by decide +kernel
  cases run : parser.parseIn (Language.arithmetic 0) text none with
  | error fault => simp [run] at reaches
  | ok result =>
      simp only [run, List.any_eq_true, Bool.and_eq_true, decide_eq_true_eq, Bool.not_eq_true',
        decide_eq_false_iff_not] at reaches
      rcases reaches with ⟨leaf, member, longer, outside⟩
      exact ⟨parser, result, leaf, rfl, rfl, by decide, by decide, run, member, longer, outside⟩

end Arithmetic

end Reparse
