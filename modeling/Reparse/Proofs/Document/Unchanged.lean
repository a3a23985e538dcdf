import Reparse.Proofs.Document.Obtained
import Reparse.Proofs.Node.Place

/-!
# What an unmarked node promises

Edits mark the nodes whose text they may have touched. A node that is still unmarked has moved with
its text: the stretch that its scan depended on, from the start of the padding to the last byte that
was looked at, reads as it did when the document was parsed.
-/

namespace Reparse

/-- The text from the start of a node's padding to the end of what its scan depended on, cut off at
the end of the text. -/
def Node.window (node : Node) (text : Text) : Text :=
  text.extract (node.start.bytes - node.info.padding.bytes)
    (node.stop.bytes + node.info.lookahead)

/-- The window of a node begins where the subtree lies and is as long as its reach. -/
theorem Node.window_eq {node : Node} {offset : Nat} (text : Text)
    (start : node.start.bytes = offset + node.info.padding.bytes) :
    node.window text = text.extract offset (offset + node.tree.reach) := by
  have first : node.start.bytes - node.info.padding.bytes = offset := Node.left_eq start
  rw [Node.window, first, Node.stop_add_lookahead start]

/-- A node that no edit marked is the node that the parse made, with its padding and its size, and
its window in the edited text is the window that it had in the text that was parsed. -/
theorem unmarked_node_keeps_text {parser : Parser} {language : Language} {text : Text}
    {old : Option Document} {parsed : Parsed} {current : Document} {currentText : Text}
    {trail : List Nat} {node : Node} (byInterface : Parsing.ByInterface language.grammar)
    (older : ∀ document, old = some document → document.Obtained)
    (run : parser.parseIn language text old = .ok parsed)
    (revised : parsed.document.Revised text current currentText)
    (resolved : Node.resolve current.tree trail = some node)
    (unmarked : node.info.changed = false) :
    ∃ original, Node.resolve parsed.document.tree trail = some original ∧
      original.tree = node.tree ∧ node.window currentText = original.window text := by
  have obtained : parsed.document.Obtained := .parsed byInterface older run
  have laid := (revised.obtained obtained).sound.laid
  rcases Node.at_of_resolve laid resolved with ⟨offset, at_, start⟩
  rcases revised.agree obtained at_ unmarked with ⟨source, before, agree⟩
  rcases Node.exists_resolve obtained.sound.laid before with
    ⟨original, originally, same, originalStart⟩
  refine ⟨original, originally, same, ?_⟩
  have sameStart : original.start.bytes = source + original.info.padding.bytes := by
    rw [originalStart, ← same]
    rfl
  rw [Node.window_eq currentText start, Node.window_eq text sameStart, same, agree.extract_eq]

/-- In `12+(3)`, whose first number is replaced by `457`, the operand in parentheses moves on by one
byte. -/
theorem unmarked_node_keeps_text_moved :
    ∃ parsed node original,
      Parser.new.parseIn (Language.arithmetic 0) #[49, 50, 43, 40, 51, 41] none = .ok parsed ∧
      Node.resolve (parsed.document.edit
        ⟨⟨0, ⟨0, 0⟩⟩, ⟨2, ⟨0, 2⟩⟩, ⟨3, ⟨0, 3⟩⟩⟩).tree [2, 0] = some node ∧
      node.info.changed = false ∧ node.start.bytes = 4 ∧
      Node.resolve parsed.document.tree [2, 0] = some original ∧ original.tree = node.tree ∧
      node.window #[52, 53, 55, 43, 40, 51, 41] =
        original.window #[49, 50, 43, 40, 51, 41] := by
  let text : Text := #[49, 50, 43, 40, 51, 41]
  let edit : Edit := ⟨⟨0, ⟨0, 0⟩⟩, ⟨2, ⟨0, 2⟩⟩, ⟨3, ⟨0, 3⟩⟩⟩
  have facts : (match Parser.new.parseIn (Language.arithmetic 0) text none with
      | .ok parsed =>
        (Node.resolve (parsed.document.edit edit).tree [2, 0]).any fun node =>
          !node.info.changed && node.start.bytes == 4
      | .error _ => false) = true := by decide +kernel
  cases run : Parser.new.parseIn (Language.arithmetic 0) text none with
  | error fault => simp [run] at facts
  | ok parsed =>
      simp only [run, Option.any_eq_true, Bool.and_eq_true, Bool.not_eq_true',
        beq_iff_eq] at facts
      rcases facts with ⟨node, resolved, unmarked, start⟩
      have fits : edit.Fits text #[52, 53, 55] := ⟨by decide, by decide, by decide⟩
      rcases unmarked_node_keeps_text Arithmetic.byInterface_grammar (by simp) run
        (.edited .unedited fits) resolved unmarked with ⟨original, originally, same, window⟩
      exact ⟨parsed, node, original, rfl, resolved, unmarked, start, originally, same, window⟩

end Reparse
