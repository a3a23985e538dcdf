import Reparse.Proofs.Arithmetic.Termination
import Reparse.Proofs.Document.Obtained
import Reparse.Proofs.Edit.Measure
import Reparse.Proofs.Parse.Tracked

/-!
# Rows and columns agree with bytes

A document keeps the extents of its nodes in bytes and, side by side, in rows and columns. The two
never come apart: the tree of a parsed text is measured by the text (`Parser.measured_parseIn`), edits
whose places are right keep it measured by the edited text, and so every node starts and ends at the
row and the column of its byte offset in the current text (`Document.points_agree`). The grammar only
has to keep to its handles, as the grammar of arithmetic does (`Arithmetic.keepsHandles`).
-/

namespace Reparse

open Reparse.Tree (Among)

namespace Parser

variable {parser : Parser} {language : Language} {text : Text} {old : Option Document}
  {result : Parsed}

/-- A parse of a whole text begins with nothing consumed. -/
theorem tracked_begun (everything : parser.spans = []) (short : text.size < maxOffset)
    (lends : ∀ tree, parser.reusableTree language old = some tree → tree.LendsOver text) :
    (parser.begun language text old).Tracked text Handles.empty where
  fit := Handles.fit_empty
  measured := by
    have included : parser.included = [Span.whole] := by simp [Parser.included, everything]
    rw [begun, included]
    refine ⟨lends, Context.placed_new short, 0, Nat.zero_le _, rfl, Tree.measuredAmong_nil, rfl,
      fun _ _ present => ?_⟩
    cases present

/-- The tree of a whole text is measured by the text and does not reach past it, if what it may take
over is. -/
theorem measured_parseIn_of_lends (everything : parser.spans = []) (short : text.size < maxOffset)
    (keeps : language.grammar.KeepsHandles (parser.begun language text old))
    (sound : ∀ tree, parser.reusableTree language old = some tree → tree.Lends Tree.Sound)
    (lends : ∀ tree, parser.reusableTree language old = some tree → tree.LendsOver text)
    (run : parser.parseIn language text old = .ok result) :
    result.document.tree.Measured text 0 ∧ result.document.tree.Laid ∧
      result.document.tree.total.bytes ≤ text.size := by
  dsimp only [parseIn] at run
  split at run
  · cases run
  · rename_i tree context whole
    cases run
    rcases Parsing.run_wholeTree_ok whole with ⟨parsed, skipped, items, parse, skip, fold, rfl, _⟩
    rcases keeps parsed parse with ⟨handles, handled⟩
    -- what is built of sound trees is sound, so the parts of the root are laid out
    have holds : parsed.Holds Tree.Sound := by
      refine handled.preserves (Parsing.operationsPreserve_holds Tree.isFamily_sound) ?_
      refine ⟨fun tree wrapper field member => ?_, nofun, sound⟩
      simp [begun, Context.report, Context.new] at member
    have skippedHolds :=
      (Parsing.operationsPreserve_holds Tree.isFamily_sound).skipRest _ skip holds
    rcases skippedHolds.lastToken Tree.isFamily_sound.isHereditary with ⟨lastIn, endedHolds⟩
    have sound : Among Tree.Sound (items ++ [⟨0, skipped.lastToken.1⟩]) := by
      simp only [Tree.among_append, Tree.among_cons, Tree.among_nil, and_true]
      exact ⟨Event.in_fold Tree.isFamily_sound.isHereditary endedHolds.events fold, lastIn⟩
    -- a balanced record folds to all that was consumed
    have tracked :=
      (handled.tracked short (tracked_begun everything short lends)).skipRest short skip
    rcases tracked.lastToken short with ⟨balanced, measured, within⟩
    rcases Tree.measuredAmong_append.mp measured with ⟨among, last⟩
    rcases Event.measured_fold fold balanced among with ⟨folded, width⟩
    have parts : Tree.MeasuredAmong text 0 (items ++ [⟨0, skipped.lastToken.1⟩]) := by
      refine Tree.measuredAmong_append.mpr ⟨folded, ?_⟩
      rw [width]
      exact last
    rcases Tree.measured_root skipped.lastToken.2.vocabulary parts (Tree.SoundAmong.laid sound) with
      ⟨root, total⟩
    refine ⟨root, (Tree.isFamily_sound.root _ sound).laid, ?_⟩
    change (Tree.root _ _).total.bytes ≤ _
    rw [total, Tree.widthOf_append, width, ← Tree.widthOf_append]
    exact within

/-- The tree of a whole text is measured by the text and does not reach past it. -/
theorem measured_parseIn (everything : parser.spans = []) (short : text.size < maxOffset)
    (keeps : language.grammar.KeepsHandles (parser.begun language text none))
    (run : parser.parseIn language text none = .ok result) :
    result.document.tree.Measured text 0 ∧ result.document.tree.Laid ∧
      result.document.tree.total.bytes ≤ text.size :=
  measured_parseIn_of_lends everything short keeps nofun nofun run

end Parser

namespace Document

/-- A document and its text after edits that were made alike to both, with places that are right. -/
inductive Marked (document : Document) (text : Text) : Document → Text → Prop where
  | unedited : Marked document text document text
  | edited {current : Document} {currentText inserted : Text} {edit : Edit}
      (marked : Marked document text current currentText)
      (marks : edit.Marks currentText inserted) :
      Marked document text (current.edit edit) (edit.apply currentText inserted)

variable {document current : Document} {text currentText : Text}

/-- Edits keep a tree measured by the text that goes with it. -/
theorem Marked.measured (marked : document.Marked text current currentText)
    (measured : document.tree.Measured text 0) (laid : document.tree.Laid)
    (within : document.tree.total.bytes ≤ text.size) :
    current.tree.Measured currentText 0 ∧ current.tree.Laid ∧
      current.tree.total.bytes ≤ currentText.size := by
  induction marked with
  | unedited => exact ⟨measured, laid, within⟩
  | @edited current currentText inserted edit _ marks ih =>
      rcases ih with ⟨measured, laid, within⟩
      have forward := marks.fits.forward
      refine ⟨measured.edited laid marks, laid.edit forward, ?_⟩
      have size := marks.fits.size_apply
      have inside := marks.fits.inside
      have total := Tree.total_edit current.tree forward
      change (current.tree.edit edit).total.bytes ≤ _
      rw [total]
      by_cases reaches : edit.Reaches current.tree.total.bytes
      · rw [Edit.resized_of_reaches reaches]
        omega
      · rw [Edit.resized_of_not_reaches reaches]
        simp only [Edit.Reaches] at reaches
        rcases forward with ⟨old, new⟩
        omega

end Document

/-! ## The grammar of arithmetic -/

/-- The grammar of arithmetic keeps to its handles, since it makes its calls in order. -/
theorem Arithmetic.keepsHandles {parser : Parser} (everything : parser.spans = []) (identity : Nat)
    (text : Text) (old : Option Document) :
    (Language.arithmetic identity).grammar.KeepsHandles
      (parser.begun (Language.arithmetic identity) text old) := by
  intro after ran
  have ordered := Parser.ordered_of_everything everything
  have under := Parser.underway_arithmetic ordered identity text old
  rcases grows_grammar under with ⟨_, arrived, draft, run, reached, _⟩
  rcases reached.calls with ⟨scans, calls⟩
  rcases calls.handled with ⟨handles, handled, _⟩
  rcases Except.ok.inj (ran.symm.trans run) with ⟨_, rfl⟩
  exact ⟨handles, handled⟩

/-! ## Rows and columns -/

namespace Document

/-- Rows and columns agree with bytes: after any edits whose places are right, every node of the
document of a whole text starts and ends in the current text, at the row and the column that its
first and its last byte offset have there. -/
theorem points_agree {parser : Parser} {language : Language} {text currentText : Text}
    {result : Parsed} {current : Document} {trail : List Nat} {node : Node}
    (everything : parser.spans = []) (short : text.size < maxOffset)
    (keeps : language.grammar.KeepsHandles (parser.begun language text none))
    (run : parser.parseIn language text none = .ok result)
    (marked : result.document.Marked text current currentText)
    (resolved : Node.resolve current.tree trail = some node) :
    (node.start.bytes ≤ node.stop.bytes ∧ node.stop.bytes ≤ currentText.size) ∧
      node.start.point = currentText.pointAt node.start.bytes ∧
      node.stop.point = currentText.pointAt node.stop.bytes := by
  rcases Parser.measured_parseIn everything short keeps run with ⟨measured, laid, within⟩
  rcases marked.measured measured laid within with ⟨measured, laid, within⟩
  have own : node.Measured currentText := Node.measured_of_resolve laid measured resolved
  rcases Node.at_of_resolve laid resolved with ⟨offset, at_, place⟩
  have inside := at_.le_total laid
  have ends : node.stop.bytes = offset + node.tree.total.bytes := by
    change node.start.bytes + node.info.size.bytes =
      offset + (node.info.padding.bytes + node.info.size.bytes)
    omega
  have order : node.start.bytes ≤ node.stop.bytes := Nat.le_add_right _ _
  have last : node.stop.bytes ≤ currentText.size := by omega
  refine ⟨⟨order, last⟩, ?_, ?_⟩
  · rw [← Text.point_place (Nat.le_trans order last), ← own.start_eq]
  · rw [← Text.point_place last, ← own.stop_eq]

/-- The line end and the sign of a sum on two lines are replaced by a sign and two line ends: the
root of the edited document stands where it should in the text on three lines. -/
theorem points_agree_sum :
    let text : Text := #[49, 10, 43, 50]
    let inserted : Text := #[42, 10, 10]
    let edit : Edit := ⟨⟨1, 0, 1⟩, ⟨3, 1, 1⟩, ⟨4, 2, 0⟩⟩
    ∃ result, Parser.new.parseIn (Language.arithmetic 0) text none = .ok result ∧
      result.document.Marked text (result.document.edit edit) (edit.apply text inserted) ∧
      ∃ node, Node.resolve (result.document.edit edit).tree [] = some node ∧
        node.start.point = (edit.apply text inserted).pointAt node.start.bytes ∧
        node.stop.point = (edit.apply text inserted).pointAt node.stop.bytes := by
  intro text inserted edit
  have parses : (Parser.new.parseIn (Language.arithmetic 0) text none).isOk = true := by
    decide +kernel
  rcases exists_ok_of_isOk parses with ⟨result, run⟩
  have marks : edit.Marks text inserted :=
    { fits := ⟨by decide, by decide, by decide⟩
      start_eq := by decide
      oldStop_eq := by decide
      newStop_eq := by decide }
  have marked : result.document.Marked text (result.document.edit edit)
      (edit.apply text inserted) := .edited .unedited marks
  have keeps := @Arithmetic.keepsHandles Parser.new rfl 0 text none
  have resolved : Node.resolve (result.document.edit edit).tree [] =
      some (Node.root (result.document.edit edit).tree) := rfl
  exact ⟨result, run, marked, _, resolved,
    (points_agree rfl (by decide) keeps run marked resolved).2⟩

end Document

end Reparse
