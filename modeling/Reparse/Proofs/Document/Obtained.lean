import Reparse.Proofs.Edit.Unchanged
import Reparse.Proofs.Parse.Families

/-!
# Documents that can be come by

Documents come from parses, and from other documents by edits, copies and the handing out of nodes.
Their trees are sound, whichever way they went: a parse may take over subtrees of edited documents,
which came from parses of their own.
-/

namespace Reparse

/-- What ends well has a result. -/
theorem exists_ok_of_isOk {ε α : Type} {computed : Except ε α} (well : computed.isOk = true) :
    ∃ result, computed = .ok result := by
  cases computed with
  | error fault => cases well
  | ok result => exact ⟨result, rfl⟩

namespace Document

/-- The documents that parses, edits, copies and the handing out of nodes lead to. The grammars go by
the interface, and an edit does not end before it starts. -/
inductive Obtained : Document → Prop where
  | parsed {parser : Parser} {language : Language} {text : Text} {old : Option Document}
      {result : Parsed} (byInterface : Parsing.ByInterface language.grammar)
      (older : ∀ document, old = some document → Obtained document)
      (run : parser.parseIn language text old = .ok result) : Obtained result.document
  | edited {document : Document} (obtained : Obtained document) {edit : Edit}
      (forward : edit.Forward) : Obtained (document.edit edit)
  | copied {document : Document} (obtained : Obtained document) : Obtained document.copy
  | handedOut {document : Document} (obtained : Obtained document) (node : Node) :
      Obtained (document.handOut node).2

/-- A parse that takes nothing over leads to such a document. -/
theorem Obtained.fresh {parser : Parser} {language : Language} {text : Text} {result : Parsed}
    (byInterface : Parsing.ByInterface language.grammar)
    (run : parser.parseIn language text none = .ok result) : result.document.Obtained := by
  refine .parsed byInterface ?_ run
  intro document older
  cases older

theorem tree_handOut (document : Document) (node : Node) :
    (document.handOut node).2.tree = document.tree := by
  unfold handOut
  split <;> rfl

theorem Obtained.sound {document : Document} (obtained : document.Obtained) :
    document.tree.Sound := by
  induction obtained with
  | parsed byInterface _ run ih => exact Parser.in_parseIn Tree.isFamily_sound byInterface ih run
  | edited _ forward ih => exact ih.edit forward
  | copied _ ih => exact ih
  | handedOut _ node ih =>
      rw [tree_handOut]
      exact ih

/-- The counts in the tree of such a document are right. -/
theorem Obtained.counted {document : Document} (obtained : document.Obtained) :
    document.tree.Counted := by
  induction obtained with
  | parsed byInterface _ run ih =>
      exact Parser.in_parseIn Tree.isFamily_counted byInterface ih run
  | edited _ _ ih => exact ih.edit _
  | copied _ ih => exact ih
  | handedOut _ node ih =>
      rw [tree_handOut]
      exact ih

/-- A document and its text after edits that were made alike to both. -/
inductive Revised (document : Document) (text : Text) : Document → Text → Prop where
  | unedited : Revised document text document text
  | edited {current : Document} {currentText inserted : Text} {edit : Edit}
      (revised : Revised document text current currentText)
      (fits : edit.Fits currentText inserted) :
      Revised document text (current.edit edit) (edit.apply currentText inserted)

namespace Revised

variable {document current : Document} {text currentText : Text}

theorem obtained (revised : document.Revised text current currentText)
    (start : document.Obtained) : current.Obtained := by
  induction revised with
  | unedited => exact start
  | edited _ fits ih => exact ih.edited fits.forward

/-- An unmarked subtree stands over the bytes that it stood over before all edits. -/
theorem agree (revised : document.Revised text current currentText) (start : document.Obtained)
    {path : List Nat} {offset : Nat} {found : Tree} (at_ : current.tree.At path offset found)
    (unmarked : found.info.changed = false) :
    ∃ source, document.tree.At path source found ∧
      text.Agree currentText source offset found.reach := by
  induction revised generalizing offset with
  | unedited => exact ⟨offset, at_, fun _ _ => rfl⟩
  | edited revised fits ih =>
      rcases Tree.At.agree_edit fits (revised.obtained start).sound at_ unmarked with
        ⟨between, before, last⟩
      rcases ih before with ⟨source, original, first⟩
      exact ⟨source, original, first.trans last⟩

end Revised

end Document

end Reparse
