import Reparse.Syntax.Tree
import Reparse.Text.Edit

/-!
# Editing trees

When a document is edited its tree is edited too: nodes after the edit move, the nodes it touches
change their size, and every node whose extent (padding and looked-at bytes included) touches the
edit is marked as changed. No node is added or removed.

New text goes to the first child that reaches the edit; for the children after it the edit only
removes text.
-/

namespace Reparse

namespace Info

/-- Whether an edit, given relative to the start of the node, lies past everything that the node
depends on. -/
def isBefore (info : Info) (edit : Edit) : Bool :=
  let reach := info.total.bytes + info.lookahead
  decide (reach < edit.start.bytes) || (edit.isEmpty && edit.start.bytes == reach)

/-- The record after an edit that touches the node. -/
def reshape (info : Info) (edit : Edit) : Info :=
  if edit.oldStop.bytes ≤ info.padding.bytes then
    { info with
      padding := edit.newStop + (info.padding - edit.oldStop)
      changed := true }
  else if edit.start.bytes < info.padding.bytes then
    { info with
      padding := edit.newStop
      size := info.size.remainder (edit.oldStop - info.padding)
      changed := true }
  else if edit.start.bytes < info.total.bytes ∨
      (edit.start.bytes = info.total.bytes ∧ edit.isInsertion) then
    { info with
      size := (edit.newStop - info.padding) + info.total.remainder edit.oldStop
      changed := true }
  else { info with changed := true }

end Info

namespace Edit

/-- The edit with its new text left out. -/
def withoutNew (edit : Edit) : Edit := { edit with newStop := edit.start }

/-- The edit with nothing removed and nothing added. -/
def emptied (edit : Edit) : Edit := { edit with oldStop := edit.start, newStop := edit.start }

end Edit

namespace Tree

mutual

/-- The tree after an edit whose positions are relative to the start of the tree. -/
def edit (edit : Edit) : Tree → Tree
  | node info children =>
    if info.isBefore edit then node info children
    else node (info.reshape edit) (editChildren edit true Extent.zero children)

/-- The children of a node after an edit, from the one that begins at `left` on. -/
def editChildren (edit : Edit) (first : Bool) (left : Extent) :
    List (Edge Tree) → List (Edge Tree)
  | [] => []
  | ⟨field, child⟩ :: rest =>
    let right := left + child.total
    if right.bytes + child.info.lookahead < edit.start.bytes then
      ⟨field, child⟩ :: editChildren edit false right rest
    else if edit.oldStop.bytes < left.bytes ∨
        (left.bytes = edit.oldStop.bytes ∧ 0 < child.total.bytes ∧ !first) then
      ⟨field, child⟩ :: rest
    else if edit.start.bytes < right.bytes ∨
        (right.bytes = edit.start.bytes ∧ edit.isInsertion) then
      ⟨field, child.edit (edit.relativeTo left)⟩ :: editChildren edit.withoutNew false right rest
    else
      ⟨field, child.edit (edit.relativeTo left).emptied⟩ :: editChildren edit false right rest

end

end Tree

end Reparse
