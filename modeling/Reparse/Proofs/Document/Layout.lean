import Reparse.Grammar.Arithmetic
import Reparse.Proofs.Document.Obtained
import Reparse.Proofs.Node.Order

/-!
# Layout through edits

Every document that can be come by has a tree that is laid out, and edits keep a tree laid out
without moving a node to another place in it. The length of the tree follows the length of the text.
So the children of a node, hidden or not, go on to lie one behind the other within the node, whatever
edits were made.
-/

namespace Reparse

namespace Node

open Reparse.Tree (IsLaid EverywhereAmong everywhereAmong_cons widthOf)

variable {node : Node}

/-- Children laid end to end lie one behind the other. -/
theorem inOrder_placedFrom {base : Nat} {trail : List Nat} {index : Nat} {place : Extent}
    {children : List (Edge Tree)} (follows : Follows base index place children) :
    InOrder place.bytes (base + widthOf children) (placedFrom trail index place children) := by
  induction children generalizing base index place with
  | nil => exact inOrder_nil
  | cons edge rest ih =>
      rcases edge with ⟨own, child⟩
      let entered : Node := ⟨child, startOf index place child, index :: trail⟩
      have first : place.bytes ≤ entered.start.bytes := le_startOf index place child
      have inside : entered.start.bytes ≤ entered.stop.bytes := by simp [bytes_stop]
      have stop : entered.stop.bytes = base + child.total.bytes := follows.stop
      have later : InOrder entered.stop.bytes (base + widthOf (⟨own, child⟩ :: rest))
          (placedFrom trail (index + 1) (startOf index place child + child.info.size) rest) := by
        rw [Tree.widthOf_cons, ← Nat.add_assoc]
        exact ih follows.next
      have last : entered.stop.bytes ≤ base + widthOf (⟨own, child⟩ :: rest) := by
        rw [Tree.widthOf_cons]
        omega
      exact ((inOrder_singleton entered own).append later inside last).mono first

/-- All children of a node, hidden ones too, lie one behind the other within it. -/
theorem Stands.placed (stands : node.Stands) :
    InOrder node.start.bytes node.stop.bytes node.placed := by
  unfold Node.placed
  by_cases some : node.tree.children = []
  · rw [some]
    exact inOrder_nil
  · rcases stands.follows some with ⟨base, follows, stop⟩
    rw [← stop]
    exact inOrder_placedFrom follows

end Node

namespace Tree

/-- An edit within the text of a tree changes its length as it changes that of the text. -/
theorem total_edit_of_within (tree : Tree) {edit : Edit} (forward : edit.Forward)
    (within : edit.oldStop.bytes ≤ tree.total.bytes) :
    (tree.edit edit).total.bytes =
      tree.total.bytes - (edit.oldStop.bytes - edit.start.bytes) +
        (edit.newStop.bytes - edit.start.bytes) := by
  rcases forward with ⟨old, new⟩
  have reaches : edit.Reaches tree.total.bytes := by
    simp only [Edit.Reaches]
    omega
  rw [total_edit tree ⟨old, new⟩, Edit.resized_of_reaches reaches]
  omega

/-- Edits made one after the other keep a tree laid out. -/
theorem Laid.editAll {tree : Tree} (laid : tree.Laid) {edits : List Edit}
    (forward : ∀ edit ∈ edits, edit.Forward) :
    (edits.foldl (fun tree edit => tree.edit edit) tree).Laid := by
  induction edits generalizing tree with
  | nil => exact laid
  | cons edit rest ih =>
      rcases List.forall_mem_cons.mp forward with ⟨first, later⟩
      exact ih (Laid.edit first tree laid) later

end Tree

namespace Document

end Document

end Reparse
