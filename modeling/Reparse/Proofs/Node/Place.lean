import Reparse.Proofs.Node.Current
import Reparse.Proofs.Tree.Sound

/-!
# Where nodes start

A node handed out by a document knows where its content starts. In a tree that is laid out this is
where the subtree lies, after its padding: the nodes that child numbers resolve to
(`Node.resolve`) and the places of subtrees (`Tree.At`) are the same thing.
-/

namespace Reparse

namespace Node

open Reparse.Tree (paddingOf AtAmong IsLaid)

/-- Where the content before some children ends, the first of them having number `index` and
beginning at `base`. The content of child 0 starts where that of its parent does. -/
def Follows (base index : Nat) (place : Extent) (children : List (Edge Tree)) : Prop :=
  place.bytes = base + if index = 0 then (paddingOf children).bytes else 0

variable {trail path : List Nat} {base index number offset : Nat} {place : Extent}
  {field : Nat} {child : Tree} {rest children : List (Edge Tree)} {node : Node} {tree found : Tree}

theorem bytes_startOf (follows : Follows base index place (⟨field, child⟩ :: rest)) :
    (startOf index place child).bytes = base + child.info.padding.bytes := by
  simp only [Follows, paddingOf] at follows
  simp only [startOf]
  split
  · rw [follows, if_pos ‹_›]
  · rw [Extent.bytes_add, follows, if_neg ‹_›, Nat.add_zero]

theorem Follows.next (follows : Follows base index place (⟨field, child⟩ :: rest)) :
    Follows (base + child.total.bytes) (index + 1) (startOf index place child + child.info.size)
      rest := by
  have start := bytes_startOf follows
  simp only [Follows, Extent.bytes_add, start, Nat.add_one_ne_zero, if_false, Tree.total,
    Info.total]
  omega

/-- The child with a number stands where the layout has it, and so does all that is below it. -/
theorem at_of_placedAt (follows : Follows base index place children)
    (placed : placedAt trail index place number children = some node) :
    ∃ before, node.start.bytes = base + before + node.info.padding.bytes ∧
      ∀ path inner found, node.tree.At path inner found →
        AtAmong children number path (before + inner) found := by
  induction children generalizing base index number place with
  | nil => simp [placedAt] at placed
  | cons edge rest ih =>
      rcases edge with ⟨field, child⟩
      cases number with
      | zero =>
          simp only [placedAt, Option.some.injEq] at placed
          subst placed
          refine ⟨0, bytes_startOf follows, ?_⟩
          intro path inner found at_
          rw [Nat.zero_add]
          exact .first at_
      | succ number =>
          rcases ih follows.next placed with ⟨before, start, below⟩
          refine ⟨child.total.bytes + before, by omega, ?_⟩
          intro path inner found at_
          rw [Nat.add_assoc]
          exact .later (below path inner found at_)

theorem exists_placedAt (trail : List Nat) (follows : Follows base index place children)
    (among : AtAmong children number path offset found) :
    ∃ node before inner, placedAt trail index place number children = some node ∧
      node.start.bytes = base + before + node.info.padding.bytes ∧
      node.tree.At path inner found ∧ offset = before + inner := by
  induction children generalizing base index number place offset with
  | nil => cases among
  | cons edge rest ih =>
      cases among with
      | first within =>
          exact ⟨_, 0, offset, rfl, bytes_startOf follows, within, (Nat.zero_add _).symm⟩
      | @later _ child _ _ _ inner _ among =>
          rcases ih follows.next among with ⟨node, before, inner, placed, start, at_, same⟩
          exact ⟨node, child.total.bytes + before, inner, placed, by omega, at_, by omega⟩

/-- The children of a node begin where the node does. -/
theorem follows_start (laid : node.tree.Laid)
    (start : node.start.bytes = base + node.info.padding.bytes) :
    Follows base 0 node.start node.tree.children ∨ node.tree.children = [] := by
  rcases node with ⟨⟨info, children⟩, place, trail⟩
  cases children with
  | nil => exact Or.inr rfl
  | cons edge rest =>
      left
      have padding := laid.padding_eq
      simp only [Node.info, Tree.info_node] at start
      simp only [Follows, Tree.children_node, paddingOf, if_true]
      omega

theorem at_of_follow (node : Node) {below : Node} (laid : node.tree.Laid)
    (start : node.start.bytes = base + node.info.padding.bytes)
    (followed : node.follow path = some below) :
    ∃ offset, node.tree.At path offset below.tree ∧
      below.start.bytes = base + offset + below.info.padding.bytes := by
  induction path generalizing node base with
  | nil =>
      simp only [follow, Option.some.injEq] at followed
      subst followed
      exact ⟨0, .here _, start⟩
  | cons number path ih =>
      rcases follow_cons_iff.mp followed with ⟨child, placed, onward⟩
      rcases follows_start laid start with follows | empty
      · rcases at_of_placedAt follows placed with ⟨before, childStart, lift⟩
        rcases node with ⟨⟨info, children⟩, place, trail⟩
        have childAt : (Tree.node info children).At [number] before child.tree :=
          .inside (lift [] 0 child.tree (.here _))
        rcases ih _ (childAt.everywhere laid) childStart onward with ⟨offset, at_, below⟩
        exact ⟨before + offset, .inside (lift path offset _ at_), by omega⟩
      · simp [placed?, placedAt, empty] at placed

theorem exists_follow (node : Node) (laid : node.tree.Laid)
    (start : node.start.bytes = base + node.info.padding.bytes)
    (at_ : node.tree.At path offset found) :
    ∃ below, node.follow path = some below ∧ below.tree = found ∧
      below.start.bytes = base + offset + found.info.padding.bytes := by
  induction path generalizing node base offset with
  | nil =>
      rcases node with ⟨tree, place, trail⟩
      cases at_
      exact ⟨_, rfl, rfl, start⟩
  | cons number path ih =>
      rcases follows_start laid start with follows | empty
      · rcases node with ⟨⟨info, children⟩, content, trail⟩
        cases at_ with
        | inside among =>
            rcases exists_placedAt trail follows among with
              ⟨child, before, inner, placed, childStart, childAt, rfl⟩
            rcases at_of_placedAt follows placed with ⟨again, sameStart, lift⟩
            have at_ : (Tree.node info children).At [number] again child.tree :=
              .inside (lift [] 0 child.tree (.here _))
            rcases ih _ (at_.everywhere laid) childStart childAt with ⟨below, followed, same, place⟩
            exact ⟨below, follow_cons_iff.mpr ⟨child, placed, followed⟩, same, by omega⟩
      · rcases node with ⟨⟨info, children⟩, place, trail⟩
        simp only [Tree.children_node] at empty
        subst empty
        cases at_ with
        | inside among => cases among

/-- A node that a trail resolves to stands where the subtree lies. -/
theorem at_of_resolve (laid : tree.Laid) (resolved : resolve tree trail = some node) :
    ∃ offset, tree.At trail.reverse offset node.tree ∧
      node.start.bytes = offset + node.info.padding.bytes := by
  have start : (root tree).start.bytes = 0 + (root tree).info.padding.bytes := (Nat.zero_add _).symm
  rcases at_of_follow (root tree) laid start resolved with ⟨offset, at_, place⟩
  exact ⟨offset, at_, by omega⟩

/-- The byte where the padding of a node begins. -/
def left (node : Node) : Nat := node.start.bytes - node.info.padding.bytes

/-- A node begins, with its padding, where its subtree lies. -/
theorem left_eq (start : node.start.bytes = offset + node.info.padding.bytes) :
    node.left = offset := by
  rw [left, start, Nat.add_sub_cancel]

/-- What a node looked at ends where the reach of its subtree does. -/
theorem stop_add_lookahead (start : node.start.bytes = offset + node.info.padding.bytes) :
    node.stop.bytes + node.info.lookahead = offset + node.tree.reach := by
  simp only [stop, Extent.bytes_add, start, Tree.reach, Tree.total, Info.total, info]
  omega

/-- Wherever a subtree lies, a trail resolves to it. -/
theorem exists_resolve (laid : tree.Laid) (at_ : tree.At trail.reverse offset found) :
    ∃ node, resolve tree trail = some node ∧ node.tree = found ∧
      node.start.bytes = offset + found.info.padding.bytes := by
  have start : (root tree).start.bytes = 0 + (root tree).info.padding.bytes := (Nat.zero_add _).symm
  rcases exists_follow (root tree) laid start at_ with ⟨node, followed, same, place⟩
  exact ⟨node, followed, same, by omega⟩

end Node

end Reparse
