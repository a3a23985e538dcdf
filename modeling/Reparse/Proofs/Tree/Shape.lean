import Reparse.Proofs.Tree.Erasure
import Reparse.Proofs.Tree.Layout
import Reparse.Syntax.Edit

/-!
# The shapes of trees

The shape of a tree is what is left of it without lengths, costs and the marks of edits: the symbols,
states, fields and flags of all nodes in order. Editing a tree keeps its shape, and the shape of a
node that is built depends only on the shapes of its children.
-/

namespace Reparse

/-- The record without lengths, costs and the mark of edits. -/
def Info.shape (info : Info) : Info :=
  { info with
    padding := Extent.zero, size := Extent.zero, lookahead := 0, cost := 0, changed := false }

namespace Tree

mutual

def shape : Tree → Tree
  | node info children => node info.shape (shapeAll children)

def shapeAll : List (Edge Tree) → List (Edge Tree)
  | [] => []
  | edge :: rest => ⟨edge.field, edge.tree.shape⟩ :: shapeAll rest

end

@[simp]
theorem info_shape (tree : Tree) : tree.shape.info = tree.info.shape := by
  cases tree
  simp [shape]

@[simp]
theorem children_shape (tree : Tree) : tree.shape.children = shapeAll tree.children := by
  cases tree
  simp [shape]

@[simp]
theorem shapeAll_nil : shapeAll [] = [] := by simp [shapeAll]

@[simp]
theorem shapeAll_cons (edge : Edge Tree) (rest : List (Edge Tree)) :
    shapeAll (edge :: rest) = ⟨edge.field, edge.tree.shape⟩ :: shapeAll rest := by simp [shapeAll]

@[simp]
theorem shapeAll_append (left right : List (Edge Tree)) :
    shapeAll (left ++ right) = shapeAll left ++ shapeAll right := by
  induction left with
  | nil => simp
  | cons edge rest ih => simp [ih]

theorem isErasure_shape : IsErasure shape shapeAll where
  nil := shapeAll_nil
  cons := shapeAll_cons
  children := children_shape
  symbol tree := by rw [info_shape, Info.shape]
  extra tree := by rw [info_shape, Info.shape]
  visible tree := by rw [info_shape, Info.shape]
  named tree := by rw [info_shape, Info.shape]
  visibleChildren tree := by rw [info_shape, Info.shape]
  namedChildren tree := by rw [info_shape, Info.shape]
  visibleDescendants tree := by rw [info_shape, Info.shape]

/-! ## Nodes that are built -/

mutual

@[simp]
theorem shape_shape : (tree : Tree) → tree.shape.shape = tree.shape
  | node info children => by
    simp only [shape]
    rw [shapeAll_shapeAll children]
    rfl

@[simp]
theorem shapeAll_shapeAll : (children : List (Edge Tree)) →
    shapeAll (shapeAll children) = shapeAll children
  | [] => by simp
  | edge :: rest => by
    simp only [shapeAll_cons]
    rw [shape_shape edge.tree, shapeAll_shapeAll rest]

end

theorem shape_leaf (symbol : Nat) (padding size : Extent) (lookahead : Nat) (kind : SymbolKind)
    (extra : Bool) :
    (leaf symbol padding size lookahead kind extra).shape =
      leaf symbol Extent.zero Extent.zero 0 kind extra := by
  simp [leaf, shape, Info.shape, Info.plain]

theorem shape_unexpected (char : Option Char) (padding size : Extent) (lookahead : Nat) :
    (unexpected char padding size lookahead).shape =
      (unexpected char Extent.zero Extent.zero 0).shape := by
  simp [unexpected, shape, Info.shape, Info.plain]

theorem shape_branch (symbol state : Nat) (kind : SymbolKind) (children : List (Edge Tree)) :
    (branch symbol state kind (shapeAll children)).shape =
      (branch symbol state kind children).shape := by
  simp [branch, shape, Info.shape, Info.plain, isErasure_shape.sumOf_visibleShown,
    isErasure_shape.sumOf_namedShown, isErasure_shape.sumOf_visibleBelow]

theorem shape_root (vocabulary : Vocabulary) (items : List (Edge Tree)) :
    (root vocabulary (shapeAll items)).shape = (root vocabulary items).shape :=
  isErasure_shape.root shape_branch vocabulary items

/-! ## Edits -/

theorem shape_reshape (info : Info) (edit : Edit) : (info.reshape edit).shape = info.shape := by
  unfold Info.reshape
  split
  · rfl
  · split
    · rfl
    · split <;> rfl

mutual

theorem shape_edit (edit : Edit) : (tree : Tree) → (tree.edit edit).shape = tree.shape
  | node info children => by
    rw [Tree.edit]
    split
    · rfl
    · simp only [shape, shape_reshape, shapeAll_editChildren edit true Extent.zero children]

theorem shapeAll_editChildren (edit : Edit) (first : Bool) (left : Extent) :
    (children : List (Edge Tree)) → shapeAll (editChildren edit first left children) =
      shapeAll children
  | [] => by simp [editChildren]
  | ⟨field, child⟩ :: rest => by
    rw [editChildren]
    split
    · simp [shapeAll_editChildren edit false (left + child.total) rest]
    · split
      · rfl
      · split
        · simp [shape_edit (edit.relativeTo left) child,
            shapeAll_editChildren edit.withoutNew false (left + child.total) rest]
        · simp [shape_edit (edit.relativeTo left).emptied child,
            shapeAll_editChildren edit false (left + child.total) rest]

end

/-! ## Properties of the shape -/

section Everywhere

variable {property : Info → List (Edge Tree) → Prop}

mutual

/-- A property of nodes that can be seen from their shapes holds everywhere in a tree if it does in
the shape of the tree. -/
theorem everywhere_shape
    (blind : ∀ info children, property info.shape (shapeAll children) ↔ property info children) :
    (tree : Tree) → (tree.shape.Everywhere property ↔ tree.Everywhere property)
  | node info children => by
    rw [shape, everywhere_node, everywhere_node, blind, everywhereAmong_shapeAll blind children]

theorem everywhereAmong_shapeAll
    (blind : ∀ info children, property info.shape (shapeAll children) ↔ property info children) :
    (children : List (Edge Tree)) →
      (EverywhereAmong property (shapeAll children) ↔ EverywhereAmong property children)
  | [] => by simp
  | edge :: rest => by
    rw [shapeAll_cons, everywhereAmong_cons, everywhereAmong_cons, everywhere_shape blind edge.tree,
      everywhereAmong_shapeAll blind rest]

end

/-- What can be seen from the shapes of nodes is kept by edits. -/
theorem Everywhere.edit
    (blind : ∀ info children, property info.shape (shapeAll children) ↔ property info children)
    {tree : Tree} (everywhere : tree.Everywhere property) (edit : Edit) :
    (tree.edit edit).Everywhere property := by
  rw [← everywhere_shape blind, shape_edit]
  exact (everywhere_shape blind tree).mpr everywhere

end Everywhere

end Tree

end Reparse
