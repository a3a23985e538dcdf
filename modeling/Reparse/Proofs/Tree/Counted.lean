import Reparse.Proofs.Tree.Families
import Reparse.Proofs.Tree.Shape

/-!
# Trees with right counts

A node keeps the number of visible and of named nodes that its children show, and of all visible
nodes below it. In a tree with right counts (`Tree.Counted`) these are the sums over its children. An
edit changes no count, so the counts of a tree stay right.
-/

namespace Reparse

namespace Tree

theorem foldl_add_eq (quantity : Tree → Nat) (children : List (Edge Tree)) (start : Nat) :
    children.foldl (fun sum edge => sum + quantity edge.tree) start =
      start + sumOf quantity children := by
  induction children generalizing start with
  | nil => rfl
  | cons edge rest ih =>
      rw [sumOf, List.foldl_cons, List.foldl_cons, ih, ih (0 + quantity edge.tree)]
      omega

theorem sumOf_cons (quantity : Tree → Nat) (edge : Edge Tree) (rest : List (Edge Tree)) :
    sumOf quantity (edge :: rest) = quantity edge.tree + sumOf quantity rest := by
  rw [sumOf, List.foldl_cons, foldl_add_eq, Nat.zero_add]

/-- The counts of a node are the sums over its children. -/
structure IsCounted (info : Info) (children : List (Edge Tree)) : Prop where
  visible : info.visibleChildren = sumOf visibleShown children
  named : info.namedChildren = sumOf namedShown children
  below : info.visibleDescendants = sumOf visibleBelow children

/-- The counts of all nodes are right. -/
def Counted (tree : Tree) : Prop := tree.Everywhere IsCounted

theorem counted_of_bare {info : Info} (bare : info.CountsNothing) : (node info []).Counted :=
  everywhere_node.mpr ⟨⟨bare.visibleChildren, bare.namedChildren, bare.visibleDescendants⟩,
    everywhereAmong_nil⟩

theorem Counted.children {tree : Tree} (counted : tree.Counted) :
    Among Counted tree.children := by
  cases tree with
  | node info children => exact everywhereAmong_iff.mp (everywhere_node.mp counted).2

theorem counted_branch {symbol state : Nat} {kind : SymbolKind} {children : List (Edge Tree)}
    (counted : Among Counted children) : (branch symbol state kind children).Counted :=
  everywhere_node.mpr ⟨⟨rfl, rfl, rfl⟩, everywhereAmong_iff.mpr counted⟩

/-- What is built of trees with right counts has right counts. -/
theorem isFamily_counted : IsFamily Counted where
  token := counted_of_bare
  branch := counted_branch
  children := Counted.children

/-- A hidden node shows as many visible nodes as it keeps. -/
theorem Counted.visibleShown_eq {tree : Tree} (counted : tree.Counted)
    (hidden : tree.info.visible = false) : visibleShown tree = tree.info.visibleChildren := by
  rcases tree with ⟨info, children⟩
  cases children with
  | nil =>
      have none := (everywhere_node.mp counted).1.visible
      simp only [info_node] at hidden ⊢
      simp [visibleShown, hidden, none, sumOf]
  | cons edge rest =>
      simp only [info_node] at hidden ⊢
      simp [visibleShown, hidden]

/-! ## Edits -/

theorem isCounted_shape {info : Info} {children : List (Edge Tree)} :
    IsCounted info.shape (shapeAll children) ↔ IsCounted info children := by
  constructor
  · rintro ⟨visible, named, below⟩
    rw [isErasure_shape.sumOf_visibleShown] at visible
    rw [isErasure_shape.sumOf_namedShown] at named
    rw [isErasure_shape.sumOf_visibleBelow] at below
    exact ⟨visible, named, below⟩
  · rintro ⟨visible, named, below⟩
    rw [← isErasure_shape.sumOf_visibleShown] at visible
    rw [← isErasure_shape.sumOf_namedShown] at named
    rw [← isErasure_shape.sumOf_visibleBelow] at below
    exact ⟨visible, named, below⟩

theorem Counted.edit {tree : Tree} (counted : tree.Counted) (edit : Edit) :
    (tree.edit edit).Counted :=
  Everywhere.edit (fun _ _ => isCounted_shape) counted edit

end Tree

end Reparse
