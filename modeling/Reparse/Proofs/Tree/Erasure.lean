import Reparse.Parse.Root

/-!
# Erasing from trees

Some records of a node say nothing about how it is built into a larger tree. An erasure takes such
records away from every node (`Tree.IsErasure`). Nodes and roots built from what an erasure leaves
are, but for what it erases, those built from the trees themselves (`Tree.IsErasure.root`).

How far the scan of a token looked does not show in the tree that is built, but it is recorded in
it. Two parses of one text may differ in this record and in nothing else: their trees are the same
once they are bare (`Tree.bare`).
-/

namespace Reparse

namespace Tree

/-- A function on trees, and its companion on children, that leave symbols, flags and counts of
visible nodes alone. -/
structure IsErasure (erase : Tree → Tree) (eraseAll : List (Edge Tree) → List (Edge Tree)) :
    Prop where
  nil : eraseAll [] = []
  cons : ∀ edge rest, eraseAll (edge :: rest) = ⟨edge.field, erase edge.tree⟩ :: eraseAll rest
  children : ∀ tree, (erase tree).children = eraseAll tree.children
  symbol : ∀ tree, (erase tree).info.symbol = tree.info.symbol
  extra : ∀ tree, (erase tree).info.extra = tree.info.extra
  visible : ∀ tree, (erase tree).info.visible = tree.info.visible
  named : ∀ tree, (erase tree).info.named = tree.info.named
  visibleChildren : ∀ tree, (erase tree).info.visibleChildren = tree.info.visibleChildren
  namedChildren : ∀ tree, (erase tree).info.namedChildren = tree.info.namedChildren
  visibleDescendants : ∀ tree,
    (erase tree).info.visibleDescendants = tree.info.visibleDescendants

namespace IsErasure

variable {erase : Tree → Tree} {eraseAll : List (Edge Tree) → List (Edge Tree)}

theorem isEmpty (erasure : IsErasure erase eraseAll) (children : List (Edge Tree)) :
    (eraseAll children).isEmpty = children.isEmpty := by
  cases children with
  | nil => rw [erasure.nil]
  | cons edge rest => rw [erasure.cons, List.isEmpty_cons, List.isEmpty_cons]

theorem append (erasure : IsErasure erase eraseAll) (left right : List (Edge Tree)) :
    eraseAll (left ++ right) = eraseAll left ++ eraseAll right := by
  induction left with
  | nil => rw [erasure.nil, List.nil_append, List.nil_append]
  | cons edge rest ih => rw [List.cons_append, erasure.cons, erasure.cons, ih, List.cons_append]

theorem eq_map (erasure : IsErasure erase eraseAll) (children : List (Edge Tree)) :
    eraseAll children = children.map fun edge => ⟨edge.field, erase edge.tree⟩ := by
  induction children with
  | nil => rw [erasure.nil, List.map_nil]
  | cons edge rest ih => rw [erasure.cons, ih, List.map_cons]

theorem reverse (erasure : IsErasure erase eraseAll) (children : List (Edge Tree)) :
    eraseAll children.reverse = (eraseAll children).reverse := by
  rw [erasure.eq_map, erasure.eq_map, List.map_reverse]

/-! ## Sums -/

theorem sumOf (erasure : IsErasure erase eraseAll) (quantity : Tree → Nat)
    (blind : ∀ tree, quantity (erase tree) = quantity tree) (children : List (Edge Tree)) :
    sumOf quantity (eraseAll children) = sumOf quantity children := by
  rw [erasure.eq_map, Tree.sumOf, List.foldl_map]
  simp only [blind]
  rfl

theorem sumOf_visibleShown (erasure : IsErasure erase eraseAll) (children : List (Edge Tree)) :
    Tree.sumOf visibleShown (eraseAll children) = Tree.sumOf visibleShown children :=
  erasure.sumOf _ (fun tree => by
    simp only [visibleShown, erasure.visible, erasure.children, erasure.isEmpty,
      erasure.visibleChildren]) children

theorem sumOf_namedShown (erasure : IsErasure erase eraseAll) (children : List (Edge Tree)) :
    Tree.sumOf namedShown (eraseAll children) = Tree.sumOf namedShown children :=
  erasure.sumOf _ (fun tree => by
    simp only [namedShown, erasure.visible, erasure.named, erasure.children, erasure.isEmpty,
      erasure.namedChildren]) children

theorem sumOf_visibleBelow (erasure : IsErasure erase eraseAll) (children : List (Edge Tree)) :
    Tree.sumOf visibleBelow (eraseAll children) = Tree.sumOf visibleBelow children :=
  erasure.sumOf _ (fun tree => by
    simp only [visibleBelow, erasure.visible, erasure.visibleDescendants]) children

theorem sumOf_skippedCost (erasure : IsErasure erase eraseAll) (children : List (Edge Tree)) :
    Tree.sumOf skippedCost (eraseAll children) = Tree.sumOf skippedCost children :=
  erasure.sumOf _ (fun tree => by
    simp [skippedCost, Info.isError, erasure.extra, erasure.symbol, erasure.children,
      erasure.isEmpty, erasure.visible, erasure.visibleChildren]) children

/-! ## Roots -/

theorem fieldless (erasure : IsErasure erase eraseAll) (children : List (Edge Tree)) :
    (eraseAll children).map (fun edge => (⟨0, edge.tree⟩ : Edge Tree)) =
      eraseAll (children.map fun edge => ⟨0, edge.tree⟩) := by
  rw [erasure.eq_map, erasure.eq_map, List.map_map, List.map_map]
  rfl

theorem isPrincipal (erasure : IsErasure erase eraseAll) (tree : Tree) :
    (erase tree).isPrincipal = tree.isPrincipal := by
  simp only [Tree.isPrincipal, Info.isError, Info.isEnd, erasure.extra, erasure.symbol]

theorem filter_principal (erasure : IsErasure erase eraseAll) (items : List (Edge Tree)) :
    (eraseAll items).filter (fun edge => edge.tree.isPrincipal) =
      eraseAll (items.filter fun edge => edge.tree.isPrincipal) := by
  rw [erasure.eq_map, erasure.eq_map, List.filter_map]
  congr 1
  apply List.filter_congr
  intro edge _
  exact erasure.isPrincipal edge.tree

theorem rootChildren (erasure : IsErasure erase eraseAll) (items : List (Edge Tree)) :
    rootChildren (eraseAll items) = eraseAll (rootChildren items) := by
  induction items with
  | nil => rw [erasure.nil, Tree.rootChildren, erasure.nil]
  | cons edge rest ih =>
      rw [erasure.cons, Tree.rootChildren, Tree.rootChildren, erasure.isPrincipal,
        erasure.children, ih]
      split
      · rw [erasure.append]
      · rw [erasure.cons]

section Roots

variable (erasure : IsErasure erase eraseAll)
  (branch : ∀ symbol state kind children,
    erase (branch symbol state kind (eraseAll children)) =
      erase (branch symbol state kind children))

include erasure branch

/-- An erasure that does not matter in children does not matter in the children of an error. -/
theorem error (children : List (Edge Tree)) :
    erase (error (eraseAll children)) = erase (error children) := by
  rw [Tree.error, erasure.fieldless, branch, Tree.error]

/-- An erasure that does not matter in children does not matter in the trees of a parse. -/
theorem root (vocabulary : Vocabulary) (items : List (Edge Tree)) :
    erase (root vocabulary (eraseAll items)) = erase (root vocabulary items) := by
  unfold Tree.root
  rw [erasure.filter_principal]
  generalize items.filter (fun edge => edge.tree.isPrincipal) = principals
  cases principals with
  | nil =>
      rw [erasure.nil]
      exact erasure.error branch items
  | cons principal rest =>
      cases rest with
      | nil =>
          rw [erasure.cons, erasure.nil]
          simp only [erasure.children, erasure.isEmpty, erasure.symbol]
          split
          · exact erasure.error branch items
          · rw [erasure.rootChildren, branch]
      | cons second rest =>
          rw [erasure.cons, erasure.cons]
          exact erasure.error branch items

end Roots

end IsErasure

end Tree

/-! ## Trees but for what was looked at -/

namespace Tree

mutual

/-- The tree without the record of the bytes that were looked at. -/
def bare : Tree → Tree
  | node info children => node { info with lookahead := 0 } (bareAll children)

/-- The children without the record of the bytes that were looked at. -/
def bareAll : List (Edge Tree) → List (Edge Tree)
  | [] => []
  | edge :: rest => ⟨edge.field, edge.tree.bare⟩ :: bareAll rest

end

@[simp]
theorem info_bare (tree : Tree) : tree.bare.info = { tree.info with lookahead := 0 } := by
  cases tree
  simp [bare]

@[simp]
theorem children_bare (tree : Tree) : tree.bare.children = bareAll tree.children := by
  cases tree
  simp [bare]

@[simp]
theorem total_bare (tree : Tree) : tree.bare.total = tree.total := by
  simp [total, Info.total]

@[simp]
theorem bareAll_nil : bareAll [] = [] := by simp [bareAll]

@[simp]
theorem bareAll_cons (edge : Edge Tree) (rest : List (Edge Tree)) :
    bareAll (edge :: rest) = ⟨edge.field, edge.tree.bare⟩ :: bareAll rest := by simp [bareAll]

@[simp]
theorem bareAll_append (left right : List (Edge Tree)) :
    bareAll (left ++ right) = bareAll left ++ bareAll right := by
  induction left with
  | nil => simp
  | cons edge rest ih => simp [ih]

@[simp]
theorem isEmpty_bareAll (children : List (Edge Tree)) :
    (bareAll children).isEmpty = children.isEmpty := by
  cases children <;> simp

mutual

@[simp]
theorem bare_bare : (tree : Tree) → tree.bare.bare = tree.bare
  | node info children => by
    simp only [bare]
    rw [bareAll_bareAll children]

@[simp]
theorem bareAll_bareAll : (children : List (Edge Tree)) →
    bareAll (bareAll children) = bareAll children
  | [] => by simp
  | edge :: rest => by
    simp only [bareAll_cons]
    rw [bare_bare edge.tree, bareAll_bareAll rest]

end

/-! ## What a node sums up -/

theorem isErasure_bare : IsErasure bare bareAll where
  nil := bareAll_nil
  cons := bareAll_cons
  children := children_bare
  symbol tree := by rw [info_bare]
  extra tree := by rw [info_bare]
  visible tree := by rw [info_bare]
  named tree := by rw [info_bare]
  visibleChildren tree := by rw [info_bare]
  namedChildren tree := by rw [info_bare]
  visibleDescendants tree := by rw [info_bare]

theorem paddingOf_bareAll (children : List (Edge Tree)) :
    paddingOf (bareAll children) = paddingOf children := by
  cases children <;> simp [paddingOf]

theorem sizeOf_bareAll (children : List (Edge Tree)) :
    sizeOf (bareAll children) = sizeOf children := by
  cases children with
  | nil => simp
  | cons first rest =>
      have fold (size : Extent) :
          (bareAll rest).foldl (fun size edge => size + edge.tree.total) size =
            rest.foldl (fun size edge => size + edge.tree.total) size := by
        induction rest generalizing size with
        | nil => simp
        | cons edge rest ih => simp [ih]
      simp [sizeOf, fold]

/-- A bare node is built from bare children. -/
theorem bare_branch (symbol state : Nat) (kind : SymbolKind) (children : List (Edge Tree)) :
    (branch symbol state kind (bareAll children)).bare =
      (branch symbol state kind children).bare := by
  have costs := isErasure_bare.sumOf (·.info.cost) (by simp) children
  simp [branch, bare, paddingOf_bareAll, sizeOf_bareAll, costs,
    isErasure_bare.sumOf_skippedCost, isErasure_bare.sumOf_visibleShown,
    isErasure_bare.sumOf_namedShown, isErasure_bare.sumOf_visibleBelow]

theorem bare_root (vocabulary : Vocabulary) (items : List (Edge Tree)) :
    (root vocabulary (bareAll items)).bare = (root vocabulary items).bare :=
  isErasure_bare.root bare_branch vocabulary items

end Tree

end Reparse
