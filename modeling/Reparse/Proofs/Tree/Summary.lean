import Reparse.Proofs.Tree.Counted
import Reparse.Syntax.Edit

/-!
# What a node sums up

A node records how many visible nodes are below it and whether there is an error. The number is right
in every tree with right counts (`Tree.Counted.visibleDescendants_eq`). For the errors it is enough
that the record of every node agrees with those of its children (`Tree.Priced`): then an error is
recorded where there is one at the node or anywhere below it, and nowhere else
(`Tree.Priced.hasError_iff`). That a node costs something is decided when it is built, and an edit does
not change it.
-/

namespace Reparse

namespace Tree

mutual

/-- All nodes below a node, each before those below it. -/
def descendants : Tree → List Tree
  | node _ children => descendantsAmong children

def descendantsAmong : List (Edge Tree) → List Tree
  | [] => []
  | edge :: rest => edge.tree :: edge.tree.descendants ++ descendantsAmong rest

end

theorem descendants_node (info : Info) (children : List (Edge Tree)) :
    (node info children).descendants = descendantsAmong children := by
  simp [descendants]

@[simp]
theorem descendantsAmong_nil : descendantsAmong [] = [] := by simp [descendantsAmong]

@[simp]
theorem descendantsAmong_cons (edge : Edge Tree) (rest : List (Edge Tree)) :
    descendantsAmong (edge :: rest) =
      edge.tree :: edge.tree.descendants ++ descendantsAmong rest := by
  simp [descendantsAmong]

theorem sumOf_pos_iff {quantity : Tree → Nat} {children : List (Edge Tree)} :
    0 < sumOf quantity children ↔ ∃ edge ∈ children, 0 < quantity edge.tree := by
  induction children with
  | nil => simp [sumOf]
  | cons edge rest ih =>
      rw [sumOf_cons, Nat.add_pos_iff_pos_or_pos, ih]
      simp

/-! ## Visible nodes -/

mutual

/-- A tree with right counts keeps the number of the visible nodes below it. -/
theorem Counted.visibleDescendants_eq : {tree : Tree} → tree.Counted →
    tree.info.visibleDescendants = (tree.descendants.filter (·.info.visible)).length
  | node info children, counted => by
    rcases everywhere_node.mp counted with ⟨here, among⟩
    rw [descendants_node, ← sumOf_visibleBelow_eq among]
    exact here.below

theorem sumOf_visibleBelow_eq : {children : List (Edge Tree)} →
    EverywhereAmong IsCounted children →
      sumOf visibleBelow children =
        ((descendantsAmong children).filter (·.info.visible)).length
  | [], _ => by simp [sumOf]
  | edge :: rest, counted => by
    rcases everywhereAmong_cons.mp counted with ⟨here, later⟩
    have below := Counted.visibleDescendants_eq here
    rw [sumOf_cons, sumOf_visibleBelow_eq later, visibleBelow, below, descendantsAmong_cons,
      List.filter_append, List.length_append, List.filter_cons]
    split
    · rw [List.length_cons]
    · rfl

end

/-- A hidden node shows as many named nodes as it keeps. -/
theorem Counted.namedShown_eq {tree : Tree} (counted : tree.Counted)
    (hidden : tree.info.visible = false) : namedShown tree = tree.info.namedChildren := by
  rcases tree with ⟨info, children⟩
  cases children with
  | nil =>
      have none := (everywhere_node.mp counted).1.named
      simp only [info_node] at hidden ⊢
      simp [namedShown, hidden, none, sumOf]
  | cons edge rest =>
      simp only [info_node] at hidden ⊢
      simp [namedShown, hidden]

/-! ## Errors -/

/-- The node is an error, or stands for a token that is missing. -/
def IsFlawed (info : Info) : Prop := info.isError = true ∨ info.missing = true

/-- An error is recorded for a node if and only if it is one, or one is recorded for a child. -/
def IsPriced (info : Info) (children : List (Edge Tree)) : Prop :=
  info.hasError = true ↔ IsFlawed info ∨ ∃ edge ∈ children, edge.tree.info.hasError = true

/-- All nodes record errors as their children do. -/
def Priced (tree : Tree) : Prop := tree.Everywhere IsPriced

theorem Priced.children {tree : Tree} (priced : tree.Priced) : Among Priced tree.children := by
  cases tree with
  | node info children => exact everywhereAmong_iff.mp (everywhere_node.mp priced).2

theorem priced_of_childless {info : Info} (own : info.hasError = true ↔ IsFlawed info) :
    (node info []).Priced :=
  everywhere_node.mpr ⟨by simp [IsPriced, own], everywhereAmong_nil⟩

/-- A token that was found has no cost, so it must not be taken for an error. -/
theorem priced_leaf {symbol : Nat} (proper : symbol ≠ errorSymbol) (padding size : Extent)
    (lookahead : Nat) (kind : SymbolKind) (extra : Bool) :
    (leaf symbol padding size lookahead kind extra).Priced := by
  apply priced_of_childless
  simp [IsFlawed, Info.hasError, Info.isError, Info.plain, proper]

theorem priced_branch {symbol state : Nat} {kind : SymbolKind} {children : List (Edge Tree)}
    (priced : Among Priced children) : (branch symbol state kind children).Priced := by
  refine everywhere_node.mpr ⟨?_, everywhereAmong_iff.mpr priced⟩
  have below : 0 < sumOf (·.info.cost) children ↔
      ∃ edge ∈ children, edge.tree.info.hasError = true := by
    simp [sumOf_pos_iff, Info.hasError]
  by_cases error : symbol = errorSymbol
  · have weight : 0 < errorCost (sizeOf children) := by
      simp only [errorCost, recoveryCost]
      omega
    have costs : 0 < sumOf (·.info.cost) children + sumOf skippedCost children +
        errorCost (sizeOf children) := by omega
    simp [IsPriced, IsFlawed, Info.hasError, Info.isError, Info.plain, error, costs]
  · rw [IsPriced, ← below]
    simp [IsFlawed, Info.hasError, Info.isError, Info.plain, error]

/-- Nodes that are built of priced trees, and the leaves added without a scan, are priced. -/
theorem isHereditary_priced : IsHereditary Priced where
  ending kind := priced_leaf (by decide) _ _ _ _ _
  unexpected char padding size lookahead := by
    apply priced_of_childless
    have weight : 0 < errorCost size := by
      simp only [errorCost, recoveryCost]
      omega
    simp [IsFlawed, Info.hasError, Info.isError, Info.plain, weight]
  missing symbol kind := by
    apply priced_of_childless
    simp [IsFlawed, Info.hasError, missingCost, recoveryCost]
  branch := priced_branch
  children := Priced.children

mutual

/-- In a priced tree an error is recorded where there is one at the node or below it. -/
theorem Priced.hasError_iff : {tree : Tree} → tree.Priced →
    (tree.info.hasError = true ↔ ∃ found ∈ tree :: tree.descendants, IsFlawed found.info)
  | node info children, priced => by
    rcases everywhere_node.mp priced with ⟨here, among⟩
    simp only [descendants_node, List.mem_cons, or_and_right, exists_or, exists_eq_left,
      ← hasErrorAmong_iff among]
    exact here

theorem hasErrorAmong_iff : {children : List (Edge Tree)} → EverywhereAmong IsPriced children →
    ((∃ edge ∈ children, edge.tree.info.hasError = true) ↔
      ∃ found ∈ descendantsAmong children, IsFlawed found.info)
  | [], _ => by simp
  | edge :: rest, priced => by
    rcases everywhereAmong_cons.mp priced with ⟨here, later⟩
    have first := Priced.hasError_iff here
    have others := hasErrorAmong_iff later
    simp only [List.mem_cons, descendantsAmong_cons, List.mem_append, List.cons_append,
      or_and_right, exists_or, exists_eq_left] at first ⊢
    rw [first, others, or_assoc]

end

/-! ## Edits -/

/-- An edit changes nothing about a node that its price depends on. -/
theorem isPriced_reshape {info : Info} {children : List (Edge Tree)} (edit : Edit) :
    IsPriced (info.reshape edit) children ↔ IsPriced info children := by
  have same : (info.reshape edit).cost = info.cost ∧ (info.reshape edit).symbol = info.symbol ∧
      (info.reshape edit).missing = info.missing := by
    unfold Info.reshape
    repeat' split
    all_goals exact ⟨rfl, rfl, rfl⟩
  simp only [IsPriced, IsFlawed, Info.hasError, Info.isError, same]

theorem hasError_edit (edit : Edit) (tree : Tree) :
    (tree.edit edit).info.hasError = tree.info.hasError := by
  cases tree with
  | node info children =>
      rw [Tree.edit]
      split
      · rfl
      · unfold Info.reshape
        repeat' split
        all_goals rfl

theorem hasError_editChildren (edit : Edit) (first : Bool) (left : Extent)
    (children : List (Edge Tree)) :
    (editChildren edit first left children).map (·.tree.info.hasError) =
      children.map (·.tree.info.hasError) := by
  induction children generalizing edit first left with
  | nil => rw [editChildren]
  | cons edge rest ih =>
      rw [editChildren]
      repeat' split
      all_goals simp only [List.map_cons, hasError_edit, ih]

theorem exists_hasError_editChildren (edit : Edit) (first : Bool) (left : Extent)
    (children : List (Edge Tree)) :
    (∃ edge ∈ editChildren edit first left children, edge.tree.info.hasError = true) ↔
      ∃ edge ∈ children, edge.tree.info.hasError = true := by
  have listed (edges : List (Edge Tree)) :
      (∃ edge ∈ edges, edge.tree.info.hasError = true) ↔
        true ∈ edges.map (·.tree.info.hasError) := by
    simp
  rw [listed, listed, hasError_editChildren]

mutual

/-- An edit keeps a tree priced. -/
theorem Priced.edit (edit : Edit) : {tree : Tree} → tree.Priced → (tree.edit edit).Priced
  | node info children, priced => by
    rcases everywhere_node.mp priced with ⟨here, among⟩
    rw [Tree.edit]
    split
    · exact priced
    · refine everywhere_node.mpr ⟨?_, pricedAmong_edit edit true Extent.zero among⟩
      rw [isPriced_reshape, IsPriced, exists_hasError_editChildren]
      exact here

theorem pricedAmong_edit (edit : Edit) (first : Bool) (left : Extent) :
    {children : List (Edge Tree)} → EverywhereAmong IsPriced children →
      EverywhereAmong IsPriced (editChildren edit first left children)
  | [], _ => by
    rw [editChildren]
    exact everywhereAmong_nil
  | ⟨field, child⟩ :: rest, priced => by
    rcases everywhereAmong_cons.mp priced with ⟨here, later⟩
    rw [editChildren]
    split
    · exact everywhereAmong_cons.mpr ⟨here, pricedAmong_edit edit false (left + child.total) later⟩
    · split
      · exact priced
      · split
        · exact everywhereAmong_cons.mpr ⟨Priced.edit (edit.relativeTo left) here,
            pricedAmong_edit edit.withoutNew false (left + child.total) later⟩
        · exact everywhereAmong_cons.mpr ⟨Priced.edit (edit.relativeTo left).emptied here,
            pricedAmong_edit edit false (left + child.total) later⟩

end

end Tree

end Reparse
