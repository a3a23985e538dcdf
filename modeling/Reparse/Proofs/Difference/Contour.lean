import Reparse.Syntax.Difference

/-!
# What a walker sees of a tree

A walker that moves looks at the symbols of nodes, at whether they are visible and at how far they
reach, and at nothing else. The contour of a tree keeps only that (`Tree.contour`), and each move in
a tree is one in its contour: `Walker.contour` commutes with all of them.
-/

namespace Reparse

namespace Tree

mutual

/-- The tree with the symbols, the extents and the visibility of its nodes, and no more. -/
def contour : Tree → Tree
  | node info children =>
    node { Info.plain info.symbol info.padding info.size .unknown with visible := info.visible }
      (contourAll children)

/-- The same for children, which lose their fields. -/
def contourAll : List (Edge Tree) → List (Edge Tree)
  | [] => []
  | edge :: rest => ⟨0, edge.tree.contour⟩ :: contourAll rest

end

@[simp]
theorem contourAll_nil : contourAll [] = [] := by simp [contourAll]

@[simp]
theorem contourAll_cons (edge : Edge Tree) (rest : List (Edge Tree)) :
    contourAll (edge :: rest) = ⟨0, edge.tree.contour⟩ :: contourAll rest := by simp [contourAll]

section Info

variable (tree : Tree)

@[simp]
theorem children_contour : tree.contour.children = contourAll tree.children := by
  cases tree
  simp [contour]

@[simp]
theorem symbol_contour : tree.contour.info.symbol = tree.info.symbol := by
  cases tree
  simp [contour, Info.plain]

@[simp]
theorem visible_contour : tree.contour.info.visible = tree.info.visible := by
  cases tree
  simp [contour]

@[simp]
theorem padding_contour : tree.contour.info.padding = tree.info.padding := by
  cases tree
  simp [contour, Info.plain]

@[simp]
theorem size_contour : tree.contour.info.size = tree.info.size := by
  cases tree
  simp [contour, Info.plain]

@[simp]
theorem total_contour : tree.contour.total = tree.total := by
  simp [total, Info.total]

end Info

mutual

@[simp]
theorem count_contour : (tree : Tree) → tree.contour.count = tree.count
  | node info children => by
    simp only [contour, count]
    rw [countAll_contourAll children]

@[simp]
theorem countAll_contourAll : (children : List (Edge Tree)) →
    countAll (contourAll children) = countAll children
  | [] => by simp
  | edge :: rest => by
    simp only [contourAll_cons, countAll]
    rw [count_contour edge.tree, countAll_contourAll rest]

end

end Tree

open Tree (contourAll)

namespace WalkEntry

/-- The entry in the contour of the tree. -/
def contour (entry : WalkEntry) : WalkEntry :=
  ⟨entry.tree.contour, entry.start, entry.first, contourAll entry.later⟩

end WalkEntry

namespace Walker

/-- The walker in the contour of its tree. -/
def contour (walker : Walker) : Walker :=
  ⟨walker.stack.map WalkEntry.contour, walker.depth, walker.inPadding⟩

variable (walker : Walker)

theorem contour_new (tree : Tree) : (new tree).contour = new tree.contour := by
  simp [contour, new, WalkEntry.contour]

/-! ## What shows of a place -/

@[simp]
theorem depth_contour : walker.contour.depth = walker.depth := rfl

@[simp]
theorem inPadding_contour : walker.contour.inPadding = walker.inPadding := rfl

@[simp]
theorem stack_contour : walker.contour.stack = walker.stack.map WalkEntry.contour := rfl

@[simp]
theorem isDone_contour : walker.contour.isDone = walker.isDone := by simp [isDone]

@[simp]
theorem start_contour : walker.contour.start = walker.start := by
  rcases walker with ⟨_ | ⟨entry, around⟩, depth, inPadding⟩ <;>
    simp [start, contour, WalkEntry.contour]

@[simp]
theorem stop_contour : walker.contour.stop = walker.stop := by
  rcases walker with ⟨_ | ⟨entry, around⟩, depth, inPadding⟩ <;>
    simp [stop, contour, WalkEntry.contour]

@[simp]
theorem isVisible_contour : walker.contour.isVisible = walker.isVisible := by
  rcases walker with ⟨_ | ⟨entry, around⟩, depth, inPadding⟩ <;>
    simp [isVisible, contour, WalkEntry.contour]

theorem visibleNode_contour :
    walker.contour.visibleNode? = walker.visibleNode?.map WalkEntry.contour := by
  have finds (stack : List WalkEntry) :
      (stack.map WalkEntry.contour).find? (·.tree.info.visible) =
        (stack.find? (·.tree.info.visible)).map WalkEntry.contour := by
    have shows : (fun entry : WalkEntry => entry.tree.info.visible) ∘ WalkEntry.contour =
        fun entry => entry.tree.info.visible := by
      funext entry
      simp [WalkEntry.contour]
    rw [List.find?_map, shows]
  rcases walker with ⟨stack, depth, inPadding⟩
  cases inPadding
  · exact finds stack
  · have rest := finds (stack.drop 1)
    rwa [List.map_drop] at rest

/-! ## Moves -/

section Enter

variable (goal : Nat)

mutual

theorem enter_contour (start : Extent) : (walker : Walker) → (tree : Tree) →
    walker.contour.enter goal start tree.contour =
      Prod.map id contour (walker.enter goal start tree)
  | walker, .node info children => by
    simp only [Tree.contour, enter]
    exact enterAmong_contour start true walker children

theorem enterAmong_contour (start : Extent) (first : Bool) :
    (walker : Walker) → (children : List (Edge Tree)) →
    walker.contour.enterAmong goal start first (contourAll children) =
      Prod.map id contour (walker.enterAmong goal start first children)
  | walker, [] => by simp [enterAmong]
  | walker, ⟨field, child⟩ :: rest => by
    have later := enterAmong_contour (start + child.info.padding + child.info.size) false walker rest
    have below := enter_contour start
      { walker with stack := ⟨child, start, first, rest⟩ :: walker.stack } child
    simp only [Tree.contourAll_cons, enterAmong, Tree.padding_contour, Tree.size_contour,
      Tree.visible_contour]
    split
    · split
      · split <;> simp [contour, WalkEntry.contour]
      · simpa [contour, WalkEntry.contour] using below
    · exact later

end

theorem descend_contour :
    walker.contour.descend goal = Prod.map id contour (walker.descend goal) := by
  rcases walker with ⟨_ | ⟨entry, around⟩, depth, inPadding⟩
  · simp [descend, contour]
  · cases inPadding
    · exact enter_contour goal entry.start ⟨entry :: around, depth, false⟩ entry.tree
    · simp [descend, contour]

end Enter

theorem leave_contour (depth : Int) (stack : List WalkEntry) :
    leave depth (stack.map WalkEntry.contour) = (leave depth stack).contour := by
  induction stack generalizing depth with
  | nil => simp [leave, contour]
  | cons entry around ih =>
      cases around with
      | nil => simp [leave, contour, WalkEntry.contour]
      | cons parent others =>
          rcases entry with ⟨tree, start, first, _ | ⟨⟨field, next⟩, later⟩⟩
          · simpa [leave, WalkEntry.contour] using ih _
          · have below (depth : Int) := descend_contour
              ⟨⟨next, start + tree.total, false, later⟩ :: parent :: others, depth, false⟩ 0
            simp only [leave, List.map_cons, WalkEntry.contour, Tree.contourAll_cons,
              Tree.visible_contour, Tree.padding_contour, Tree.total_contour]
            split
            · split <;> simp [contour, WalkEntry.contour]
            · simpa [contour, WalkEntry.contour] using congrArg Prod.snd (below _)

theorem contour_advance : walker.advance.contour = walker.contour.advance := by
  rcases walker with ⟨stack, depth, inPadding⟩
  cases inPadding
  · exact (leave_contour depth stack).symm
  · let inside : Walker := ⟨stack, depth, false⟩
    have shows : inside.contour.isVisible = inside.isVisible := isVisible_contour inside
    have below : (inside.contour.descend 0).2 = (inside.descend 0).2.contour :=
      congrArg Prod.snd (descend_contour inside 0)
    change contour (if inside.isVisible then _ else _) = if inside.contour.isVisible then _ else _
    rw [shows]
    split
    · rfl
    · exact below.symm

theorem advancePast_contour (goal fuel : Nat) (walker : Walker) :
    walker.contour.advancePast goal fuel = (walker.advancePast goal fuel).map contour := by
  induction fuel generalizing walker with
  | zero => simp [advancePast]
  | succ fuel ih =>
      simp only [advancePast, isDone_contour, stop_contour, ← contour_advance]
      split
      · exact ih walker.advance
      · rfl

end Walker

end Reparse
