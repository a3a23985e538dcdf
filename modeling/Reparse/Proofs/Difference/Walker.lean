import Reparse.Proofs.Tree.Layout
import Reparse.Syntax.Difference

/-!
# Where a walker stands

The entries on the stack of a walker lead down from the root (`Trace`). A walker stands at a
position if it has passed everything that ends there or before, so far as its entries tell
(`Walker.Stands`); its depth then counts the visible nodes around it, plus one if the root is
hidden, since the first depth is one whether the root is visible or not.

A move takes some of the visible nodes around a walker away and adds at most one, in which the walker
then stands (`Walker.Moves`).
-/

namespace Reparse

/-! ## Stacks -/

namespace WalkEntry

/-- Where the content begins. -/
def content (entry : WalkEntry) : Nat := entry.start.bytes + entry.tree.info.padding.bytes

/-- Where the content ends. -/
def stop (entry : WalkEntry) : Nat := entry.start.bytes + entry.tree.total.bytes

theorem content_le_stop (entry : WalkEntry) : entry.content ≤ entry.stop := by
  simp only [content, stop, Tree.total, Info.total, Extent.bytes_add]
  omega

end WalkEntry

/-- The entries of a stack lead from the root down, innermost first. -/
inductive Trace (root : Tree) : List WalkEntry → Prop where
  | root {start : Extent} (begins : start.bytes = 0) : Trace root [⟨root, start, true, []⟩]
  | child {entry : WalkEntry} {around : List WalkEntry} {before later : List (Edge Tree)}
      {field : Nat} {tree : Tree} {start : Extent} (outer : Trace root (entry :: around))
      (siblings : entry.tree.children = before ++ ⟨field, tree⟩ :: later)
      (begins : start.bytes = entry.start.bytes + Tree.widthOf before) :
      Trace root (⟨tree, start, before.isEmpty, later⟩ :: entry :: around)

namespace Trace

variable {root : Tree} {entry parent : WalkEntry} {around : List WalkEntry}

/-- The innermost entry is a subtree of the root and begins where it says. -/
theorem placed (trace : Trace root (entry :: around)) :
    ∃ path, root.At path entry.start.bytes entry.tree := by
  generalize same : entry :: around = stack at trace
  induction trace generalizing entry around with
  | root begins =>
      cases same
      refine ⟨[], ?_⟩
      dsimp only
      rw [begins]
      exact .here root
  | @child outer rest before later field tree start _ siblings begins ih =>
      cases same
      rcases ih rfl with ⟨path, at_⟩
      rcases outer with ⟨⟨info, children⟩, place, first, after⟩
      simp only [Tree.children_node] at siblings
      subst siblings
      dsimp only at begins at_ ⊢
      rw [begins]
      exact ⟨_, at_.trans (.inside (.of_append before field tree later))⟩

theorem laid (trace : Trace root (entry :: around)) (rootLaid : root.Laid) : entry.tree.Laid := by
  rcases trace.placed with ⟨path, at_⟩
  exact at_.everywhere rootLaid

theorem outer (trace : Trace root (entry :: parent :: around)) : Trace root (parent :: around) := by
  cases trace with
  | child outer => exact outer

theorem outer_of_ne_nil (trace : Trace root (entry :: around)) (inhabited : around ≠ []) :
    Trace root around := by
  cases trace with
  | root => exact absurd rfl inhabited
  | child outer => exact outer

/-- A child lies within its parent. -/
theorem within (trace : Trace root (entry :: parent :: around)) (rootLaid : root.Laid) :
    parent.start.bytes ≤ entry.start.bytes ∧ entry.stop ≤ parent.stop := by
  have parentLaid := trace.outer.laid rootLaid
  cases trace with
  | @child _ _ before later field tree start outer siblings begins =>
      have covered : Tree.widthOf parent.tree.children ≤ parent.tree.total.bytes := by
        rcases parent with ⟨⟨info, children⟩, place, first, after⟩
        exact parentLaid.widthOf_le
      rw [siblings, Tree.widthOf_append, Tree.widthOf_cons] at covered
      simp only [WalkEntry.stop]
      omega

/-- The last child ends where its parent does. -/
theorem stop_eq (trace : Trace root (entry :: parent :: around)) (rootLaid : root.Laid)
    (last : entry.later = []) : entry.stop = parent.stop := by
  have parentLaid := trace.outer.laid rootLaid
  cases trace with
  | @child _ _ before later field tree start outer siblings begins =>
      dsimp only at last
      subst last
      have covered : parent.tree.total.bytes = Tree.widthOf parent.tree.children := by
        rcases parent with ⟨⟨info, children⟩, place, first, after⟩
        exact ((Tree.everywhere_node.mp parentLaid).1 (by simp_all)).2
      rw [siblings, Tree.widthOf_append, Tree.widthOf_cons, Tree.widthOf_nil] at covered
      simp only [WalkEntry.stop]
      omega

/-- The content of the first child begins where the content of its parent does. -/
theorem content_eq (trace : Trace root (entry :: parent :: around)) (rootLaid : root.Laid)
    (first : entry.first = true) : entry.content = parent.content := by
  have parentLaid := trace.outer.laid rootLaid
  cases trace with
  | @child _ _ before later field tree start outer siblings begins =>
      dsimp only at first
      rw [List.isEmpty_iff] at first
      subst first
      have padded : parent.tree.info.padding.bytes = tree.info.padding.bytes := by
        rcases parent with ⟨⟨info, children⟩, place, first, after⟩
        simp only [Tree.children_node, List.nil_append] at siblings
        subst siblings
        exact parentLaid.padding_eq
      simp only [Tree.widthOf_nil, Nat.add_zero] at begins
      simp only [WalkEntry.content, begins, padded]

/-- The next sibling follows on where an entry ends. -/
theorem next (trace : Trace root (entry :: parent :: around)) {field : Nat} {tree : Tree}
    {later : List (Edge Tree)} {start : Extent} (siblings : entry.later = ⟨field, tree⟩ :: later)
    (begins : start.bytes = entry.stop) :
    Trace root (⟨tree, start, false, later⟩ :: parent :: around) := by
  cases trace with
  | @child _ _ before _ field' tree' start' outer children place =>
      dsimp only at siblings
      subst siblings
      have split : parent.tree.children =
          (before ++ [⟨field', tree'⟩]) ++ ⟨field, tree⟩ :: later := by
        rw [children, List.append_assoc, List.singleton_append]
      have width : start.bytes =
          parent.start.bytes + Tree.widthOf (before ++ [⟨field', tree'⟩]) := by
        rw [begins, Tree.widthOf_append, Tree.widthOf_cons, Tree.widthOf_nil, WalkEntry.stop]
        dsimp only
        omega
      have notFirst : (before ++ [Edge.mk field' tree']).isEmpty = false := by simp
      rw [← notFirst]
      exact .child outer split width

end Trace

/-! ## Standing -/

namespace Walker

/-- The nodes around the place of a walker, innermost first. The padding of a node lies outside of
it. -/
def around (walker : Walker) : List WalkEntry :=
  if walker.inPadding then walker.stack.drop 1 else walker.stack

/-- The symbols of the visible nodes in a list of entries. -/
def kindsOf (entries : List WalkEntry) : List Nat :=
  (entries.filter fun entry => entry.tree.info.visible).map fun entry => entry.tree.info.symbol

/-- The symbols of the visible nodes around a walker, innermost first. -/
def kinds (walker : Walker) : List Nat := kindsOf walker.around

/-- The walker stands in the content of a visible node and in no node below it. -/
def Flush (walker : Walker) : Prop := walker.inPadding = false ∧ walker.isVisible = true

/-- The first depth counts a hidden root as if it were visible. -/
def surplus (root : Tree) : Nat := if root.info.visible then 0 else 1

/-- A walker stands in a tree at a position: the nodes around it have begun there. -/
structure Stands (root : Tree) (walker : Walker) (position : Nat) : Prop where
  trace : walker.stack ≠ [] → Trace root walker.stack
  depth : walker.depth = walker.kinds.length + surplus root
  begun : ∀ entry ∈ walker.stack, entry.start.bytes ≤ position
  entered : ∀ entry ∈ walker.around, entry.tree.info.visible = true → entry.content ≤ position

@[simp]
theorem kindsOf_cons_of_visible {entry : WalkEntry} {entries : List WalkEntry}
    (visible : entry.tree.info.visible = true) :
    kindsOf (entry :: entries) = entry.tree.info.symbol :: kindsOf entries := by
  simp [kindsOf, visible]

@[simp]
theorem kindsOf_cons_of_hidden {entry : WalkEntry} {entries : List WalkEntry}
    (hidden : entry.tree.info.visible = false) :
    kindsOf (entry :: entries) = kindsOf entries := by
  simp [kindsOf, hidden]

variable {root : Tree} {walker : Walker} {position : Nat}

theorem Stands.mono (stands : walker.Stands root position) {later : Nat} (le : position ≤ later) :
    walker.Stands root later :=
  ⟨stands.trace, stands.depth, fun entry member => Nat.le_trans (stands.begun entry member) le,
    fun entry member visible => Nat.le_trans (stands.entered entry member visible) le⟩

theorem around_of_content {walker : Walker} (content : walker.inPadding = false) :
    walker.around = walker.stack := by
  simp [around, content]

theorem Stands.depth_nonneg (stands : walker.Stands root position) : 0 ≤ walker.depth := by
  rw [stands.depth]
  omega

/-- A walker in a new tree stands at the start of the root's content. -/
theorem stands_new (root : Tree) (le : root.info.padding.bytes ≤ position) :
    (Walker.new root).Stands root position := by
  refine ⟨fun _ => .root rfl, ?_, ?_, ?_⟩
  · simp only [new, kinds, around, surplus]
    cases visible : root.info.visible <;> simp [kindsOf, visible]
  · simp [new, Extent.zero]
  · simp [new, around, WalkEntry.content, Extent.zero, le]

end Walker

end Reparse
