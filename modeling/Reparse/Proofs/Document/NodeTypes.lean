import Reparse.Proofs.Arithmetic.Conforming
import Reparse.Proofs.Document.Summaries

/-!
# Documents keep to the node types

Patterns of a query are checked against the node types of a language, so these have to allow for
everything that a parse can build. In every document of the arithmetic language, whatever the texts
were, the limits and the spans, however it was edited and whatever was taken over from older
documents, an expression has only children that its node type allows, comments and errors, and a sum
has a left operand, a sign and a right operand in this order (`Document.ObtainedIn.nodeTypes`).
-/

namespace Reparse

/-- The language is the arithmetic one, under some number. -/
def Language.IsArithmetic (language : Language) : Prop :=
  ∃ identity, language = Language.arithmetic identity

namespace Arithmetic

open Tree (Among)

/-- A parse that can take over subtrees which keep to the node types builds a tree that does. -/
theorem typed_parseIn {parser : Parser} {identity : Nat} {text : Text} {old : Option Document}
    {parsed : Parsed} (older : ∀ document, old = some document → document.tree.Lends Typed)
    (run : parser.parseIn (Language.arithmetic identity) text old = .ok parsed) :
    Typed parsed.document.tree := by
  rcases Parser.exists_run_of_parseIn run with ⟨after, whole⟩
  refine typed_wholeTree ⟨rfl, rfl, rfl, fun token present => ?_,
    Parser.lends_of_reusableTree older⟩ whole
  cases present

theorem Typed.lends {tree : Tree} (typed : Typed tree) : tree.Lends Typed := by
  intro length position state found search
  rcases Tree.at_of_findReusable search with ⟨path, at_, _⟩
  exact at_.everywhere typed

end Arithmetic

namespace Document

theorem ObtainedIn.typed {document : Document}
    (obtained : document.ObtainedIn Language.IsArithmetic) : Arithmetic.Typed document.tree := by
  induction obtained with
  | parsed admitted _ run ih =>
      rcases admitted with ⟨identity, rfl⟩
      exact Arithmetic.typed_parseIn (fun document present => (ih document present).lends) run
  | edited _ edit ih => exact ih.edit edit
  | copied _ ih => exact ih
  | handedOut _ node ih =>
      rw [tree_handOut]
      exact ih

end Document

/-! ## Visible children -/

/-- The field of a child, as it is reported, and its symbol. -/
def Child.label (child : Child) : Nat × Nat := (child.field, child.node.info.symbol)

namespace Node

open Tree (Among)
open Arithmetic (Typed)

/-- The field in which an edge shows its node. -/
def shownField (edge : Edge Tree) : Nat := if edge.tree.info.extra then 0 else edge.field

/-- A node shows its visible children, and those only. -/
theorem shownFrom_of_typed (trail : List Nat) {edges : List (Edge Tree)}
    (typed : Among Typed edges) (index : Nat) (place : Extent) :
    (shownFrom trail index place 0 edges).map (fun child => (child.field, child.node.tree)) =
      (edges.filter (·.tree.info.visible)).map fun edge => (shownField edge, edge.tree) := by
  induction edges generalizing index place with
  | nil =>
      rw [shownFrom]
      rfl
  | cons edge rest ih =>
      rcases edge with ⟨own, child⟩
      rcases Tree.among_cons.mp typed with ⟨here, later⟩
      have field : (if child.info.extra then 0 else if own = 0 then 0 else own) =
          shownField ⟨own, child⟩ := by
        unfold shownField
        split
        · rfl
        · split
          · rename_i none
            exact none.symm
          · rfl
      rw [shownFrom, field]
      split
      · rename_i visible
        rw [List.filter_cons_of_pos (by exact visible), List.map_cons, List.map_cons, ih later]
      · rename_i hidden
        have empty := here.info.empty (by simpa using hidden)
        rw [if_neg (Nat.not_lt.mpr (Nat.le_of_eq empty)), List.filter_cons_of_neg (by exact hidden),
          ih later]

variable {node : Node}

/-- Every child that a node shows stands on an edge, in the field of this edge if it is no extra. -/
theorem exists_edge_of_child (typed : Typed node.tree) {child : Child}
    (member : child ∈ node.children) :
    ∃ edge ∈ node.tree.children, child.node.tree = edge.tree ∧ edge.tree.info.visible = true ∧
      child.field = shownField edge := by
  have shown := shownFrom_of_typed node.trail typed.children 0 node.start
  have paired := List.mem_map_of_mem (f := fun child => (child.field, child.node.tree)) member
  rw [children, shown] at paired
  rcases List.mem_map.mp paired with ⟨edge, among, same⟩
  rcases List.mem_filter.mp among with ⟨among, visible⟩
  rw [Prod.mk.injEq] at same
  exact ⟨edge, among, same.2.symm, visible, same.1.symm⟩

/-- Where all children are shown, and no extra stands in a field, the labels are those of the
edges. -/
theorem labels_children (typed : Typed node.tree)
    (plain : ∀ label ∈ node.tree.children.map Edge.label,
      label.2 ≠ endSymbol ∧ (label.2 = Arithmetic.comment → label.1 = 0)) :
    node.children.map Child.label = node.tree.children.map Edge.label := by
  have shown := congrArg (List.map fun pair : Nat × Tree => (pair.1, pair.2.info.symbol))
    (shownFrom_of_typed node.trail typed.children 0 node.start)
  rw [List.map_map, List.map_map] at shown
  have all : node.tree.children.filter (·.tree.info.visible) = node.tree.children := by
    refine List.filter_eq_self.mpr fun edge member => ?_
    exact (typed.children edge member).info.shown.mpr (List.forall_mem_map.mp plain edge member).1
  rw [all] at shown
  refine shown.trans (List.map_congr_left fun edge member => ?_)
  have extra := (typed.children edge member).info.extra
  have free := (List.forall_mem_map.mp plain edge member).2
  simp only [Function.comp_apply, Edge.label, shownField, Prod.mk.injEq, and_true]
  split
  · rename_i isExtra
    exact (free (extra.mp isExtra)).symm
  · rfl

end Node

namespace Arithmetic

theorem IsSum.plain {labels : List (Nat × Nat)} (isSum : IsSum labels) :
    ∀ label ∈ labels, label.2 ≠ endSymbol ∧ (label.2 = comment → label.1 = 0) := by
  rcases isSum with ⟨before, behind, rfl⟩
  intro label member
  simp only [List.mem_cons, List.mem_append, List.mem_replicate, List.not_mem_nil, or_false]
    at member
  rcases member with rfl | ⟨_, rfl⟩ | rfl | ⟨_, rfl⟩ | rfl <;> exact ⟨by decide, by decide⟩

/-- What a sum consists of is a comment, or its node type allows for it. -/
theorem IsSum.allows {labels : List (Nat × Nat)} (isSum : IsSum labels) :
    ∀ label ∈ labels, label.2 = comment ∨ Allows sum label := by
  rcases isSum with ⟨before, behind, rfl⟩
  intro label member
  simp only [List.mem_cons, List.mem_append, List.mem_replicate, List.not_mem_nil, or_false]
    at member
  rcases member with rfl | ⟨_, rfl⟩ | rfl | ⟨_, rfl⟩ | rfl
  · exact .inr ⟨_, rfl, by decide⟩
  · exact .inl rfl
  · exact .inr ⟨_, rfl, by decide⟩
  · exact .inl rfl
  · exact .inr ⟨_, rfl, by decide⟩

/-- What may stand in an expression and is shown is an error, a comment, or its node type allows for
it. -/
theorem IsPart.allows {label : Nat × Nat} (part : IsPart label) (shown : label.2 ≠ endSymbol) :
    label.2 = errorSymbol ∨ label.2 = comment ∨ Allows expressionSymbol label := by
  rcases part with ends | error | rfl | allows
  · exact absurd ends shown
  · exact .inl error
  · exact .inr (.inl rfl)
  · exact .inr (.inr allows)

/-- What a node type allows for on an edge it allows for where the edge is shown. -/
theorem admitted_of_label {parent : Nat} {edge : Edge Tree} (typed : Typed edge.tree)
    (fits : edge.label.2 = errorSymbol ∨ edge.label.2 = comment ∨ Allows parent edge.label) :
    edge.tree.info.isError = true ∨
      edge.tree.info.extra = true ∧ edge.tree.info.symbol = comment ∨
      ∃ nodeType, vocabulary.nodeType? parent = some nodeType ∧
        nodeType.Admits (Node.shownField edge) edge.tree.info.symbol := by
  rcases fits with error | isComment | ⟨nodeType, found, admits⟩
  · exact .inl (beq_iff_eq.mpr error)
  · exact .inr (.inl ⟨typed.info.extra.mpr isComment, isComment⟩)
  · by_cases extra : edge.tree.info.extra = true
    · exact .inr (.inl ⟨extra, typed.info.extra.mp extra⟩)
    · refine .inr (.inr ⟨nodeType, found, ?_⟩)
      rw [Node.shownField, if_neg extra]
      exact admits

end Arithmetic

namespace Document

open Arithmetic (expressionSymbol sum plus comment leftField rightField)

/-- In every document of the arithmetic language, what an expression or a sum shows as a child is an
error, a comment, or a node that its node type lists: in the field of the child, or in no field if the
child stands in none. A sum shows its left operand first, then one sign, then its right operand,
with comments between them. -/
theorem ObtainedIn.nodeTypes {document : Document}
    (obtained : document.ObtainedIn Language.IsArithmetic) {node : Node}
    (lies : node.LiesIn document.tree) :
    (node.info.symbol = expressionSymbol ∨ node.info.symbol = sum → ∀ child ∈ node.children,
      child.node.info.isError = true ∨
      child.node.info.extra = true ∧ child.node.info.symbol = comment ∨
      ∃ nodeType, Arithmetic.vocabulary.nodeType? node.info.symbol = some nodeType ∧
        nodeType.Admits child.field child.node.info.symbol) ∧
    (node.info.symbol = sum → ∃ before behind, node.children.map Child.label =
      (leftField, expressionSymbol) ::
        (List.replicate before (0, comment) ++ (0, plus) ::
          (List.replicate behind (0, comment) ++ [(rightField, expressionSymbol)]))) := by
  have typed := lies.tree_in (fun _ => Arithmetic.Typed.children) obtained.typed
  constructor
  · intro isParent child member
    rcases Node.exists_edge_of_child typed member with ⟨edge, among, same, visible, field⟩
    have below := typed.children edge among
    have shown := below.info.shown.mp visible
    rw [field, show child.node.info = edge.tree.info from congrArg Tree.info same]
    apply Arithmetic.admitted_of_label below
    rcases isParent with isExpression | isSum
    · rw [isExpression]
      exact (typed.info.expression isExpression edge among).allows shown
    · rw [isSum]
      exact .inr ((typed.info.sum isSum).allows _ (List.mem_map_of_mem among))
  · intro isSum
    have labels := typed.info.sum isSum
    rw [Node.labels_children typed labels.plain]
    exact labels

/-- A sign is added behind the number in `1`, and the rest parsed again with the old tree. The right
operand of the sum is missing. -/
theorem ObtainedIn.nodeTypes_halfSum :
    ∃ first second : Parsed, ∃ node : Node,
      Parser.new.parseIn (Language.arithmetic 0) #[49] none = .ok first ∧
      Parser.new.parseIn (Language.arithmetic 0) #[49, 43]
        (some (first.document.edit ⟨⟨1, ⟨0, 1⟩⟩, ⟨1, ⟨0, 1⟩⟩, ⟨2, ⟨0, 2⟩⟩⟩)) = .ok second ∧
      node.LiesIn second.document.tree ∧ node.info.symbol = sum ∧
      (∀ child ∈ node.children, child.node.info.isError = true ∨
        child.node.info.extra = true ∧ child.node.info.symbol = comment ∨
        ∃ nodeType, Arithmetic.vocabulary.nodeType? node.info.symbol = some nodeType ∧
          nodeType.Admits child.field child.node.info.symbol) ∧
      ∃ before behind, node.children.map Child.label =
        (leftField, expressionSymbol) ::
          (List.replicate before (0, comment) ++ (0, plus) ::
            (List.replicate behind (0, comment) ++ [(rightField, expressionSymbol)])) := by
  let edit : Edit := ⟨⟨1, ⟨0, 1⟩⟩, ⟨1, ⟨0, 1⟩⟩, ⟨2, ⟨0, 2⟩⟩⟩
  have facts : (match Parser.new.parseIn (Language.arithmetic 0) #[49] none with
      | .ok first =>
        match Parser.new.parseIn (Language.arithmetic 0) #[49, 43]
          (some (first.document.edit edit)) with
        | .ok second =>
          (Node.resolve second.document.tree [0]).any fun node => node.info.symbol == sum
        | .error _ => false
      | .error _ => false) = true := by decide +kernel
  cases run : Parser.new.parseIn (Language.arithmetic 0) #[49] none with
  | error fault => simp [run] at facts
  | ok first =>
      cases rerun : Parser.new.parseIn (Language.arithmetic 0) #[49, 43]
          (some (first.document.edit edit)) with
      | error fault => simp [run, rerun] at facts
      | ok second =>
          simp only [run, rerun, Option.any_eq_true, beq_iff_eq] at facts
          rcases facts with ⟨node, found, isSum⟩
          have older : (first.document.edit edit).ObtainedIn Language.IsArithmetic :=
            .edited (.parsed ⟨0, rfl⟩ (by simp) run) edit
          have obtained : second.document.ObtainedIn Language.IsArithmetic := by
            refine .parsed ⟨0, rfl⟩ ?_ rerun
            rintro document ⟨⟩
            exact older
          have lies := Node.liesIn_of_resolve found
          rcases obtained.nodeTypes lies with ⟨listed, summed⟩
          exact ⟨first, second, node, rfl, rerun, lies, isSum, listed (.inr isSum), summed isSum⟩

end Document

end Reparse
