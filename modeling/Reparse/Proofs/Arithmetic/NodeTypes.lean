import Reparse.Proofs.Arithmetic.Scan
import Reparse.Proofs.Parse.Families
import Reparse.Proofs.Scanner.Marks
import Reparse.Proofs.Tree.Shape

/-!
# Trees that keep to the node types

The node types of the arithmetic language say which symbols may stand in which field of an expression
or a sum. A tree keeps to them (`Arithmetic.Typed`) if below every expression there are only children
that its node type allows, comments and errors, and every sum consists of its left operand, one sign
and its right operand, with comments between them. Only the end of the input is hidden, only comments
are extras, and whatever can be used again is an expression.

What tokens are scanned, and what is built around trees that keep to the node types, keeps to them,
given that the children are what the grammar says.
-/

namespace Reparse

/-- The node type lists the symbol in the field, among the children in no field if it is 0. -/
def NodeType.Admits (nodeType : NodeType) (field symbol : Nat) : Prop :=
  if field = 0 then symbol ∈ nodeType.children
  else ∃ entry ∈ nodeType.fields, entry.1 = field ∧ symbol ∈ entry.2

instance (nodeType : NodeType) (field symbol : Nat) : Decidable (nodeType.Admits field symbol) :=
  inferInstanceAs (Decidable (if field = 0 then _ else _))

/-- The field of a child and its symbol. -/
def Edge.label (edge : Edge Tree) : Nat × Nat := (edge.field, edge.tree.info.symbol)

namespace Arithmetic

open Tree (Among EverywhereAmong everywhere_node everywhereAmong_iff shapeAll)

/-- The node type of the symbol allows for a child with the label. -/
def Allows (parent : Nat) (label : Nat × Nat) : Prop :=
  ∃ nodeType, vocabulary.nodeType? parent = some nodeType ∧ nodeType.Admits label.1 label.2

/-- A child with the label may stand in an expression. -/
def IsPart (label : Nat × Nat) : Prop :=
  label.2 = endSymbol ∨ label.2 = errorSymbol ∨ label = (0, comment) ∨
    Allows expressionSymbol label

/-- The labels are those of a left operand, a sign and a right operand, with comments between. -/
def IsSum (labels : List (Nat × Nat)) : Prop :=
  ∃ before behind : Nat, labels =
    (leftField, expressionSymbol) ::
      (List.replicate before (0, comment) ++
        (0, plus) :: (List.replicate behind (0, comment) ++ [(rightField, expressionSymbol)]))

/-- A node keeps to the node types. -/
structure IsTyped (info : Info) (children : List (Edge Tree)) : Prop where
  shown : info.visible = true ↔ info.symbol ≠ endSymbol
  empty : info.visible = false → info.visibleChildren = 0
  extra : info.extra = true ↔ info.symbol = comment
  operand : info.state = operandState → info.symbol = expressionSymbol
  expression : info.symbol = expressionSymbol → ∀ edge ∈ children, IsPart edge.label
  sum : info.symbol = sum → IsSum (children.map Edge.label)

/-- All nodes of a tree keep to the node types. -/
def Typed (tree : Tree) : Prop := tree.Everywhere IsTyped

theorem Typed.info {tree : Tree} (typed : Typed tree) : IsTyped tree.info tree.children := by
  cases tree with
  | node info children => exact (everywhere_node.mp typed).1

theorem Typed.children {tree : Tree} (typed : Typed tree) : Among Typed tree.children := by
  cases tree with
  | node info children => exact everywhereAmong_iff.mp (everywhere_node.mp typed).2

theorem typed_node {info : Info} {children : List (Edge Tree)} (here : IsTyped info children)
    (below : Among Typed children) : Typed (.node info children) :=
  everywhere_node.mpr ⟨here, everywhereAmong_iff.mpr below⟩

/-! ## Edits -/

theorem label_shapeAll (children : List (Edge Tree)) :
    (shapeAll children).map Edge.label = children.map Edge.label := by
  rw [Tree.isErasure_shape.eq_map, List.map_map]
  simp [Edge.label, Function.comp_def, Info.shape]

/-- Whether a node keeps to the node types can be seen from its shape. -/
theorem isTyped_shape (info : Info) (children : List (Edge Tree)) :
    IsTyped info.shape (shapeAll children) ↔ IsTyped info children := by
  have parts : (∀ edge ∈ shapeAll children, IsPart edge.label) ↔
      ∀ edge ∈ children, IsPart edge.label := by
    rw [← List.forall_mem_map (f := Edge.label), ← List.forall_mem_map (f := Edge.label),
      label_shapeAll]
  constructor
  · rintro ⟨shown, empty, extra, operand, expression, sum⟩
    rw [label_shapeAll] at sum
    exact ⟨shown, empty, extra, operand, fun same => parts.mp (expression same), sum⟩
  · rintro ⟨shown, empty, extra, operand, expression, sum⟩
    rw [← label_shapeAll] at sum
    exact ⟨shown, empty, extra, operand, fun same => parts.mpr (expression same), sum⟩

theorem Typed.edit {tree : Tree} (typed : Typed tree) (edit : Edit) : Typed (tree.edit edit) :=
  Tree.Everywhere.edit isTyped_shape typed edit

/-! ## Tokens -/

theorem isExtra_iff {symbol : Nat} : vocabulary.isExtra symbol = true ↔ symbol = comment := by
  change [comment].contains symbol = true ↔ _
  simp

/-- A token with a symbol of its own is shown unless it is the end of the input. -/
theorem visible_kind {symbol : Nat} (own : symbol ≤ comment) :
    (vocabulary.kind symbol).visible = true ↔ symbol ≠ endSymbol := by
  have all : ∀ symbol ≤ comment,
      (vocabulary.kind symbol).visible = true ↔ symbol ≠ endSymbol := by
    decide
  exact all symbol own

theorem ne_of_le_comment {symbol : Nat} (own : symbol ≤ comment) :
    symbol ≠ expressionSymbol ∧ symbol ≠ sum := by
  have bound : comment = 6 := rfl
  have expression : expressionSymbol = 7 := rfl
  have addition : sum = 8 := rfl
  omega

theorem typed_token {symbol : Nat} (own : symbol ≤ comment) (padding size : Extent)
    (lookahead : Nat) :
    Typed (Tree.leaf symbol padding size lookahead (vocabulary.kind symbol)
      (vocabulary.isExtra symbol)) := by
  rcases ne_of_le_comment own with ⟨notExpression, notSum⟩
  exact typed_node
    ⟨visible_kind own, fun _ => rfl, isExtra_iff, nofun,
      fun same => absurd same notExpression, fun same => absurd same notSum⟩ Tree.among_nil

theorem typed_end : Typed (Tree.leaf endSymbol Extent.zero Extent.zero 0
    (vocabulary.kind endSymbol) false) :=
  typed_token (by decide) Extent.zero Extent.zero 0

theorem typed_unexpected (char : Option Char) (padding size : Extent) (lookahead : Nat) :
    Typed (Tree.unexpected char padding size lookahead) :=
  typed_node ⟨⟨fun _ => nofun, fun _ => rfl⟩, nofun, ⟨nofun, nofun⟩, nofun, nofun, nofun⟩ Tree.among_nil

theorem typed_missing {symbol : Nat} (own : symbol < comment) :
    Typed (Tree.missing symbol (vocabulary.kind symbol)) := by
  rcases ne_of_le_comment (Nat.le_of_lt own) with ⟨notExpression, notSum⟩
  exact typed_node
    ⟨visible_kind (Nat.le_of_lt own), fun _ => rfl,
      ⟨nofun, fun same => absurd same (Nat.ne_of_lt own)⟩, nofun,
      fun same => absurd same notExpression, fun same => absurd same notSum⟩ Tree.among_nil

/-! ## Nodes -/

theorem typed_error {children : List (Edge Tree)} (typed : Among Typed children) :
    Typed (Tree.error children) := by
  refine typed_node ⟨⟨fun _ => nofun, fun _ => rfl⟩, nofun, ⟨nofun, nofun⟩, nofun, nofun, nofun⟩ ?_
  simpa [Among] using typed

theorem typed_expression {children : List (Edge Tree)} (typed : Among Typed children)
    (parts : ∀ edge ∈ children, IsPart edge.label) (state : Nat) :
    Typed (Tree.branch expressionSymbol state (vocabulary.kind expressionSymbol) children) :=
  typed_node ⟨⟨fun _ => nofun, fun _ => rfl⟩, nofun, ⟨nofun, nofun⟩, fun _ => rfl, fun _ => parts, nofun⟩ typed

theorem typed_sum {children : List (Edge Tree)} (typed : Among Typed children)
    (labels : IsSum (children.map Edge.label)) :
    Typed (Tree.branch sum noState (vocabulary.kind sum) children) :=
  typed_node ⟨⟨fun _ => nofun, fun _ => rfl⟩, nofun, ⟨nofun, nofun⟩, nofun, nofun, fun _ => labels⟩ typed

/-! ## Scans -/

/-- Every token that is scanned keeps to the node types. -/
theorem typed_of_scan {context after : Context} {token : Tree}
    (vocabulary_eq : context.vocabulary = vocabulary) (program_eq : context.program = program)
    (scanned : context.scanToken = some (token, after)) : Typed token := by
  rcases Context.exists_of_scanToken scanned with ⟨found, scanner, reached, run, made, _⟩
  rw [program_eq] at run
  rw [vocabulary_eq] at made
  have own : scanner.finish.1.symbol ≤ comment := by
    rw [Scanner.symbol_finish]
    apply ScanProgram.symbol_runFrom (acceptsOnly_program fun _ le => le) _ run
    rw [Scanner.symbol_start]
    exact Nat.zero_le _
  have typed : Typed (Context.tokenOf vocabulary found scanner context.position).1 :=
    Context.tokenOf_cases (motive := fun made => Typed made.1) _ _
      (fun _ => typed_token own _ _ _)
      (fun _ => typed_token (by decide : endSymbol ≤ comment) _ _ _)
      fun _ => typed_unexpected _ _ _ _
  rwa [made] at typed

/-! ## The root -/

/-- What is not principal may stand in an expression. -/
theorem Typed.isPart {tree : Tree} (typed : Typed tree) (other : tree.isPrincipal = false) :
    IsPart (0, tree.info.symbol) := by
  have kinds : tree.info.extra = true ∨ tree.info.isError = true ∨ tree.info.isEnd = true := by
    simpa [Tree.isPrincipal, ← Bool.not_eq_true, Classical.or_iff_not_imp_left] using other
  rcases kinds with extra | error | ends
  · exact .inr (.inr (.inl (by rw [typed.info.extra.mp extra])))
  · exact .inr (.inl (beq_iff_eq.mp error))
  · exact .inl (beq_iff_eq.mp ends)

/-- If all trees that could be the root are expressions, the children of the root may stand in an
expression. -/
theorem isPart_rootChildren {items : List (Edge Tree)} (typed : Among Typed items)
    (principal : ∀ edge ∈ items, edge.tree.isPrincipal = true →
      edge.tree.info.symbol = expressionSymbol) :
    ∀ edge ∈ Tree.rootChildren items, IsPart edge.label := by
  induction items with
  | nil => exact List.forall_mem_nil _
  | cons edge rest ih =>
      rcases Tree.among_cons.mp typed with ⟨here, later⟩
      rcases List.forall_mem_cons.mp principal with ⟨first, others⟩
      rw [Tree.rootChildren]
      split
      · rename_i main
        exact List.forall_mem_append.mpr ⟨here.info.expression (first main), ih later others⟩
      · rename_i other
        exact List.forall_mem_cons.mpr ⟨here.isPart (by simpa using other), ih later others⟩

theorem typed_root {items : List (Edge Tree)} (typed : Among Typed items)
    (principal : ∀ edge ∈ items, edge.tree.isPrincipal = true →
      edge.tree.info.symbol = expressionSymbol) : Typed (Tree.root vocabulary items) := by
  unfold Tree.root
  split
  · rename_i main only
    have member : main ∈ items.filter fun edge => edge.tree.isPrincipal := by
      rw [only]
      exact List.mem_singleton_self main
    rcases List.mem_filter.mp member with ⟨among, isPrincipal⟩
    split
    · exact typed_error typed
    · dsimp only
      rw [principal main among isPrincipal]
      exact typed_expression (Tree.among_rootChildren Typed.children typed)
        (isPart_rootChildren typed principal) _
  · exact typed_error typed

end Arithmetic

end Reparse
