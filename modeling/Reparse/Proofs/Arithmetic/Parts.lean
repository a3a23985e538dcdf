import Reparse.Proofs.Arithmetic.Derivation
import Reparse.Proofs.Tree.Layout
import Reparse.Proofs.Tree.Sound

/-!
# The parts of a tree of the arithmetic language

The trees of a derivation stand end to end over the text that they were derived from
(`Arithmetic.Row`). Every node in them that may be used again is an operand of the text where it
lies (`Arithmetic.Part.operands`), and a node at the very beginning of a tree is reached through
first children only (`Tree.At.first_of_zero`), since first children are not empty.
-/

namespace Reparse

namespace Tree

/-- The first child has text of its own if others follow it. -/
def IsFronted (children : List (Edge Tree)) : Prop :=
  ∀ first second rest, children = first :: second :: rest → 0 < first.tree.total.bytes

/-- All first children have text of their own if others follow them. -/
def Fronted (tree : Tree) : Prop := tree.Everywhere fun _ => IsFronted

/-- A node without text before it is the first child of all nodes around it. -/
theorem At.first_of_zero {tree found : Tree} {path : List Nat} {offset : Nat} :
    tree.At path offset found → tree.Fronted → offset = 0 →
      ∀ number ∈ path, number = 0
  | .here _, _, _ => by simp
  | .inside (.first within), fronted, zero => by
    have below := (everywhereAmong_cons.mp (everywhere_node.mp fronted).2).1
    simpa using within.first_of_zero below zero
  | .inside (.later among), fronted, zero => by
    have front := (everywhere_node.mp fronted).1
    cases among with
    | first =>
        have := front _ _ _ rfl
        dsimp only at this
        omega
    | later =>
        have := front _ _ _ rfl
        dsimp only at this
        omega

/-- First children only lead to a node without text before it. -/
theorem At.zero_of_first {tree found : Tree} {path : List Nat} {offset : Nat} :
    tree.At path offset found → (∀ number ∈ path, number = 0) → offset = 0
  | .here _, _ => rfl
  | .inside (.first within), first =>
    within.zero_of_first fun number member => first number (List.mem_cons_of_mem _ member)
  | .inside (.later _), first => by
    have := first _ (List.mem_cons_self ..)
    omega

end Tree

namespace Arithmetic

open Reparse.Tree (AtAmong EverywhereAmong IsFronted widthOf)

variable {text : Text} {offset middle stop : Nat}

/-! ## Operands inside trees -/

/-- Every node of a tree over a text that may be used again is an operand where it lies. -/
def Operands (text : Text) (offset : Nat) (tree : Tree) : Prop :=
  ∀ path place found, tree.At path place found → found.info.state = operandState →
    ∃ stop, Operand text (offset + place) found stop

/-- The same of trees that stand end to end. -/
def OperandsAmong (text : Text) (offset : Nat) (items : List (Edge Tree)) : Prop :=
  ∀ number path place found, AtAmong items number path place found →
    found.info.state = operandState → ∃ stop, Operand text (offset + place) found stop

theorem operandsAmong_cons {field : Nat} {child : Tree} {rest : List (Edge Tree)}
    (first : Operands text offset child)
    (later : OperandsAmong text (offset + child.total.bytes) rest) :
    OperandsAmong text offset (⟨field, child⟩ :: rest) := by
  intro number path place found among state
  cases among with
  | first within => exact first _ _ _ within state
  | later among =>
      rw [← Nat.add_assoc]
      exact later _ _ _ _ among state

theorem OperandsAmong.append {left right : List (Edge Tree)}
    (first : OperandsAmong text offset left)
    (second : OperandsAmong text (offset + widthOf left) right) :
    OperandsAmong text offset (left ++ right) := by
  induction left generalizing offset with
  | nil => exact second
  | cons edge rest ih =>
      rcases edge with ⟨field, child⟩
      apply operandsAmong_cons
      · intro path place found at_ state
        exact first 0 path place found (.first at_) state
      · apply ih
        · intro number path place found among state
          rw [Nat.add_assoc]
          exact first _ path _ found (.later among) state
        · rw [Tree.widthOf_cons, ← Nat.add_assoc] at second
          exact second

/-- A node is among its own operands only if it may be used again. -/
theorem operands_node {info : Info} {children : List (Edge Tree)}
    (among : OperandsAmong text offset children)
    (here : info.state = operandState → ∃ stop, Operand text offset (.node info children) stop) :
    Operands text offset (.node info children) := by
  intro path place found at_ state
  cases at_ with
  | here => exact here state
  | inside inner => exact among _ _ _ _ inner state

theorem Operands.among {tree : Tree} (operands : Operands text offset tree) :
    OperandsAmong text offset tree.children := by
  cases tree with
  | node info children =>
      intro number path place found among state
      exact operands _ _ _ (.inside among) state

/-! ## Parts and rows -/

/-- A tree stands over a stretch of the text that it was derived from. -/
structure Part (text : Text) (offset : Nat) (tree : Tree) (stop : Nat) : Prop where
  le : offset ≤ stop
  total : tree.total = text.width offset (stop - offset)
  covers : tree.children ≠ [] → widthOf tree.children = tree.total.bytes
  operands : Operands text offset tree
  fronted : tree.Fronted

/-- Trees stand end to end over a stretch of the text. -/
inductive Row (text : Text) : Nat → List (Edge Tree) → Nat → Prop where
  | nil {offset : Nat} : Row text offset [] offset
  | cons {offset middle stop field : Nat} {tree : Tree} {rest : List (Edge Tree)}
      (part : Part text offset tree middle) (later : Row text middle rest stop) :
      Row text offset (⟨field, tree⟩ :: rest) stop

theorem Part.bytes_total {tree : Tree} (part : Part text offset tree stop) :
    offset + tree.total.bytes = stop := by
  have := part.le
  rw [part.total, Text.bytes_width]
  omega

theorem Part.row {tree : Tree} (part : Part text offset tree stop) (field : Nat) :
    Row text offset [⟨field, tree⟩] stop := .cons part .nil

theorem Row.append {left right : List (Edge Tree)} (first : Row text offset left middle)
    (second : Row text middle right stop) : Row text offset (left ++ right) stop := by
  induction first with
  | nil => exact second
  | cons part _ ih => exact .cons part (ih second)

theorem Row.le {items : List (Edge Tree)} (row : Row text offset items stop) : offset ≤ stop := by
  induction row with
  | nil => exact Nat.le_refl _
  | cons part _ ih => exact Nat.le_trans part.le ih

theorem Row.widthOf {items : List (Edge Tree)} (row : Row text offset items stop) :
    offset + widthOf items = stop := by
  induction row with
  | nil => rfl
  | cons part _ ih =>
      have := part.bytes_total
      rw [Tree.widthOf_cons]
      omega

theorem Row.operands {items : List (Edge Tree)} (row : Row text offset items stop) :
    OperandsAmong text offset items := by
  induction row with
  | nil =>
      intro number path place found among
      cases among
  | cons part _ ih =>
      apply operandsAmong_cons part.operands
      rw [part.bytes_total]
      exact ih

theorem Row.fronted {items : List (Edge Tree)} (row : Row text offset items stop) :
    EverywhereAmong (fun _ => IsFronted) items := by
  induction row with
  | nil => exact Tree.everywhereAmong_nil
  | cons part _ ih => exact Tree.everywhereAmong_cons.mpr ⟨part.fronted, ih⟩

theorem width_add_width (first : offset ≤ middle) (second : middle ≤ stop) :
    text.width offset (middle - offset) + text.width middle (stop - middle) =
      text.width offset (stop - offset) := by
  have place : offset + (middle - offset) = middle := by omega
  have length : stop - offset = middle - offset + (stop - middle) := by omega
  rw [length, Text.width_append, place]

theorem Row.foldl_total {items : List (Edge Tree)} (row : Row text offset items stop)
    (size : Extent) :
    items.foldl (fun size edge => size + edge.tree.total) size =
      size + text.width offset (stop - offset) := by
  induction row generalizing size with
  | nil =>
      rw [Nat.sub_self]
      exact (Extent.append_zero size).symm
  | cons part later ih =>
      rw [List.foldl_cons, ih, part.total, Extent.append_assoc, width_add_width part.le later.le]

/-- A node that is built around a row stands over the text of the row. -/
theorem Row.branch {symbol state : Nat} {kind : SymbolKind} {items : List (Edge Tree)}
    (row : Row text offset items stop) (inhabited : items ≠ []) (front : IsFronted items)
    (here : state = operandState →
      ∃ stop, Operand text offset (Tree.branch symbol state kind items) stop) :
    Part text offset (Tree.branch symbol state kind items) stop := by
  refine ⟨row.le, ?_, fun _ => (Tree.bytes_paddingOf_add_sizeOf items).symm,
    operands_node row.operands here, Tree.everywhere_node.mpr ⟨front, row.fronted⟩⟩
  cases row with
  | nil => exact absurd rfl inhabited
  | @cons _ middle _ field tree rest part later =>
      change tree.info.padding + rest.foldl (fun size edge => size + edge.tree.total)
        tree.info.size = _
      have whole : tree.info.padding + tree.info.size = text.width offset (middle - offset) :=
        part.total
      rw [later.foldl_total, ← Extent.append_assoc, whole, width_add_width part.le later.le]

/-! ## The rows of a derivation -/

theorem isFronted_cons {edge : Edge Tree} {rest : List (Edge Tree)}
    (wide : 0 < edge.tree.total.bytes) : IsFronted (edge :: rest) := by
  intro first second others same
  simp only [List.cons.injEq] at same
  rw [← same.1]
  exact wide

theorem isFronted_single (edge : Edge Tree) : IsFronted [edge] := by
  intro first second others same
  simp at same

/-- A leaf that may not be used again. -/
theorem Part.of_leaf {info : Info} (le : offset ≤ stop)
    (total : info.total = text.width offset (stop - offset)) (state : info.state = noState) :
    Part text offset (.node info []) stop := by
  refine ⟨le, total, fun inhabited => absurd rfl inhabited, operands_node ?_ ?_,
    Tree.everywhere_node.mpr ⟨nofun, Tree.everywhereAmong_nil⟩⟩
  · intro number path place found among
    cases among
  · intro same
    rw [state] at same
    cases same

theorem Scanned.part {token : Tree} (scanned : Scanned text offset token stop) :
    Part text offset token stop := by
  have le := scanned.le
  have total := scanned.total
  cases scanned with
  | found => exact Part.of_leaf le total rfl
  | ended => exact Part.of_leaf le total rfl
  | unexpected => exact Part.of_leaf le total rfl

theorem Part.of_missing (symbol : Nat) (kind : SymbolKind) :
    Part text offset (Tree.missing symbol kind) offset := by
  refine Part.of_leaf (Nat.le_refl _) ?_ rfl
  rw [Nat.sub_self]
  rfl

theorem part_missingTree : Part text offset missingTree offset :=
  (Part.of_missing number _).row 0 |>.branch (by simp) (isFronted_single _) nofun

theorem Extras.row {comments : List (Edge Tree)} (extras : Extras text offset comments stop) :
    Row text offset comments stop := by
  induction extras with
  | done => exact .nil
  | more scanned _ _ ih => exact .cons scanned.part ih

/-- A sum stands over what it adds up. -/
theorem Part.sumTree {start : Nat} {left : Tree} {addend : List (Edge Tree)}
    (part : Part text start left offset) (wide : start < offset)
    (row : Row text offset addend stop) :
    Part text start (sumTree (⟨leftField, left⟩ :: addend)) stop := by
  have front : 0 < left.total.bytes := by
    have := part.bytes_total
    omega
  have whole : Part text start (Tree.branch sum noState (vocabulary.kind sum)
      (⟨leftField, left⟩ :: addend)) stop :=
    ((part.row leftField).append row).branch (by simp) (isFronted_cons front) nofun
  exact (whole.row 0).branch (by simp) (isFronted_single _) nofun

theorem Closes.part {closing : Tree} (closes : Closes text offset closing stop) :
    Part text offset closing stop := by
  cases closes with
  | found scanned => exact scanned.part
  | missing => exact Part.of_missing _ _

mutual

theorem Operand.part {offset stop : Nat} {tree : Tree} :
    Operand text offset tree stop → Part text offset tree stop
  | .token scanned single =>
    (scanned.part.row 0).branch (by simp) (isFronted_single _) fun _ =>
      ⟨stop, .token scanned single⟩
  | .group opened opens inside closes => by
    have row := (opened.part.row 0).append (inside.row.append (closes.part.row 0))
    refine row.branch (by simp) (isFronted_cons ?_) fun _ =>
      ⟨stop, .group opened opens inside closes⟩
    have wide := opened.lt (by rw [opens]; decide)
    have := opened.bytes_total
    dsimp only
    omega
termination_by structural operand => operand

theorem Inside.row {offset stop : Nat} {items : List (Edge Tree)} :
    Inside text offset items stop → Row text offset items stop
  | .filled extras first sums => extras.row.append (sums.row first.part first.lt)
  | .empty extras _ => extras.row.append (part_missingTree.row 0)
termination_by structural inside => inside

theorem Sums.row {start offset stop : Nat} {left : Tree} {items : List (Edge Tree)} :
    Sums text left offset items stop → Part text start left offset → start < offset →
      Row text start items stop
  | .done extras _ _, part, _ => .cons part extras.row
  | .more extras scanned _ right rest, part, wide => by
    have addend := extras.row.append ((scanned.part.row 0).append right.row)
    have := addend.le
    exact rest.row (part.sumTree wide addend) (by omega)
termination_by structural sums => sums

theorem Right.row {offset stop : Nat} {items : List (Edge Tree)} :
    Right text offset items stop → Row text offset items stop
  | .found extras operand => extras.row.append (operand.part.row rightField)
  | .missing extras _ => extras.row.append (part_missingTree.row rightField)
termination_by structural right => right

end

theorem Expressions.row {items : List (Edge Tree)} (expressions : Expressions text offset items) :
    ∃ stop, Row text offset items stop := by
  induction expressions with
  | ended extras scanned => exact ⟨_, extras.row.append (scanned.part.row 0)⟩
  | expression extras first sums _ ih =>
      rcases ih with ⟨stop, later⟩
      exact ⟨stop, extras.row.append ((sums.row first.part first.lt).append later)⟩
  | skipped extras scanned _ _ _ _ ih =>
      rcases ih with ⟨stop, later⟩
      have error : Part text _ (Tree.error [⟨0, _⟩]) _ :=
        (scanned.part.row 0).branch (by simp) (isFronted_single _) nofun
      exact ⟨stop, extras.row.append (.cons error later)⟩

/-! ## The root -/

/-- A tree has text of its own, and children if it may become the root. -/
def IsWide (tree : Tree) : Prop :=
  0 < tree.total.bytes ∧ (tree.isPrincipal = true → tree.children ≠ [])

theorem Extras.wide {comments : List (Edge Tree)} (extras : Extras text offset comments stop) :
    ∀ edge ∈ comments, IsWide edge.tree := by
  induction extras with
  | done => simp
  | more scanned extra _ ih =>
      have wide := scanned.lt (by rw [scanned.of_extra extra]; decide)
      have := scanned.bytes_total
      refine List.forall_mem_cons.mpr ⟨⟨by dsimp only; omega, ?_⟩, ih⟩
      simp [Tree.isPrincipal, extra]

theorem inhabited_sumTree (items : List (Edge Tree)) : (sumTree items).children ≠ [] := by
  simp [sumTree, Tree.branch]

theorem Sums.wide {start offset stop : Nat} {left : Tree} {items : List (Edge Tree)} :
    Sums text left offset items stop → Part text start left offset → start < offset →
      left.children ≠ [] → ∀ edge ∈ items, IsWide edge.tree
  | .done extras _ _, part, wide, inhabited => by
    have := part.bytes_total
    exact List.forall_mem_cons.mpr ⟨⟨by dsimp only; omega, fun _ => inhabited⟩, extras.wide⟩
  | .more extras scanned _ right rest, part, wide, _ => by
    have addend := extras.row.append ((scanned.part.row 0).append right.row)
    have further := addend.le
    exact rest.wide (part.sumTree wide addend) (Nat.lt_of_lt_of_le wide further)
      (inhabited_sumTree _)
termination_by structural sums => sums

theorem Operand.inhabited {tree : Tree} (operand : Operand text offset tree stop) :
    tree.children ≠ [] := by
  cases operand with
  | token => simp [operandTree, Tree.branch]
  | group => simp [operandTree, Tree.branch]

/-- All trees of a text but the token that ends it are wide. -/
theorem Expressions.wide {items : List (Edge Tree)} (expressions : Expressions text offset items) :
    ∃ front token, items = front ++ [⟨0, token⟩] ∧ token.isPrincipal = false ∧
      ∀ edge ∈ front, IsWide edge.tree := by
  induction expressions with
  | @ended _ _ _ comments token extras _ ends =>
      refine ⟨comments, token, rfl, ?_, extras.wide⟩
      simp [Tree.isPrincipal, Info.isEnd, ends]
  | @expression _ _ _ _ comments items _ _ extras first sums _ ih =>
      rcases ih with ⟨front, token, rfl, ends, wide⟩
      refine ⟨comments ++ (items ++ front), token, by simp, ends, ?_⟩
      simp only [List.forall_mem_append]
      exact ⟨extras.wide, sums.wide first.part first.lt first.inhabited, wide⟩
  | @skipped _ _ _ comments _ skipped extras scanned _ more _ _ ih =>
      rcases ih with ⟨front, token, rfl, ends, wide⟩
      refine ⟨comments ++ ⟨0, Tree.error [⟨0, skipped⟩]⟩ :: front, token, by simp, ends, ?_⟩
      simp only [List.forall_mem_append, List.forall_mem_cons]
      refine ⟨extras.wide, ⟨?_, ?_⟩, wide⟩
      · have := scanned.lt more
        have := scanned.bytes_total
        change 0 < skipped.total.bytes
        omega
      · intro principal
        simp [Tree.isPrincipal, Tree.error, Tree.branch, Info.isError, Info.plain] at principal

theorem Row.fieldless {items : List (Edge Tree)} (row : Row text offset items stop) :
    Row text offset (items.map fun edge => ⟨0, edge.tree⟩) stop := by
  induction row with
  | nil => exact .nil
  | cons part _ ih => exact .cons part ih

/-- The children of the root stand over the text as the trees of the parse did. -/
theorem Row.rootChildren {items : List (Edge Tree)} (row : Row text offset items stop)
    (inhabited : ∀ edge ∈ items, edge.tree.isPrincipal = true → edge.tree.children ≠ []) :
    OperandsAmong text offset (Tree.rootChildren items) ∧
      EverywhereAmong (fun _ => IsFronted) (Tree.rootChildren items) := by
  induction row with
  | nil =>
      refine ⟨?_, Tree.everywhereAmong_nil⟩
      intro number path place found among
      cases among
  | @cons offset middle stop field tree rest part later ih =>
      rcases List.forall_mem_cons.mp inhabited with ⟨here, others⟩
      rcases ih others with ⟨operands, fronted⟩
      have reached := part.bytes_total
      unfold Tree.rootChildren
      split
      · rename_i principal
        have covered := part.covers (here principal)
        constructor
        · apply part.operands.among.append
          rw [covered, reached]
          exact operands
        · rcases tree with ⟨info, children⟩
          have below := (Tree.everywhere_node.mp part.fronted).2
          rw [Tree.everywhereAmong_iff] at below fronted ⊢
          exact List.forall_mem_append.mpr ⟨below, fronted⟩
      · constructor
        · apply operandsAmong_cons part.operands
          rw [reached]
          exact operands
        · exact Tree.everywhereAmong_cons.mpr ⟨part.fronted, fronted⟩

/-- The first child of the root has text of its own if others follow it. -/
theorem Row.isFronted_rootChildren {front : List (Edge Tree)} {token : Tree}
    (row : Row text offset (front ++ [⟨0, token⟩]) stop) (ends : token.isPrincipal = false)
    (wide : ∀ edge ∈ front, IsWide edge.tree) :
    IsFronted (Tree.rootChildren (front ++ [⟨0, token⟩])) := by
  cases front with
  | nil =>
      simp only [List.nil_append, Tree.rootChildren, ends, Bool.false_eq_true, if_false]
      exact isFronted_single _
  | cons first rest =>
      rcases first with ⟨field, tree⟩
      rcases wide ⟨field, tree⟩ (by simp) with ⟨positive, inhabited⟩
      cases row with
      | cons part later =>
          rw [List.cons_append, Tree.rootChildren]
          split
          · -- the first child of a principal tree stands where the tree does
            rename_i principal
            have covered := part.covers (inhabited principal)
            have fronted := part.fronted
            rcases tree with ⟨info, children⟩
            have front := (Tree.everywhere_node.mp fronted).1
            cases children with
            | nil => exact absurd rfl (inhabited principal)
            | cons child others =>
                apply isFronted_cons
                cases others with
                | nil =>
                    rcases child with ⟨childField, child⟩
                    simp only [Tree.children_node, Tree.widthOf_cons, Tree.widthOf_nil] at covered
                    dsimp only at positive ⊢
                    omega
                | cons second others => exact front child second others rfl
          · exact isFronted_cons positive

theorem Expressions.root {items : List (Edge Tree)} (expressions : Expressions text offset items) :
    Operands text offset (Tree.root vocabulary items) ∧ (Tree.root vocabulary items).Fronted := by
  rcases expressions.row with ⟨stop, row⟩
  rcases expressions.wide with ⟨front, token, rfl, ends, wide⟩
  have inhabited : ∀ edge ∈ front ++ [⟨0, token⟩],
      edge.tree.isPrincipal = true → edge.tree.children ≠ [] := by
    simp only [List.forall_mem_append, List.forall_mem_singleton, ends]
    exact ⟨fun edge member => (wide edge member).2, nofun⟩
  have error : Part text offset (Tree.error (front ++ [⟨0, token⟩])) stop := by
    refine row.fieldless.branch (by simp) ?_ nofun
    cases front with
    | nil => exact isFronted_single _
    | cons first rest => exact isFronted_cons (wide first (by simp)).1
  unfold Tree.root
  split
  · split
    · exact ⟨error.operands, error.fronted⟩
    · rcases row.rootChildren inhabited with ⟨operands, fronted⟩
      exact ⟨operands_node operands nofun, Tree.everywhere_node.mpr
        ⟨row.isFronted_rootChildren ends wide, fronted⟩⟩
  · exact ⟨error.operands, error.fronted⟩

end Arithmetic

end Reparse
