import Reparse.Proofs.Query.Run
import Reparse.Proofs.Tree.Counted

/-!
# Cursors walk in preorder

Going to the first child, to the next sibling, or up to a parent and on from there, a cursor comes
to the visible nodes below the one it was started on in document order (`Node.preorder`), each in the
field in which its parent shows it and with the siblings after it that its parent shows. Hidden
nodes on the way are passed.
-/

namespace Reparse

/-- A node as it is shown, with the siblings shown after it. -/
abbrev Visit := Child × List Child

namespace Node

variable {tree : Tree} {node : Node} {trail : List Nat} {index inherited : Nat} {place : Extent}

/-- The children of a node are what its subtree would show if it were hidden. -/
theorem children_eq_shownBelow (node : Node) :
    node.children = shownBelow node.trail node.start 0 node.tree := by
  rcases node with ⟨tree, start, trail⟩
  cases tree with
  | node info children => rw [shownBelow]; rfl

mutual

theorem count_lt_of_shownBelow (trail : List Nat) (start : Extent) (inherited : Nat) :
    (tree : Tree) → ∀ shown ∈ shownBelow trail start inherited tree,
      shown.node.tree.count < tree.count
  | .node info children => by
    rw [shownBelow, Tree.count]
    intro shown member
    have below := count_le_of_shownFrom trail 0 start inherited children shown member
    omega

theorem count_le_of_shownFrom (trail : List Nat) (index : Nat) (place : Extent) (inherited : Nat) :
    (edges : List (Edge Tree)) → ∀ shown ∈ shownFrom trail index place inherited edges,
      shown.node.tree.count ≤ Tree.countAll edges
  | [] => by simp [shownFrom]
  | ⟨own, child⟩ :: rest => by
    have later (inherited : Nat) := count_le_of_shownFrom trail (index + 1)
      (startOf index place child + child.info.size) inherited rest
    rw [shownFrom, Tree.countAll]
    split
    · refine List.forall_mem_cons.mpr ⟨Nat.le_add_right _ _, ?_⟩
      exact fun shown member => Nat.le_trans (later _ shown member) (Nat.le_add_left _ _)
    · split
      · refine List.forall_mem_append.mpr ⟨?_, ?_⟩
        · intro shown member
          have below := count_lt_of_shownBelow _ _ _ child shown member
          dsimp only
          omega
        · exact fun shown member => Nat.le_trans (later _ shown member) (Nat.le_add_left _ _)
      · exact fun shown member => Nat.le_trans (later _ shown member) (Nat.le_add_left _ _)

end

theorem count_lt_of_children (node : Node) :
    ∀ child ∈ node.children, child.node.tree.count < node.tree.count := by
  intro child member
  have below := count_le_of_shownFrom node.trail 0 node.start 0 node.tree.children child member
  rw [Tree.count_eq node.tree]
  omega

/-- A node and the visible nodes below it in document order, each with the siblings after it. A node
that fails the test is left out with all that is below it. -/
def preorder (keeps : Node → Bool) (shown : Child) (later : List Child) : List Visit :=
  if keeps shown.node then
    (shown, later) ::
      (withRest shown.node.children).attach.flatMap fun visit =>
        preorder keeps visit.1.1 visit.1.2
  else []
termination_by shown.node.tree.count
decreasing_by
  exact count_lt_of_children shown.node visit.1.1 (mem_of_withRest visit.2).1

/-- The visible nodes at and below some siblings. -/
def preorderAmong (keeps : Node → Bool) (siblings : List Child) : List Visit :=
  (withRest siblings).flatMap fun visit => preorder keeps visit.1 visit.2

theorem preorder_eq (keeps : Node → Bool) (shown : Child) (later : List Child) :
    preorder keeps shown later =
      if keeps shown.node then (shown, later) :: preorderAmong keeps shown.node.children
      else [] := by
  rw [preorder, preorderAmong]
  congr 2
  conv_rhs => rw [← List.attach_map_subtype_val (withRest shown.node.children)]
  rw [List.flatMap_map]

@[simp]
theorem preorderAmong_nil (keeps : Node → Bool) : preorderAmong keeps [] = [] := rfl

theorem preorderAmong_cons (keeps : Node → Bool) (shown : Child) (later : List Child) :
    preorderAmong keeps (shown :: later) =
      preorder keeps shown later ++ preorderAmong keeps later := rfl

/-! ## The number of nodes shown -/

mutual

theorem length_shownBelow (trail : List Nat) (start : Extent) (inherited : Nat) :
    (tree : Tree) → tree.Counted →
      (shownBelow trail start inherited tree).length = tree.info.visibleChildren
  | .node info children, counted => by
    rcases Tree.everywhere_node.mp counted with ⟨here, among⟩
    rw [shownBelow, length_shownFrom trail 0 start inherited children among]
    exact here.visible.symm

theorem length_shownFrom (trail : List Nat) (index : Nat) (place : Extent) (inherited : Nat) :
    (edges : List (Edge Tree)) → Tree.EverywhereAmong Tree.IsCounted edges →
      (shownFrom trail index place inherited edges).length = Tree.sumOf Tree.visibleShown edges
  | [], _ => by
    rw [shownFrom]
    rfl
  | ⟨own, child⟩ :: rest, counted => by
    rcases Tree.everywhereAmong_cons.mp counted with ⟨here, behind⟩
    have below (inherited : Nat) :=
      length_shownBelow (index :: trail) (startOf index place child) inherited child here
    have later (inherited : Nat) := length_shownFrom trail (index + 1)
      (startOf index place child + child.info.size) inherited rest behind
    rw [shownFrom, Tree.sumOf_cons]
    split
    · rename_i visible
      rw [List.length_cons, later, Tree.visibleShown, if_pos visible, Nat.add_comm]
    · rename_i hidden
      rw [Tree.Counted.visibleShown_eq here (by simpa using hidden)]
      split
      · rw [List.length_append, below, later]
      · rename_i none
        rw [later]
        dsimp only at none ⊢
        omega

end

/-- A hidden node with right counts shows something if its count says so. -/
theorem shownBelow_ne_nil {child : Tree} (counted : child.Counted) (trail : List Nat)
    (start : Extent) (inherited : Nat) :
    shownBelow trail start inherited child ≠ [] ↔ 0 < child.info.visibleChildren := by
  rw [← length_shownBelow trail start inherited child counted, List.length_pos_iff]

end Node

namespace Cursor

open Node (shownBelow shownFrom startOf preorder preorderAmong)

variable {tree : Tree} {cursor reached : Cursor} {node parent found : Node} {around : List Node}
  {index : Nat} {place : Extent} {edges rest : List (Edge Tree)} {field : Nat} {child : Tree}

/-! ## What is shown behind a node -/

/-- Whether a node with others around it takes the place of a parent: it is visible, or the walk
began there. -/
def isParent (node : Node) (around : List Node) : Bool := around.isEmpty || node.info.visible

/-- The field that a node hands down to the nodes it shows: its own if it is hidden. -/
def handedDown (node : Node) (around : List Node) : Nat :=
  if isParent node around then 0 else fieldAmong node around

/-- The siblings shown after a node. -/
def later (node : Node) : List Node → List Child
  | [] => []
  | parent :: around =>
    shownFrom parent.trail (number node + 1) node.stop (handedDown parent around)
        (parent.tree.children.drop (number node + 1)) ++
      if isParent parent around then [] else later parent around

/-- What is shown behind the children of a node and still beside them. -/
def beyond (node : Node) (around : List Node) : List Child :=
  if isParent node around then [] else later node around

theorem later_cons (node parent : Node) (around : List Node) :
    later node (parent :: around) =
      shownFrom parent.trail (number node + 1) node.stop (handedDown parent around)
          (parent.tree.children.drop (number node + 1)) ++ beyond parent around := rfl

/-- The node that the cursor stands at, as it is shown. -/
def here (cursor : Cursor) : Child := ⟨cursor.node, cursor.field⟩

/-- The children of a node that are shown, in the fields that it hands down. -/
def shown (node : Node) (around : List Node) : List Child :=
  shownBelow node.trail node.start (handedDown node around) node.tree

/-- The cursor has come to the first of some nodes that are shown: the others are the siblings after
it, and going up leads out of `around` as it would from there. -/
structure Leads (shown : List Child) (around : List Node) (cursor : Cursor) : Prop where
  shown : cursor.here :: later cursor.node cursor.around = shown
  parent : climb cursor.around = climb around
  base : cursor.around.getLast? = around.getLast?
  visible : cursor.node.info.visible = true

theorem isParent_of_visible (visible : node.info.visible = true) :
    isParent node around = true := by
  simp [isParent, visible]

theorem isParent_of_hidden (hidden : ¬node.info.visible = true) :
    isParent node (parent :: around) = false := by
  simp [isParent, hidden]

/-- A node that does not pass for a parent is hidden, and has one itself. -/
theorem hidden_of_not_isParent (passes : ¬isParent node around = true) :
    ¬node.info.visible = true ∧ ∃ outer rest, around = outer :: rest := by
  refine ⟨fun visible => passes (isParent_of_visible visible), ?_⟩
  cases around with
  | nil => exact absurd rfl passes
  | cons outer rest => exact ⟨outer, rest, rfl⟩

/-- Only hidden nodes are climbed out of. -/
theorem climb_of_parent (passes : isParent node around = true) :
    climb (node :: around) = some ⟨node, around⟩ := by
  cases around with
  | nil => rfl
  | cons parent around =>
      have visible : node.info.visible = true := by simpa [isParent] using passes
      rw [climb, if_pos visible]
      simp

theorem climb_of_hidden (hidden : ¬node.info.visible = true) :
    climb (node :: parent :: around) = climb (parent :: around) := by
  rw [climb, if_neg hidden]
  simp

/-- What is shown by a hidden node is shown by the node around it. -/
theorem Leads.of_hidden {list : List Child} (leads : cursor.Leads list (node :: parent :: around))
    (hidden : ¬node.info.visible = true) : cursor.Leads list (parent :: around) where
  shown := leads.shown
  parent := leads.parent.trans (climb_of_hidden hidden)
  base := leads.base.trans List.getLast?_cons_cons
  visible := leads.visible

theorem Leads.of_around {list : List Child} (leads : cursor.Leads list (parent :: around))
    (hidden : ¬node.info.visible = true) : cursor.Leads list (node :: parent :: around) where
  shown := leads.shown
  parent := leads.parent.trans (climb_of_hidden hidden).symm
  base := leads.base.trans List.getLast?_cons_cons.symm
  visible := leads.visible

/-! ## Going down -/

/-- The field of a child in the field that it is shown in. -/
theorem fieldAmong_child (around : List Node)
    (dropped : parent.tree.children.drop index = ⟨field, child⟩ :: rest)
    (start : Extent) :
    fieldAmong ⟨child, start, index :: parent.trail⟩ (parent :: around) =
      if child.info.extra then 0
      else if field = 0 then handedDown parent around else field := by
  have at_ : parent.tree.children[index]? = some ⟨field, child⟩ := by
    have first := congrArg (·[0]?) dropped
    simpa using first
  simp only [fieldAmong, Node.info, number, List.headD_cons, fieldOf, at_, handedDown, isParent,
    Bool.or_eq_true]
  split
  · rfl
  · cases field <;> rfl

/-- The siblings shown after a child. -/
theorem later_child (around : List Node)
    (dropped : parent.tree.children.drop index = ⟨field, child⟩ :: rest)
    (start : Extent) :
    later ⟨child, start, index :: parent.trail⟩ (parent :: around) =
      shownFrom parent.trail (index + 1) (start + child.info.size) (handedDown parent around) rest ++
        beyond parent around := by
  rw [later_cons]
  simp only [number, List.headD_cons, drop_succ dropped]
  rfl

/-- A hidden child hands down the field it stands in. -/
theorem handedDown_of_hidden (hidden : ¬node.info.visible = true) :
    handedDown node (parent :: around) = fieldAmong node (parent :: around) := by
  rw [handedDown, isParent_of_hidden hidden, if_neg (by simp)]

theorem beyond_of_hidden (hidden : ¬node.info.visible = true) :
    beyond node (parent :: around) = later node (parent :: around) := by
  rw [beyond, isParent_of_hidden hidden, if_neg (by simp)]

mutual

theorem enterFirst_spec (cursor : Cursor) : (inner : Tree) → inner = cursor.node.tree →
    inner.Counted →
      (shown cursor.node cursor.around = [] ∧ enterFirst cursor inner = (false, cursor)) ∨
        ∃ next, enterFirst cursor inner = (true, next) ∧
          next.Leads (shown cursor.node cursor.around ++ beyond cursor.node cursor.around)
            (cursor.node :: cursor.around)
  | .node info children, same, counted => by
    have edges : cursor.node.tree.children.drop 0 = children := by rw [← same]; rfl
    have among := (Tree.everywhere_node.mp counted).2
    rw [enterFirst, shown, ← same, shownBelow]
    exact enterFirstAmong_spec cursor 0 cursor.node.start children edges among

theorem enterFirstAmong_spec (cursor : Cursor) (index : Nat) (place : Extent) :
    (edges : List (Edge Tree)) → cursor.node.tree.children.drop index = edges →
      Tree.EverywhereAmong Tree.IsCounted edges →
        (shownFrom cursor.node.trail index place (handedDown cursor.node cursor.around) edges = [] ∧
            enterFirstAmong cursor index place edges = (false, cursor)) ∨
          ∃ next, enterFirstAmong cursor index place edges = (true, next) ∧
            next.Leads
              (shownFrom cursor.node.trail index place (handedDown cursor.node cursor.around)
                edges ++ beyond cursor.node cursor.around)
              (cursor.node :: cursor.around)
  | [], _, _ => by
    rw [shownFrom, enterFirstAmong]
    exact Or.inl ⟨rfl, rfl⟩
  | ⟨own, child⟩ :: rest, dropped, counted => by
    rcases Tree.everywhereAmong_cons.mp counted with ⟨here, behind⟩
    let entered := cursor.push ⟨child, startOf index place child, index :: cursor.node.trail⟩
    have standing := fieldAmong_child cursor.around dropped (startOf index place child)
    have after := later_child cursor.around dropped (startOf index place child)
    rw [shownFrom, enterFirstAmong]
    split
    · rename_i visible
      refine Or.inr ⟨entered, rfl, ?_, rfl, rfl, visible⟩
      rw [List.cons_append, ← standing, ← after]
      rfl
    · rename_i hidden
      split
      · rename_i some_
        have below := enterFirst_spec entered child rfl here
        have hidden : ¬entered.node.info.visible = true := hidden
        have inner : handedDown entered.node entered.around = _ :=
          (handedDown_of_hidden hidden).trans standing
        have outer : beyond entered.node entered.around = _ :=
          (beyond_of_hidden hidden).trans after
        rw [shown, inner, outer] at below
        rcases below with ⟨none, _⟩ | ⟨next, moved, leads⟩
        · exact absurd none ((Node.shownBelow_ne_nil here _ _ _).mpr some_)
        · rw [List.append_assoc]
          exact Or.inr ⟨next, moved, leads.of_hidden hidden⟩
      · exact enterFirstAmong_spec cursor (index + 1) _ rest (drop_succ dropped) behind

end

/-- A cursor goes down to the first child that its node shows, if there is one. -/
theorem firstChild_spec (cursor : Cursor) (counted : cursor.node.tree.Counted) :
    (shown cursor.node cursor.around = [] ∧ cursor.firstChild = (false, cursor)) ∨
      ∃ next, cursor.firstChild = (true, next) ∧
        next.Leads (shown cursor.node cursor.around ++ beyond cursor.node cursor.around)
          (cursor.node :: cursor.around) :=
  enterFirst_spec cursor cursor.node.tree rfl counted

/-! ## Going on -/

/-- The first node at a reachable node: the node itself or the first one that it shows. -/
theorem firstReachable_spec (around : List Node)
    (dropped : parent.tree.children.drop index = edges)
    (counted : Tree.EverywhereAmong Tree.IsCounted edges) :
    (firstReachable parent.trail index place edges = none ∧
        shownFrom parent.trail index place (handedDown parent around) edges = []) ∨
      ∃ found next, firstReachable parent.trail index place edges = some found ∧
        (if found.info.visible then (⟨found, parent :: around⟩ : Cursor)
          else (⟨found, parent :: around⟩ : Cursor).firstChild.2) = next ∧
        next.Leads
          (shownFrom parent.trail index place (handedDown parent around) edges ++
            beyond parent around)
          (parent :: around) := by
  induction edges generalizing index place with
  | nil =>
      rw [firstReachable, shownFrom]
      exact Or.inl ⟨rfl, rfl⟩
  | cons edge rest ih =>
      rcases edge with ⟨own, child⟩
      rcases Tree.everywhereAmong_cons.mp counted with ⟨here, behind⟩
      let found : Node := ⟨child, startOf index place child, index :: parent.trail⟩
      have standing := fieldAmong_child around dropped (startOf index place child)
      have after := later_child around dropped (startOf index place child)
      rw [firstReachable, shownFrom]
      by_cases visible : child.info.visible = true
      · have reachable : isReachable child.info = true := by simp [isReachable, visible]
        rw [if_pos reachable, if_pos visible]
        refine Or.inr ⟨found, ⟨found, parent :: around⟩, rfl, if_pos visible, ?_, rfl, rfl,
          visible⟩
        rw [List.cons_append, ← standing, ← after]
        rfl
      · rw [if_neg visible]
        by_cases some_ : 0 < child.info.visibleChildren
        · have reachable : isReachable child.info = true := by simp [isReachable, some_]
          rw [if_pos reachable, if_pos some_]
          have below := firstChild_spec ⟨found, parent :: around⟩ here
          have hidden : ¬found.info.visible = true := visible
          have inner : handedDown found (parent :: around) = _ :=
            (handedDown_of_hidden hidden).trans standing
          have outer : beyond found (parent :: around) = _ :=
            (beyond_of_hidden hidden).trans after
          rw [shown, inner, outer] at below
          rcases below with ⟨none, _⟩ | ⟨next, entered, leads⟩
          · exact absurd none ((Node.shownBelow_ne_nil here _ _ _).mpr some_)
          · refine Or.inr ⟨found, next, rfl, ?_, ?_⟩
            · rw [if_neg hidden, entered]
            · rw [List.append_assoc]
              exact leads.of_hidden hidden
        · have unreachable : ¬isReachable child.info = true := by
            simp [isReachable, visible, some_]
          rw [if_neg unreachable, if_neg some_]
          exact ih (drop_succ dropped) behind

/-- The subtrees of all nodes that a cursor keeps have right counts. -/
def CountedAll (nodes : List Node) : Prop := ∀ node ∈ nodes, node.tree.Counted

theorem countedAmong_drop (counted : parent.tree.Counted) (number : Nat) :
    Tree.EverywhereAmong Tree.IsCounted (parent.tree.children.drop number) :=
  Tree.everywhereAmong_iff.mpr fun edge member =>
    counted.children edge (List.mem_of_mem_drop member)

theorem sideways_spec (node : Node) (counted : CountedAll around) :
    (later node around = [] ∧ sideways reachableAfter node around = none) ∨
      ∃ found next, sideways reachableAfter node around = some found ∧
        (if found.node.info.visible then found else found.firstChild.2) = next ∧
        next.Leads (later node around) around := by
  induction around generalizing node with
  | nil => exact Or.inl ⟨rfl, rfl⟩
  | cons parent rest ih =>
      rcases List.forall_mem_cons.mp counted with ⟨here, above⟩
      rw [later_cons, sideways, reachableAfter]
      rcases firstReachable_spec rest rfl
        (countedAmong_drop here (number node + 1)) with ⟨none, empty⟩ | ⟨found, next, some_⟩
      · rw [none, empty, List.nil_append]
        by_cases passes : isParent parent rest = true
        · rw [beyond, if_pos passes]
          exact Or.inl ⟨rfl, if_pos passes⟩
        · rcases hidden_of_not_isParent passes with ⟨hidden, outer, rest, rfl⟩
          have outside : ¬(List.isEmpty (outer :: rest) || parent.info.visible) = true :=
            passes
          rw [beyond_of_hidden hidden, if_neg outside]
          rcases ih parent above with stays | ⟨found, next, search, moved, leads⟩
          · exact Or.inl stays
          · exact Or.inr ⟨found, next, search, moved, leads.of_around hidden⟩
      · rcases some_ with ⟨reachable, moved, leads⟩
        rw [reachable]
        exact Or.inr ⟨⟨found, parent :: rest⟩, next, rfl, moved, leads⟩

/-- A cursor goes on to the next sibling that is shown, if there is one. -/
theorem nextSibling_spec (cursor : Cursor) (counted : CountedAll cursor.around) :
    (later cursor.node cursor.around = [] ∧ cursor.nextSibling = (false, cursor)) ∨
      ∃ next, cursor.nextSibling = (true, next) ∧
        next.Leads (later cursor.node cursor.around) cursor.around := by
  rw [nextSibling]
  rcases sideways_spec cursor.node counted with ⟨empty, none⟩ | ⟨found, next, some_⟩
  · rw [none]
    exact Or.inl ⟨empty, rfl⟩
  · rcases some_ with ⟨search, moved, leads⟩
    rw [search]
    refine Or.inr ⟨next, ?_, leads⟩
    rw [← moved]
    dsimp only
    split <;> rfl

/-! ## Going up -/

/-- Climbing drops some of the nodes around. -/
theorem suffix_of_climb (climbed : climb around = some reached) :
    (reached.node :: reached.around) <:+ around := by
  induction around with
  | nil => simp [climb] at climbed
  | cons node rest ih =>
      cases rest with
      | nil =>
          simp only [climb, Option.some.injEq] at climbed
          exact climbed ▸ List.suffix_refl _
      | cons parent rest =>
          rw [climb] at climbed
          · split at climbed
            · rw [Option.some.injEq] at climbed
              exact climbed ▸ List.suffix_refl _
            · exact (ih climbed).trans (List.suffix_cons _ _)
          · simp

/-- Both lists end with the node where the walk began. -/
theorem getLast?_of_climb (node : Node) (climbed : climb around = some reached) :
    (reached.node :: reached.around).getLast? = (node :: around).getLast? := by
  rcases suffix_of_climb climbed with ⟨before, rfl⟩
  rw [← List.cons_append, List.getLast?_append, List.getLast?_cons, Option.some_or]

theorem Leads.getLast?_eq {list : List Child} (node : Node) (leads : cursor.Leads list around)
    (some : around ≠ []) :
    (cursor.node :: cursor.around).getLast? = (node :: around).getLast? := by
  rcases cursor with ⟨standing, outer⟩
  have base := leads.base
  cases around with
  | nil => exact absurd rfl some
  | cons parent rest =>
      cases outer with
      | nil => simp [List.getLast?_cons] at base
      | cons other more => rw [List.getLast?_cons_cons, List.getLast?_cons_cons, base]

theorem length_of_climb (climbed : climb around = some reached) :
    reached.around.length < around.length := by
  have shorter := (suffix_of_climb climbed).length_le
  rwa [List.length_cons] at shorter

/-- The visits behind a node: to the siblings after it and below them, and then to what is behind
the nodes around it. -/
def remaining (keeps : Node → Bool) (node : Node) (around : List Node) : List Visit :=
  preorderAmong keeps (later node around) ++
    match _climbed : climb around with
    | none => []
    | some reached => remaining keeps reached.node reached.around
termination_by around.length
decreasing_by exact length_of_climb _climbed

theorem remaining_of_none (keeps : Node → Bool) (top : climb around = none) :
    remaining keeps node around = preorderAmong keeps (later node around) := by
  rw [remaining]
  split
  · exact List.append_nil _
  · rename_i climbed
    rw [top] at climbed
    cases climbed

theorem remaining_of_some (keeps : Node → Bool) (climbed : climb around = some reached) :
    remaining keeps node around =
      preorderAmong keeps (later node around) ++
        remaining keeps reached.node reached.around := by
  rw [remaining]
  split
  · rename_i top
    rw [climbed] at top
    cases top
  · rename_i again
    rw [climbed, Option.some.injEq] at again
    rw [again]

/-- Behind the first of the nodes shown, the walk goes on to the others and out of the nodes
around. -/
theorem Leads.remaining_eq {list : List Child} (keeps : Node → Bool)
    (leads : cursor.Leads list around) :
    preorderAmong keeps list ++ (match climb around with
      | none => []
      | some reached => remaining keeps reached.node reached.around) =
      preorder keeps cursor.here (later cursor.node cursor.around) ++
        remaining keeps cursor.node cursor.around := by
  rw [← leads.shown, Node.preorderAmong_cons, List.append_assoc]
  congr 1
  cases top : climb around with
  | none =>
      have same := leads.parent.trans top
      rw [remaining_of_none keeps same, List.append_nil]
  | some reached =>
      have same := leads.parent.trans top
      rw [remaining_of_some keeps same]

end Cursor

namespace QueryRun

open Cursor (remaining later climb CountedAll suffix_of_climb length_of_climb)
open Node (preorder preorderAmong)

/-- What comes next after a node and all below it. -/
theorem following_spec (keeps : Node → Bool) {cursor : Cursor} {height : Nat}
    (counted : CountedAll cursor.around) (high : cursor.around.length < height) :
    (following cursor height = none ∧ remaining keeps cursor.node cursor.around = []) ∨
      ∃ next, following cursor height = some next ∧
        remaining keeps cursor.node cursor.around =
          preorder keeps next.here (later next.node next.around) ++
            remaining keeps next.node next.around ∧
        next.node.info.visible = true ∧
        (next.node :: next.around).getLast? = (cursor.node :: cursor.around).getLast? := by
  induction height generalizing cursor with
  | zero => omega
  | succ height ih =>
      rw [following]
      rcases Cursor.nextSibling_spec cursor counted with ⟨none, stayed⟩ | ⟨next, moved, leads⟩
      · rw [stayed]
        dsimp only
        rw [Cursor.parent]
        cases top : climb cursor.around with
        | none =>
            rw [Cursor.remaining_of_none keeps top, none]
            exact Or.inl ⟨rfl, rfl⟩
        | some parent =>
            have above := suffix_of_climb top
            have lower := length_of_climb top
            have base := Cursor.getLast?_of_climb cursor.node top
            have right : CountedAll parent.around := fun node member =>
              counted node (above.subset (List.mem_cons_of_mem _ member))
            rw [Cursor.remaining_of_some keeps top, none]
            rcases ih right (by omega) with stays | ⟨next, followed, split, visible, same⟩
            · exact Or.inl stays
            · exact Or.inr ⟨next, followed, split, visible, same.trans base⟩
      · have some : cursor.around ≠ [] := by
          intro empty
          have shown := leads.shown
          rw [empty] at shown
          cases shown
        rw [moved]
        refine Or.inr ⟨next, rfl, ?_, leads.visible, leads.getLast?_eq _ some⟩
        rw [← leads.remaining_eq keeps]
        cases top : climb cursor.around with
        | none => rw [Cursor.remaining_of_none keeps top, List.append_nil]
        | some parent => rw [Cursor.remaining_of_some keeps top]

end QueryRun

end Reparse
