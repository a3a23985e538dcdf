import Reparse.Proofs.Query.Preorder

/-!
# What a cursor has beside it

The siblings that a cursor still comes to are those that the tree shows after its node: the parent
that is found from the root is the node that the cursor climbs to, and the cursor's node stands among
the children of this parent just before the siblings after it.
-/

namespace Reparse

namespace Node

variable {tree : Tree} {node parent : Node} {trail : List Nat} {index number : Nat} {place : Extent}
  {inherited : Nat}

/-! ## Trails of children -/

mutual

theorem trail_of_shownBelow (trail : List Nat) (start : Extent) (inherited : Nat) :
    (tree : Tree) → ∀ shown ∈ shownBelow trail start inherited tree,
      ∃ number path, shown.node.trail = path ++ number :: trail
  | .node _ children => by
    rw [shownBelow]
    intro shown member
    rcases trail_of_shownFrom trail 0 start inherited children shown member with
      ⟨number, path, _, same⟩
    exact ⟨number, path, same⟩

/-- The trails of what some children show lead through these children. -/
theorem trail_of_shownFrom (trail : List Nat) (index : Nat) (place : Extent) (inherited : Nat) :
    (edges : List (Edge Tree)) → ∀ shown ∈ shownFrom trail index place inherited edges,
      ∃ number path, index ≤ number ∧ shown.node.trail = path ++ number :: trail
  | [] => by simp [shownFrom]
  | ⟨own, child⟩ :: rest => by
    have later (inherited : Nat) : ∀ shown ∈ shownFrom trail (index + 1)
        (startOf index place child + child.info.size) inherited rest,
        ∃ number path, index ≤ number ∧ shown.node.trail = path ++ number :: trail := by
      intro shown member
      rcases trail_of_shownFrom trail (index + 1) _ inherited rest shown member with
        ⟨number, path, onward, same⟩
      exact ⟨number, path, Nat.le_of_succ_le onward, same⟩
    rw [shownFrom]
    split
    · exact List.forall_mem_cons.mpr ⟨⟨index, [], Nat.le_refl _, rfl⟩, later _⟩
    · split
      · refine List.forall_mem_append.mpr ⟨?_, later _⟩
        intro shown member
        rcases trail_of_shownBelow (index :: trail) _ _ child shown member with
          ⟨number, path, same⟩
        exact ⟨index, path ++ [number], Nat.le_refl _, by simp [same]⟩
      · exact later _

end

/-- The child numbers that lead from the root to a node. -/
def path (node : Node) : List Nat := node.trail.reverse

/-- Ways through an earlier child come before ways through a later one. -/
theorem reverse_trail_lt {left right : Nat} (one other : List Nat) (earlier : left < right) :
    (one ++ left :: trail).reverse < (other ++ right :: trail).reverse := by
  have onward : left :: one.reverse < right :: other.reverse :=
    List.cons_lt_cons_iff.mpr (Or.inl earlier)
  have behind : trail.reverse ++ left :: one.reverse < trail.reverse ++ right :: other.reverse :=
    List.append_left_lt onward
  simpa using behind

mutual

theorem ordered_shownBelow (trail : List Nat) (start : Extent) (inherited : Nat) :
    (tree : Tree) → (shownBelow trail start inherited tree).Pairwise
      fun left right => left.node.path < right.node.path
  | .node _ children => by
    rw [shownBelow]
    exact ordered_shownFrom trail 0 start inherited children

/-- Nodes are shown in the order of their paths. -/
theorem ordered_shownFrom (trail : List Nat) (index : Nat) (place : Extent) (inherited : Nat) :
    (edges : List (Edge Tree)) → (shownFrom trail index place inherited edges).Pairwise
      fun left right => left.node.path < right.node.path
  | [] => by
    rw [shownFrom]
    exact .nil
  | ⟨own, child⟩ :: rest => by
    have later (inherited : Nat) := ordered_shownFrom trail (index + 1)
      (startOf index place child + child.info.size) inherited rest
    have behind (inherited : Nat) : ∀ path, ∀ shown ∈ shownFrom trail (index + 1)
        (startOf index place child + child.info.size) inherited rest,
        (path ++ index :: trail).reverse < shown.node.path := by
      intro path shown member
      rcases trail_of_shownFrom trail (index + 1) _ inherited rest shown member with
        ⟨number, other, onward, same⟩
      rw [Node.path, same]
      exact reverse_trail_lt path other onward
    rw [shownFrom]
    split
    · exact List.pairwise_cons.mpr ⟨behind _ [], later _⟩
    · split
      · refine List.pairwise_append.mpr ⟨ordered_shownBelow _ _ _ child, later _, ?_⟩
        intro left here right there
        rcases trail_of_shownBelow (index :: trail) _ _ child left here with ⟨number, path, same⟩
        have before := behind _ (path ++ [number]) right there
        rw [Node.path, same]
        simpa using before
      · exact later _

end

/-- The children of a node are in the order of their paths. -/
theorem ordered_children (node : Node) :
    node.children.Pairwise fun left right => left.node.path < right.node.path :=
  ordered_shownFrom _ _ _ _ _

/-- No node is shown twice. -/
theorem distinct_children (node : Node) :
    node.children.Pairwise fun left right => left.node.trail ≠ right.node.trail := by
  refine node.ordered_children.imp fun {left right} before same => ?_
  rw [path, path, same] at before
  exact List.lt_irrefl _ before

/-! ## The nearest visible node around -/

theorem nearestVisible_append (nearest node : Node) (path : List Nat) (number : Nat) :
    nearestVisible nearest node (path ++ [number]) =
      (node.follow path).bind fun reached => (reached.placed? number).bind fun child =>
        if child.info.visible then some child else nearestVisible nearest node path := by
  induction path generalizing nearest node with
  | nil =>
      simp only [List.nil_append, nearestVisible, follow, Option.bind_some]
      cases node.placed? number with
      | none => rfl
      | some child =>
          simp only [Option.bind_some]
          split <;> rfl
  | cons first rest ih =>
      simp only [List.cons_append, nearestVisible, follow]
      cases node.placed? first with
      | none => rfl
      | some child => exact ih _ child

/-- The nearest visible node at or around a node, the root in the end. -/
def nearest? (tree : Tree) (node : Node) : Option Node :=
  nearestVisible (root tree) (root tree) node.trail.reverse

theorem nearest?_of_placed (lies : parent.LiesIn tree)
    (placed : parent.placed? number = some node) :
    nearest? tree node = if node.info.visible then some node else nearest? tree parent := by
  have trail : node.trail = number :: parent.trail := by
    rw [trail_of_placedAt placed, Nat.zero_add]
  rw [nearest?, trail, List.reverse_cons, nearestVisible_append]
  have followed : (root tree).follow parent.trail.reverse = some parent := lies
  rw [followed, Option.bind_some, placed, Option.bind_some, nearest?]

theorem nearest?_of_visible (lies : node.LiesIn tree) (visible : node.isVisible = true) :
    nearest? tree node = some node := by
  rcases node with ⟨inner, start, trail⟩
  cases trail with
  | nil =>
      have same : root tree = _ := Option.some.inj lies
      rw [← same]
      rfl
  | cons number rest =>
      rcases lies.exists_parent rfl with ⟨parent, above, _, placed⟩
      rw [nearest?_of_placed above placed]
      exact if_pos (by simpa [isVisible, isRoot] using visible)

end Node

namespace Cursor

open Node (shownFrom shownBelow)

variable {tree : Tree} {cursor reached : Cursor} {node parent start : Node} {around : List Node}

/-- The nearest visible node around a cursor's is the one it climbs to. -/
theorem nearest?_of_climb (chained : Chained tree node around)
    (base : (node :: around).getLast? = some start) (visible : start.isVisible = true)
    (climbed : climb (node :: around) = some reached) :
    Node.nearest? tree node = some reached.node := by
  induction around generalizing node with
  | nil =>
      simp only [climb, Option.some.injEq] at climbed
      rw [List.getLast?_singleton, Option.some.injEq] at base
      subst base
      rw [← climbed]
      exact Node.nearest?_of_visible chained visible
  | cons parent rest ih =>
      rw [Node.nearest?_of_placed chained.2.liesIn chained.1]
      rw [climb] at climbed
      · split at climbed
        · rename_i shown
          rw [Option.some.injEq] at climbed
          rw [if_pos shown, ← climbed]
        · rename_i hidden
          rw [if_neg hidden]
          rw [List.getLast?_cons_cons] at base
          exact ih chained.2 base climbed
      · simp

theorem parent?_of_climb (chained : Chained tree node around)
    (base : (node :: around).getLast? = some start) (visible : start.isVisible = true)
    (climbed : climb around = some reached) :
    node.parent? (Node.root tree) = some reached.node := by
  cases around with
  | nil => simp [climb] at climbed
  | cons parent rest =>
      rw [List.getLast?_cons_cons] at base
      have nearest := nearest?_of_climb chained.2 base visible climbed
      have trail : node.trail = number node :: parent.trail := by
        have placed := Node.trail_of_placedAt chained.1
        rwa [Nat.zero_add] at placed
      rw [Node.parent?, trail]
      exact nearest

/-! ## Among the children of the parent -/

/-- What a node shows of itself: itself, or what it shows if it is hidden. -/
def ownShare (node : Node) (around : List Node) : List Child :=
  if node.info.visible then [⟨node, fieldAmong node around⟩] else shown node around

theorem ownShare_of_hidden (hidden : ¬node.info.visible = true) :
    ownShare node around = shown node around := if_neg hidden

/-- What some children show: first the share of the first one, then what the others show. -/
theorem shownFrom_cons {index : Nat} {place : Extent} {own : Nat} {child : Tree}
    {rest : List (Edge Tree)} (around : List Node) (counted : child.Counted)
    (dropped : parent.tree.children.drop index = ⟨own, child⟩ :: rest) :
    shownFrom parent.trail index place (handedDown parent around) (⟨own, child⟩ :: rest) =
      ownShare ⟨child, Node.startOf index place child, index :: parent.trail⟩ (parent :: around) ++
        shownFrom parent.trail (index + 1) (Node.startOf index place child + child.info.size)
          (handedDown parent around) rest := by
  let node : Node := ⟨child, Node.startOf index place child, index :: parent.trail⟩
  have standing : fieldAmong node (parent :: around) = _ := fieldAmong_child around dropped _
  rw [shownFrom, ← standing]
  split
  · rename_i visible
    have shows : node.info.visible = true := visible
    rw [ownShare, if_pos shows]
    rfl
  · rename_i hidden
    have hides : ¬node.info.visible = true := hidden
    rw [ownShare_of_hidden hides, shown, handedDown_of_hidden hides]
    split
    · rfl
    · rename_i none
      have empty : shownBelow node.trail node.start (fieldAmong node (parent :: around)) child =
          [] := by
        by_contra some
        exact none ((Node.shownBelow_ne_nil counted _ _ _).mp some)
      rw [empty, List.nil_append]

/-- The share of a child among what some children show. -/
theorem split_of_placedAt {index number : Nat} {place : Extent} {edges : List (Edge Tree)}
    (around : List Node) (counted : Tree.EverywhereAmong Tree.IsCounted edges)
    (dropped : parent.tree.children.drop index = edges)
    (placed : Node.placedAt parent.trail index place number edges = some node) :
    ∃ before, shownFrom parent.trail index place (handedDown parent around) edges =
      before ++ (ownShare node (parent :: around) ++
        shownFrom parent.trail (index + number + 1) node.stop (handedDown parent around)
          (edges.drop (number + 1))) := by
  induction edges generalizing index place number with
  | nil => simp [Node.placedAt] at placed
  | cons edge rest ih =>
      rcases edge with ⟨own, child⟩
      rcases Tree.everywhereAmong_cons.mp counted with ⟨here, behind⟩
      rw [shownFrom_cons around here dropped]
      cases number with
      | zero =>
          simp only [Node.placedAt, Option.some.injEq] at placed
          subst placed
          exact ⟨[], rfl⟩
      | succ number =>
          rcases ih behind (drop_succ dropped) placed with ⟨before, split⟩
          rw [split, show index + 1 + number + 1 = index + (number + 1) + 1 by omega,
            ← List.append_assoc]
          exact ⟨_, rfl⟩

theorem shown_eq (parent : Node) (around : List Node) :
    shown parent around =
      shownFrom parent.trail 0 parent.start (handedDown parent around) parent.tree.children := by
  rw [shown]
  rcases parent with ⟨⟨info, children⟩, start, trail⟩
  rw [shownBelow]
  rfl

/-- A node's share among what the node around it shows. -/
theorem split_of_isChild (counted : parent.tree.Counted) (child : IsChild parent node) :
    ∃ before, shown parent around = before ++ (ownShare node (parent :: around) ++
      shownFrom parent.trail (number node + 1) node.stop (handedDown parent around)
        (parent.tree.children.drop (number node + 1))) := by
  rw [shown_eq]
  have split := split_of_placedAt around (countedAmong_drop counted 0) rfl child
  rwa [Nat.zero_add] at split

theorem shown_of_isParent (passes : isParent node around = true) :
    shown node around = node.children := by
  rw [shown, handedDown, if_pos passes, Node.children_eq_shownBelow]

/-- A node's share among the children of the node that it is shown by, and what is behind it. -/
theorem split_of_climb (counted : CountedAll around) (chained : Chained tree node around)
    (climbed : climb around = some reached) :
    ∃ before, reached.node.children = before ++ (ownShare node around ++ later node around) := by
  induction around generalizing node with
  | nil => simp [climb] at climbed
  | cons parent rest ih =>
      rcases List.forall_mem_cons.mp counted with ⟨here, above⟩
      rcases split_of_isChild here chained.1 with ⟨before, split⟩
      rw [later_cons]
      by_cases passes : isParent parent rest = true
      · rw [climb_of_parent passes, Option.some.injEq] at climbed
        rw [← climbed, beyond, if_pos passes, List.append_nil, ← shown_of_isParent passes]
        exact ⟨before, split⟩
      · rcases hidden_of_not_isParent passes with ⟨hidden, outer, rest, rfl⟩
        rw [climb_of_hidden hidden] at climbed
        rcases ih above chained.2 climbed with ⟨front, whole⟩
        rw [ownShare_of_hidden hidden, split] at whole
        rw [beyond_of_hidden hidden]
        exact ⟨front ++ before, by simp only [whole, List.append_assoc]⟩

/-- What the cursor has beside it is what the tree has there. -/
theorem siblings?_eq (lies : cursor.LiesIn tree) (counted : CountedAll cursor.around)
    (base : (cursor.node :: cursor.around).getLast? = some start)
    (shown : start.isVisible = true) (visible : cursor.node.info.visible = true)
    (climbed : climb cursor.around = some reached) :
    ∃ before, cursor.node.siblings? (Node.root tree) =
      some (before, later cursor.node cursor.around) := by
  rcases split_of_climb counted lies climbed with ⟨before, split⟩
  rw [ownShare, if_pos visible] at split
  have distinct : reached.node.children.Pairwise
      fun left right => left.node.trail ≠ right.node.trail := reached.node.distinct_children
  rw [split] at distinct
  have front : ∀ sibling ∈ before, (sibling.node.trail != cursor.node.trail) = true := by
    intro sibling member
    have apart := (List.pairwise_append.mp distinct).2.2 sibling member
      ⟨cursor.node, fieldAmong cursor.node cursor.around⟩ (by simp)
    simpa using apart
  refine ⟨before, ?_⟩
  rw [Node.siblings?, parent?_of_climb lies base shown climbed]
  dsimp only
  rw [split, List.span_eq_takeWhile_dropWhile, List.takeWhile_append_of_pos front,
    List.dropWhile_append_of_pos front]
  simp

end Cursor

end Reparse
