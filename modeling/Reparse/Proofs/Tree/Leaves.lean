import Reparse.Proofs.Node.Current
import Reparse.Proofs.Text.Width
import Reparse.Proofs.Tree.Families

/-!
# The leaves of a tree

The leaves of a tree (`Tree.leaves`) in order, and the same leaves as navigation comes to them
(`Node.leaves`). A node measures its text from its padding and its children; in a tree whose nodes
are fitted to their children the leaves therefore lie end to end, each behind its own padding
(`Node.spans_leaves`).
-/

namespace Reparse

namespace Tree

mutual

/-- The leaves of a tree in order. A node without children is a leaf. -/
def leaves : Tree → List Tree
  | node info children =>
    if children.isEmpty then [node info children] else leavesAmong children

def leavesAmong : List (Edge Tree) → List Tree
  | [] => []
  | edge :: rest => edge.tree.leaves ++ leavesAmong rest

end

variable {tree : Tree} {info : Info} {children : List (Edge Tree)}

theorem leaves_of_childless (childless : tree.children = []) : tree.leaves = [tree] := by
  rcases tree with ⟨info, children⟩
  obtain rfl : children = [] := childless
  rw [leaves, List.isEmpty_nil, if_pos rfl]

theorem leaves_of_children (some : tree.children ≠ []) :
    tree.leaves = leavesAmong tree.children := by
  rcases tree with ⟨info, children⟩
  rw [leaves, if_neg (by simpa using some)]
  rfl

theorem leavesAmong_append (left right : List (Edge Tree)) :
    leavesAmong (left ++ right) = leavesAmong left ++ leavesAmong right := by
  induction left with
  | nil => simp [leavesAmong]
  | cons edge rest ih => simp [leavesAmong, ih]

/-! ## Fitted nodes -/

/-- An inner node begins with the padding of its first child, and its content ends with that of the
last one. -/
def IsFitted (info : Info) (children : List (Edge Tree)) : Prop :=
  children ≠ [] → info.padding = paddingOf children ∧ info.size = sizeOf children

/-- All inner nodes of a tree are fitted to their children. -/
def Fitted (tree : Tree) : Prop := tree.Everywhere IsFitted

theorem fitted_of_childless (info : Info) : (node info []).Fitted :=
  everywhere_node.mpr ⟨fun some => absurd rfl some, everywhereAmong_nil⟩

theorem isFamily_fitted : IsFamily Fitted where
  token _ := fitted_of_childless _
  branch among := everywhere_node.mpr ⟨fun _ => ⟨rfl, rfl⟩, everywhereAmong_iff.mpr among⟩
  children := by
    rintro ⟨info, children⟩ fitted
    exact everywhereAmong_iff.mp (everywhere_node.mp fitted).2

/-- The extent of trees laid end to end. -/
def extentOf : List Tree → Extent
  | [] => Extent.zero
  | tree :: rest => tree.total + extentOf rest

theorem extentOf_append (left right : List Tree) :
    extentOf (left ++ right) = extentOf left + extentOf right := by
  induction left with
  | nil => exact (Extent.zero_append _).symm
  | cons tree rest ih => rw [List.cons_append, extentOf, extentOf, ih, Extent.append_assoc]

theorem foldl_total (edges : List (Edge Tree)) (size : Extent) :
    edges.foldl (fun size edge => size + edge.tree.total) size =
      size + extentOf (edges.map (·.tree)) := by
  induction edges generalizing size with
  | nil => exact (Extent.append_zero _).symm
  | cons edge rest ih => rw [List.foldl_cons, ih, List.map_cons, extentOf, Extent.append_assoc]

/-- The padding and the content of children are their extents end to end. -/
theorem paddingOf_add_sizeOf (children : List (Edge Tree)) :
    paddingOf children + sizeOf children = extentOf (children.map (·.tree)) := by
  cases children with
  | nil => rfl
  | cons first rest =>
      rw [paddingOf, sizeOf, foldl_total, ← Extent.append_assoc]
      rfl

mutual

/-- A tree has the extent of its leaves. -/
theorem extentOf_leaves : (tree : Tree) → tree.Fitted → extentOf tree.leaves = tree.total
  | node info children, fitted => by
    rcases everywhere_node.mp fitted with ⟨here, among⟩
    rw [leaves]
    split
    · exact Extent.append_zero _
    · rename_i some
      rcases here (by simpa using some) with ⟨padding, size⟩
      rw [extentOf_leavesAmong children among, ← paddingOf_add_sizeOf, ← padding, ← size]
      rfl

theorem extentOf_leavesAmong : (edges : List (Edge Tree)) → EverywhereAmong IsFitted edges →
    extentOf (leavesAmong edges) = extentOf (edges.map (·.tree))
  | [], _ => rfl
  | edge :: rest, fitted => by
    rcases everywhereAmong_cons.mp fitted with ⟨here, later⟩
    rw [leavesAmong, extentOf_append, extentOf_leaves edge.tree here,
      extentOf_leavesAmong rest later]
    rfl

end

/-- Where leaves stand that are laid end to end from `base` on. -/
def laidOut (base : Extent) : List Tree → List (Tree × Span)
  | [] => []
  | leaf :: rest =>
    (leaf, ⟨base + leaf.info.padding, base + leaf.total⟩) :: laidOut (base + leaf.total) rest

theorem laidOut_append (base : Extent) (left right : List Tree) :
    laidOut base (left ++ right) = laidOut base left ++ laidOut (base + extentOf left) right := by
  induction left generalizing base with
  | nil =>
      rw [extentOf, Extent.append_zero]
      rfl
  | cons leaf rest ih =>
      rw [List.cons_append, laidOut, laidOut, ih, extentOf, Extent.append_assoc]
      rfl

/-! ## The leaves of the root -/

theorem rootChildren_ne_nil {items : List (Edge Tree)}
    (beside : ∃ edge ∈ items, edge.tree.isPrincipal = false) : rootChildren items ≠ [] := by
  induction items with
  | nil => simp at beside
  | cons edge rest ih =>
      rw [rootChildren]
      split
      · rename_i principal
        rcases beside with ⟨other, member, plain⟩
        rcases List.mem_cons.mp member with rfl | later
        · rw [principal] at plain
          cases plain
        · exact List.append_ne_nil_of_right_ne_nil _ (ih ⟨other, later, plain⟩)
      · exact List.cons_ne_nil _ _

theorem leavesAmong_rootChildren {items : List (Edge Tree)}
    (inner : ∀ edge ∈ items, edge.tree.isPrincipal = true → edge.tree.children ≠ []) :
    leavesAmong (rootChildren items) = leavesAmong items := by
  induction items with
  | nil => rfl
  | cons edge rest ih =>
      rcases List.forall_mem_cons.mp inner with ⟨here, later⟩
      rw [rootChildren]
      split
      · rename_i principal
        rw [leavesAmong_append, ih later, leavesAmong, leaves_of_children (here principal)]
      · rw [leavesAmong, leavesAmong, ih later]

theorem leavesAmong_unnamed (items : List (Edge Tree)) :
    leavesAmong (items.map fun edge => ⟨0, edge.tree⟩) = leavesAmong items := by
  induction items with
  | nil => rfl
  | cons edge rest ih => rw [List.map_cons, leavesAmong, leavesAmong, ih]

/-- A node has the leaves of its children. -/
theorem leaves_branch (symbol state : Nat) (kind : SymbolKind) (some : children ≠ []) :
    (branch symbol state kind children).leaves = leavesAmong children :=
  leaves_of_children some

theorem leaves_error (some : children ≠ []) : (error children).leaves = leavesAmong children := by
  rw [error, leaves_branch _ _ _ (by simpa using some), leavesAmong_unnamed]

/-- The root has the leaves of the trees that it was made of, if one of them is not principal. -/
theorem leaves_root (vocabulary : Vocabulary) {items : List (Edge Tree)}
    (beside : ∃ edge ∈ items, edge.tree.isPrincipal = false) :
    (root vocabulary items).leaves = leavesAmong items := by
  have some : items ≠ [] := by
    rcases beside with ⟨edge, member, _⟩
    exact List.ne_nil_of_mem member
  unfold root
  split
  · rename_i principal only
    split
    · exact leaves_error some
    · rename_i inner
      rw [leaves_branch _ _ _ (rootChildren_ne_nil beside), leavesAmong_rootChildren]
      intro edge member chosen
      have same : edge ∈ items.filter fun edge => edge.tree.isPrincipal :=
        List.mem_filter.mpr ⟨member, chosen⟩
      rw [only, List.mem_singleton] at same
      rw [same]
      simpa using inner
  · exact leaves_error some

end Tree

/-! ## Leaves in navigation -/

namespace Node

open Tree (IsFitted EverywhereAmong laidOut leavesAmong extentOf_leaves laidOut_append)

variable {tree : Tree} {node leaf : Node}

mutual

/-- The leaves of a tree at its place. -/
def leavesBelow (trail : List Nat) (start : Extent) : Tree → List Node
  | .node info children =>
    if children.isEmpty then [⟨.node info children, start, trail⟩]
    else leavesFrom trail 0 start children

/-- The leaves on a list of edges, numbered and placed as in `placedFrom`. -/
def leavesFrom (trail : List Nat) (index : Nat) (place : Extent) : List (Edge Tree) → List Node
  | [] => []
  | ⟨_, child⟩ :: rest =>
    let start := startOf index place child
    leavesBelow (index :: trail) start child ++
      leavesFrom trail (index + 1) (start + child.info.size) rest

end

/-- The leaves at and below a node in order, hidden ones too. -/
def leaves (node : Node) : List Node := leavesBelow node.trail node.start node.tree

mutual

theorem liesIn_leavesBelow (node : Node) (lies : node.LiesIn tree) :
    (inner : Tree) → inner = node.tree →
      ∀ leaf ∈ leavesBelow node.trail node.start inner,
        leaf.LiesIn tree ∧ leaf.tree.children = []
  | .node info children, same => by
    have onward := onward_start node
    rw [← same] at onward
    rw [leavesBelow]
    split
    · rename_i childless
      intro leaf member
      rw [List.mem_singleton.mp member, same]
      exact ⟨lies, by rw [← same]; exact List.isEmpty_iff.mp childless⟩
    · exact liesIn_leavesFrom node 0 node.start lies children onward

theorem liesIn_leavesFrom (node : Node) (index : Nat) (place : Extent) (lies : node.LiesIn tree) :
    (edges : List (Edge Tree)) → node.Onward index place edges →
      ∀ leaf ∈ leavesFrom node.trail index place edges,
        leaf.LiesIn tree ∧ leaf.tree.children = []
  | [], _ => by simp [leavesFrom]
  | ⟨own, child⟩ :: rest, onward => by
    have here := lies.here onward
    rw [leavesFrom]
    refine List.forall_mem_append.mpr ⟨?_, ?_⟩
    · exact liesIn_leavesBelow ⟨child, startOf index place child, index :: node.trail⟩ here child
        rfl
    · exact liesIn_leavesFrom node (index + 1) (startOf index place child + child.info.size) lies
        rest onward.next

end

theorem mem_leavesFrom_of_placedAt {trail : List Nat} {index number : Nat} {place : Extent}
    {edges : List (Edge Tree)} (placed : placedAt trail index place number edges = some node)
    (member : leaf ∈ node.leaves) : leaf ∈ leavesFrom trail index place edges := by
  induction edges generalizing index number place with
  | nil => simp [placedAt] at placed
  | cons edge rest ih =>
      rw [leavesFrom, List.mem_append]
      cases number with
      | zero =>
          simp only [placedAt, Option.some.injEq] at placed
          rw [← placed] at member
          exact Or.inl member
      | succ number => exact Or.inr (ih placed)

theorem mem_leaves_of_follow {path : List Nat} (followed : node.follow path = some leaf)
    (childless : leaf.tree.children = []) : leaf ∈ node.leaves := by
  induction path generalizing node with
  | nil =>
      simp only [follow, Option.some.injEq] at followed
      subst followed
      rcases node with ⟨⟨info, children⟩, start, trail⟩
      obtain rfl : children = [] := childless
      rw [leaves, leavesBelow, List.isEmpty_nil, if_pos rfl]
      exact List.mem_singleton_self _
  | cons number rest ih =>
      rcases follow_cons_iff.mp followed with ⟨child, placed, onward⟩
      have inside := mem_leavesFrom_of_placedAt placed (ih onward)
      rcases node with ⟨⟨info, children⟩, start, trail⟩
      rw [leaves, leavesBelow]
      split
      · rename_i empty
        rw [placed?, Tree.children_node, List.isEmpty_iff.mp empty] at placed
        simp [placedAt] at placed
      · exact inside

/-- The leaves of the root are the nodes without children that lie in the tree. -/
theorem mem_leaves_root : leaf ∈ (root tree).leaves ↔ leaf.LiesIn tree ∧ leaf.tree.children = [] := by
  constructor
  · exact liesIn_leavesBelow (root tree) (liesIn_root tree) tree rfl leaf
  · rintro ⟨lies, childless⟩
    exact mem_leaves_of_follow lies childless

mutual

/-- Where the leaves of a fitted tree stand: end to end, each behind its own padding. -/
theorem spans_leavesBelow (trail : List Nat) (base : Extent) : (tree : Tree) → tree.Fitted →
    (leavesBelow trail (base + tree.info.padding) tree).map (fun leaf => (leaf.tree, leaf.span)) =
      laidOut base tree.leaves
  | .node info children, fitted => by
    rcases Tree.everywhere_node.mp fitted with ⟨here, among⟩
    rw [leavesBelow, Tree.leaves]
    split
    · rw [laidOut, List.map_singleton, span, stop]
      have stop : base + info.padding + info.size = base + info.total := by
        rw [Extent.append_assoc]
        rfl
      exact congrArg (fun stop => [(_, Span.mk _ stop)]) stop
    · rename_i some
      have padding := (here (by simpa using some)).1
      cases children with
      | nil => simp at some
      | cons edge rest =>
          rcases edge with ⟨field, first⟩
          rcases Tree.everywhereAmong_cons.mp among with ⟨inside, later⟩
          have start : startOf 0 (base + info.padding) first = base + first.info.padding := by
            rw [padding]
            rfl
          have behind : base + first.info.padding + first.info.size = base + first.total := by
            rw [Extent.append_assoc]
            rfl
          rw [leavesFrom, Tree.info_node, start, behind, List.map_append, leavesAmong,
            laidOut_append, extentOf_leaves first inside, spans_leavesBelow _ base first inside,
            spans_leavesFrom trail 0 _ rest later]

theorem spans_leavesFrom (trail : List Nat) (index : Nat) (place : Extent) :
    (edges : List (Edge Tree)) → EverywhereAmong IsFitted edges →
    (leavesFrom trail (index + 1) place edges).map (fun leaf => (leaf.tree, leaf.span)) =
      laidOut place (leavesAmong edges)
  | [], _ => rfl
  | ⟨field, child⟩ :: rest, fitted => by
    rcases Tree.everywhereAmong_cons.mp fitted with ⟨here, later⟩
    have start : startOf (index + 1) place child = place + child.info.padding := rfl
    have behind : place + child.info.padding + child.info.size = place + child.total := by
      rw [Extent.append_assoc]
      rfl
    rw [leavesFrom, start, behind, List.map_append, leavesAmong, laidOut_append,
      extentOf_leaves child here, spans_leavesBelow _ place child here,
      spans_leavesFrom trail (index + 1) _ rest later]

end

/-- Navigation comes to the leaves of a fitted tree end to end, each behind its own padding. -/
theorem spans_leaves (fitted : tree.Fitted) :
    (root tree).leaves.map (fun leaf => (leaf.tree, leaf.span)) =
      laidOut Extent.zero tree.leaves := by
  have spans := spans_leavesBelow [] Extent.zero tree fitted
  rwa [Extent.zero_append] at spans

end Node

end Reparse
