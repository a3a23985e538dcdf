import Mathlib.Data.List.TakeDrop
import Reparse.Node.Cursor
import Reparse.Proofs.Tree.Families
import Reparse.Proofs.Tree.Shape

/-!
# Nodes that lie in a tree

A node lies in a tree if its trail resolves to it there (`Node.LiesIn`). Whatever navigation finds
from a node that lies in a tree lies in the tree as well, and so do all nodes that a cursor keeps.
-/

namespace Reparse

namespace Node

/-- The trail of the node resolves to it: it is up to date. -/
def LiesIn (tree : Tree) (node : Node) : Prop := resolve tree node.trail = some node

variable {tree : Tree} {node below : Node} {trail path : List Nat} {index number : Nat}
  {place : Extent} {field inherited : Nat} {child : Tree} {edges rest : List (Edge Tree)}

theorem liesIn_root (tree : Tree) : (root tree).LiesIn tree := rfl

theorem trail_of_placedAt (placed : placedAt trail index place number edges = some node) :
    node.trail = (index + number) :: trail := by
  induction edges generalizing index number place with
  | nil => simp [placedAt] at placed
  | cons edge rest ih =>
      cases number with
      | zero =>
          simp only [placedAt, Option.some.injEq] at placed
          rw [← placed]
          rfl
      | succ number =>
          rw [ih placed]
          congr 1
          omega

theorem follow_cons_iff : node.follow (number :: path) = some below ↔
    ∃ child, node.placed? number = some child ∧ child.follow path = some below := by
  rw [follow]
  cases node.placed? number <;> simp

theorem trail_of_follow (followed : node.follow path = some below) :
    below.trail = path.reverse ++ node.trail := by
  induction path generalizing node with
  | nil =>
      simp only [follow, Option.some.injEq] at followed
      rw [← followed]
      rfl
  | cons number rest ih =>
      rcases follow_cons_iff.mp followed with ⟨child, placed, onward⟩
      rw [ih onward, trail_of_placedAt placed]
      simp

/-- What all children of trees of a family have is handed on to a child. -/
theorem tree_in_of_placedAt {family : Tree → Prop} (among : Tree.Among family edges)
    (placed : placedAt trail index place number edges = some node) : family node.tree := by
  induction edges generalizing index place number with
  | nil => simp [placedAt] at placed
  | cons edge rest ih =>
      rcases Tree.among_cons.mp among with ⟨here, behind⟩
      cases number with
      | zero =>
          simp only [placedAt, Option.some.injEq] at placed
          exact placed ▸ here
      | succ number => exact ih behind placed

theorem tree_in_of_follow {family : Tree → Prop}
    (inherits : ∀ tree, family tree → Tree.Among family tree.children) (member : family node.tree)
    (followed : node.follow path = some below) : family below.tree := by
  induction path generalizing node with
  | nil =>
      simp only [follow, Option.some.injEq] at followed
      exact followed ▸ member
  | cons number rest ih =>
      rcases follow_cons_iff.mp followed with ⟨child, placed, onward⟩
      exact ih (tree_in_of_placedAt (inherits _ member) placed) onward

/-- The subtrees of nodes that lie in a tree of a family are in it, if children of its trees are. -/
theorem LiesIn.tree_in {family : Tree → Prop} (lies : node.LiesIn tree)
    (inherits : ∀ tree, family tree → Tree.Among family tree.children) (member : family tree) :
    family node.tree :=
  tree_in_of_follow inherits member lies

/-- What a trail resolves to lies in the tree. -/
theorem liesIn_of_resolve (resolved : resolve tree trail = some node) : node.LiesIn tree := by
  have same := trail_of_follow resolved
  rw [LiesIn, same]
  simpa [root] using resolved

theorem follow_append (node : Node) (path more : List Nat) :
    node.follow (path ++ more) = (node.follow path).bind fun below => below.follow more := by
  induction path generalizing node with
  | nil => rfl
  | cons number rest ih =>
      simp only [List.cons_append, follow]
      cases node.placed? number with
      | none => rfl
      | some child => exact ih child

theorem LiesIn.placed (lies : node.LiesIn tree) (placed : node.placed? number = some below) :
    below.LiesIn tree := by
  have trail : below.trail = number :: node.trail := by
    rw [trail_of_placedAt placed, Nat.zero_add]
  rw [LiesIn, resolve, trail, List.reverse_cons, follow_append]
  rw [LiesIn, resolve] at lies
  simp [lies, follow, placed]

theorem LiesIn.follow (lies : node.LiesIn tree) (followed : node.follow path = some below) :
    below.LiesIn tree := by
  induction path generalizing node with
  | nil =>
      simp only [Node.follow, Option.some.injEq] at followed
      exact followed ▸ lies
  | cons number rest ih =>
      rcases follow_cons_iff.mp followed with ⟨child, placed, onward⟩
      exact ih (lies.placed placed) onward

/-- A node that lies in a tree is the root or a child of one that lies in it. -/
theorem LiesIn.exists_parent (lies : node.LiesIn tree) (inner : node.trail = number :: trail) :
    ∃ parent : Node, parent.LiesIn tree ∧ parent.trail = trail ∧ parent.placed? number = some node := by
  have split := lies
  rw [LiesIn, resolve, inner, List.reverse_cons, follow_append] at split
  rcases Option.bind_eq_some_iff.mp split with ⟨parent, followed, last⟩
  refine ⟨parent, (liesIn_root tree).follow followed, ?_, ?_⟩
  · simpa [root] using trail_of_follow followed
  · rcases follow_cons_iff.mp last with ⟨child, placed, same⟩
    exact placed.trans same

/-! ## Children one after the other -/

/-- The edges are those of the children of a node from number `index` on, and the content before them
ends at `place`. -/
def Onward (node : Node) (index : Nat) (place : Extent) (edges : List (Edge Tree)) : Prop :=
  ∀ number, placedAt node.trail index place number edges = node.placed? (index + number)

theorem onward_start (node : Node) : node.Onward 0 node.start node.tree.children := by
  intro number
  rw [Nat.zero_add]
  rfl

/-- The first of the edges leads to a child. -/
theorem Onward.here (onward : node.Onward index place (⟨field, child⟩ :: rest)) :
    node.placed? index = some ⟨child, startOf index place child, index :: node.trail⟩ := by
  have first := onward 0
  rw [Nat.add_zero] at first
  exact first.symm

theorem Onward.next (onward : node.Onward index place (⟨field, child⟩ :: rest)) :
    node.Onward (index + 1) (startOf index place child + child.info.size) rest := by
  intro number
  have later := onward (number + 1)
  rw [← Nat.add_assoc, Nat.add_right_comm] at later
  exact later

theorem LiesIn.here (lies : node.LiesIn tree)
    (onward : node.Onward index place (⟨field, child⟩ :: rest)) :
    (⟨child, startOf index place child, index :: node.trail⟩ : Node).LiesIn tree :=
  lies.placed onward.here

mutual

theorem LiesIn.shownBelow (node : Node) (inherited : Nat) (lies : node.LiesIn tree) :
    (inner : Tree) → inner = node.tree →
      ∀ child ∈ shownBelow node.trail node.start inherited inner, child.node.LiesIn tree
  | .node info children, same => by
    have onward := onward_start node
    rw [← same] at onward
    rw [Node.shownBelow]
    exact LiesIn.shownFrom node 0 node.start inherited lies children onward

theorem LiesIn.shownFrom (node : Node) (index : Nat) (place : Extent) (inherited : Nat)
    (lies : node.LiesIn tree) :
    (edges : List (Edge Tree)) → node.Onward index place edges →
      ∀ child ∈ shownFrom node.trail index place inherited edges, child.node.LiesIn tree
  | [], _ => by simp [Node.shownFrom]
  | ⟨own, child⟩ :: rest, onward => by
    have here := lies.here onward
    have later (inherited : Nat) := LiesIn.shownFrom node (index + 1)
      (startOf index place child + child.info.size) inherited lies rest onward.next
    rw [Node.shownFrom]
    split
    · exact List.forall_mem_cons.mpr ⟨here, later _⟩
    · split
      · intro found member
        rcases List.mem_append.mp member with below | after
        · exact LiesIn.shownBelow ⟨child, startOf index place child, index :: node.trail⟩ _ here
            child rfl found below
        · exact later _ found after
      · exact later _

end

/-! ## Navigation -/

theorem LiesIn.children (lies : node.LiesIn tree) :
    ∀ child ∈ node.children, child.node.LiesIn tree :=
  LiesIn.shownFrom node 0 node.start 0 lies node.tree.children node.onward_start

theorem LiesIn.child? (lies : node.LiesIn tree) {namedOnly : Bool} {found : Child}
    (at_ : node.child? number namedOnly = some found) : found.node.LiesIn tree :=
  lies.children found (List.mem_filter.mp (List.mem_of_getElem? at_)).1

theorem LiesIn.childInField (lies : node.LiesIn tree)
    (found : node.childInField? field = some below) : below.LiesIn tree := by
  unfold childInField? at found
  split at found
  · cases found
  · rw [Option.map_eq_some_iff] at found
    rcases found with ⟨child, search, rfl⟩
    exact lies.children child (List.mem_of_find?_eq_some search)

theorem LiesIn.nearestVisible {nearest : Node} (liesNearest : nearest.LiesIn tree)
    (lies : node.LiesIn tree) (found : nearestVisible nearest node path = some below) :
    below.LiesIn tree := by
  induction path generalizing nearest node with
  | nil =>
      simp only [Node.nearestVisible, Option.some.injEq] at found
      exact found ▸ liesNearest
  | cons number rest ih =>
      simp only [Node.nearestVisible] at found
      split at found
      · cases found
      · rename_i child placed
        have inner := lies.placed placed
        refine ih ?_ inner found
        split
        · exact inner
        · exact liesNearest

theorem liesIn_of_parent (found : node.parent? (root tree) = some below) : below.LiesIn tree := by
  unfold parent? at found
  split at found
  · cases found
  · exact (liesIn_root tree).nearestVisible (liesIn_root tree) found

theorem liesIn_of_siblings {before after : List Child}
    (found : node.siblings? (root tree) = some (before, after)) :
    (∀ child ∈ before, child.node.LiesIn tree) ∧ ∀ child ∈ after, child.node.LiesIn tree := by
  unfold siblings? at found
  split at found
  · cases found
  · rename_i parent at_
    have children := (liesIn_of_parent at_).children
    rw [List.span_eq_takeWhile_dropWhile] at found
    split at found
    · rename_i front here behind split
      simp only [Prod.mk.injEq] at split
      simp only [Option.some.injEq, Prod.mk.injEq] at found
      rcases found with ⟨rfl, rfl⟩
      constructor
      · intro child member
        rw [← split.1] at member
        exact children child (List.takeWhile_subset _ member)
      · intro child member
        have inner : child ∈ parent.children.dropWhile
            fun sibling => sibling.node.trail != node.trail := by
          rw [split.2]
          exact List.mem_cons_of_mem _ member
        exact children child ((List.dropWhile_sublist _).subset inner)
    · cases found

theorem liesIn_of_next {namedOnly : Bool} (found : node.next? (root tree) namedOnly = some below) :
    below.LiesIn tree := by
  unfold next? at found
  split at found
  · cases found
  · rename_i before after beside
    rw [Option.map_eq_some_iff] at found
    rcases found with ⟨child, search, rfl⟩
    exact (liesIn_of_siblings beside).2 child (List.mem_of_find?_eq_some search)

theorem liesIn_of_previous {namedOnly : Bool}
    (found : node.previous? (root tree) namedOnly = some below) : below.LiesIn tree := by
  unfold previous? at found
  split at found
  · cases found
  · rename_i before after beside
    rw [Option.map_eq_some_iff] at found
    rcases found with ⟨child, search, rfl⟩
    exact (liesIn_of_siblings beside).1 child
      (List.mem_reverse.mp (List.mem_of_find?_eq_some search))

section Smallest

variable {first stop : Nat} {anonymous : Bool}

mutual

theorem LiesIn.smallestBelow (best node : Node) (liesBest : best.LiesIn tree)
    (lies : node.LiesIn tree) : (inner : Tree) → inner = node.tree →
      (smallestBelow first stop anonymous best node.trail node.start inner).LiesIn tree
  | .node info children, same => by
    have onward := onward_start node
    rw [← same] at onward
    rw [Node.smallestBelow]
    exact LiesIn.smallestAmong best node 0 node.start liesBest lies children onward

theorem LiesIn.smallestAmong (best node : Node) (index : Nat) (place : Extent)
    (liesBest : best.LiesIn tree) (lies : node.LiesIn tree) :
    (edges : List (Edge Tree)) → node.Onward index place edges →
      (smallestAmong first stop anonymous best node.trail index place edges).LiesIn tree
  | [], _ => by
    rw [Node.smallestAmong]
    exact liesBest
  | ⟨_, child⟩ :: rest, onward => by
    rw [Node.smallestAmong]
    dsimp only
    split
    · exact LiesIn.smallestAmong best node (index + 1)
        (startOf index place child + child.info.size) liesBest lies rest onward.next
    · split
      · exact liesBest
      · have here := lies.here onward
        refine LiesIn.smallestBelow _ ⟨child, startOf index place child, index :: node.trail⟩ ?_
          here child rfl
        split
        · exact here
        · exact liesBest

end

theorem LiesIn.smallest (lies : node.LiesIn tree)
    (found : node.smallest? first stop anonymous = some below) : below.LiesIn tree := by
  unfold smallest? at found
  split at found
  · rw [Option.some.injEq] at found
    rw [← found]
    exact LiesIn.smallestBelow node node lies lies node.tree rfl
  · cases found

end Smallest

/-! ## Trees of one shape -/

theorem isSome_placedAt_of_shape {children others : List (Edge Tree)} {again : List Nat}
    {elsewhere : Extent} (same : Tree.shapeAll children = Tree.shapeAll others)
    (placed : placedAt trail index place number children = some node) :
    ∃ other, placedAt again index elsewhere number others = some other ∧
      node.tree.shape = other.tree.shape := by
  induction children generalizing others index place elsewhere number with
  | nil => simp [placedAt] at placed
  | cons edge rest ih =>
      cases others with
      | nil => simp at same
      | cons other further =>
          simp only [Tree.shapeAll_cons, List.cons.injEq, Edge.mk.injEq] at same
          cases number with
          | zero =>
              simp only [placedAt, Option.some.injEq] at placed
              subst placed
              exact ⟨_, rfl, same.1.2⟩
          | succ number =>
              simp only [placedAt] at placed ⊢
              exact ih same.2 placed

theorem isSome_follow_of_shape {other : Node} (same : node.tree.shape = other.tree.shape)
    (followed : node.follow path = some below) : (other.follow path).isSome = true := by
  induction path generalizing node other with
  | nil => rfl
  | cons number rest ih =>
      rcases follow_cons_iff.mp followed with ⟨child, placed, onward⟩
      have alike := congrArg Tree.children same
      simp only [Tree.children_shape] at alike
      rcases isSome_placedAt_of_shape alike placed with ⟨again, found, sameChild⟩
      have found : other.placed? number = some again := found
      rw [follow, found]
      exact ih sameChild onward

/-- A trail that leads to a node in one tree leads to one in every tree of its shape. -/
theorem exists_resolve_of_shape {other : Tree} (same : tree.shape = other.shape)
    (resolved : resolve tree trail = some node) : ∃ again, resolve other trail = some again := by
  have some : (resolve other trail).isSome = true := isSome_follow_of_shape same resolved
  exact Option.isSome_iff_exists.mp some

end Node

end Reparse
