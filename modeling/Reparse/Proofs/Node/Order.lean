import Reparse.Proofs.Node.Place
import Reparse.Proofs.Node.Walk

/-!
# Nodes in document order

In a tree that is laid out a node lies within every node around it, and the visible children of a
node lie one behind the other. So a cursor moves onward: down to a node that does not start before
the one it leaves, and sideways to one that starts behind it.
-/

namespace Reparse

namespace Node

open Reparse.Tree (IsLaid EverywhereAmong everywhereAmong_cons widthOf)

variable {tree : Tree} {node parent found : Node} {trail : List Nat} {number base index : Nat}
  {place : Extent} {field : Nat} {child : Tree} {edges rest : List (Edge Tree)}

theorem bytes_stop (node : Node) : node.stop.bytes = node.start.bytes + node.info.size.bytes := by
  simp [stop]

/-! ## Children within their parent -/

/-- The subtree is laid out, and there is room for its padding before it starts. -/
structure Stands (node : Node) : Prop where
  laid : node.tree.Laid
  fits : node.info.padding.bytes ≤ node.start.bytes

theorem LiesIn.stands (laid : tree.Laid) (lies : node.LiesIn tree) : node.Stands := by
  rcases at_of_resolve laid lies with ⟨offset, at_, start⟩
  constructor
  · exact at_.everywhere laid
  · omega

theorem le_startOf (index : Nat) (place : Extent) (child : Tree) :
    place.bytes ≤ (startOf index place child).bytes := by
  unfold startOf
  split
  · exact Nat.le_refl _
  · simp

/-- The first child ends where the content behind it begins. -/
theorem Follows.stop (follows : Follows base index place (⟨field, child⟩ :: rest)) :
    (startOf index place child + child.info.size).bytes = base + child.total.bytes := by
  have next := follows.next
  simpa [Follows] using next

/-- The children of a node that stands where it does fill its content. -/
theorem Stands.follows (stands : node.Stands) (some : node.tree.children ≠ []) :
    ∃ base, Follows base 0 node.start node.tree.children ∧
      base + widthOf node.tree.children = node.stop.bytes := by
  obtain ⟨base, start⟩ := Nat.exists_eq_add_of_le' stands.fits
  refine ⟨base, (follows_start stands.laid start).resolve_right some, ?_⟩
  rcases node with ⟨⟨info, children⟩, place, trail⟩
  have total := ((Tree.everywhere_node.mp stands.laid).1 some).2
  simp only [Info.total, Extent.bytes_add] at total
  simp only [bytes_stop, Node.info, Tree.info_node, Tree.children_node] at start ⊢
  omega

theorem le_start_of_placedAt (placed : placedAt trail index place number edges = some node) :
    place.bytes ≤ node.start.bytes := by
  induction edges generalizing index number place with
  | nil => simp [placedAt] at placed
  | cons edge rest ih =>
      rcases edge with ⟨field, child⟩
      have first := le_startOf index place child
      cases number with
      | zero =>
          simp only [placedAt, Option.some.injEq] at placed
          exact placed ▸ first
      | succ number =>
          have later := ih placed
          rw [Extent.bytes_add] at later
          omega

theorem stop_le_of_placedAt (follows : Follows base index place edges)
    (placed : placedAt trail index place number edges = some node) :
    node.stop.bytes ≤ base + widthOf edges := by
  induction edges generalizing base index number place with
  | nil => simp [placedAt] at placed
  | cons edge rest ih =>
      rcases edge with ⟨field, child⟩
      have stop := follows.stop
      rw [Tree.widthOf_cons]
      cases number with
      | zero =>
          simp only [placedAt, Option.some.injEq] at placed
          subst placed
          rw [Extent.bytes_add] at stop
          simp only [bytes_stop, Node.info]
          omega
      | succ number =>
          have later := ih follows.next placed
          omega

/-- A child lies within its parent. -/
theorem Stands.within (stands : parent.Stands) (placed : parent.placed? number = some node) :
    parent.start.bytes ≤ node.start.bytes ∧ node.stop.bytes ≤ parent.stop.bytes := by
  have some : parent.tree.children ≠ [] := by
    intro empty
    simp [placed?, placedAt, empty] at placed
  rcases stands.follows some with ⟨base, follows, stop⟩
  exact ⟨le_start_of_placedAt placed, stop ▸ stop_le_of_placedAt follows placed⟩

/-- In a tree that is laid out a node lies within every node around it. -/
theorem LiesIn.within_of_follow (laid : tree.Laid) (lies : node.LiesIn tree) {path : List Nat}
    (followed : node.follow path = some found) :
    node.start.bytes ≤ found.start.bytes ∧ found.stop.bytes ≤ node.stop.bytes := by
  induction path generalizing node with
  | nil =>
      simp only [Node.follow, Option.some.injEq] at followed
      subst followed
      exact ⟨Nat.le_refl _, Nat.le_refl _⟩
  | cons number rest ih =>
      rcases follow_cons_iff.mp followed with ⟨child, placed, onward⟩
      have outer := (lies.stands laid).within placed
      have inner := ih (lies.placed placed) onward
      exact ⟨Nat.le_trans outer.1 inner.1, Nat.le_trans inner.2 outer.2⟩

/-- A later child starts behind the end of the first one. -/
theorem Onward.le_start (onward : node.Onward index place (⟨field, child⟩ :: rest))
    (later : index < number) (placed : node.placed? number = some found) :
    (startOf index place child + child.info.size).bytes ≤ found.start.bytes := by
  have step := onward.next (number - (index + 1))
  rw [show index + 1 + (number - (index + 1)) = number by omega, placed] at step
  exact le_start_of_placedAt step

/-! ## Visible children -/

/-- Nodes one behind the other between two places. -/
structure InOrder (first last : Nat) (shown : List Child) : Prop where
  within : ∀ child ∈ shown, first ≤ child.node.start.bytes ∧ child.node.stop.bytes ≤ last
  apart : shown.Pairwise fun left right => left.node.stop.bytes ≤ right.node.start.bytes

variable {first middle last : Nat} {left right : List Child}

theorem inOrder_nil : InOrder first last [] := ⟨by simp, .nil⟩

theorem InOrder.append (before : InOrder first middle left) (after : InOrder middle last right)
    (lower : first ≤ middle) (upper : middle ≤ last) : InOrder first last (left ++ right) := by
  constructor
  · intro child member
    rcases List.mem_append.mp member with here | there
    · have := before.within child here
      omega
    · have := after.within child there
      omega
  · refine List.pairwise_append.mpr ⟨before.apart, after.apart, ?_⟩
    intro one here other there
    exact Nat.le_trans (before.within one here).2 (after.within other there).1

theorem InOrder.mono (order : InOrder middle last left) (lower : first ≤ middle) :
    InOrder first last left where
  within child member := by
    have := order.within child member
    omega
  apart := order.apart

theorem inOrder_singleton (node : Node) (field : Nat) :
    InOrder node.start.bytes node.stop.bytes [⟨node, field⟩] where
  within := by simp
  apart := List.pairwise_singleton _ _

mutual

theorem inOrder_shownBelow (node : Node) (inherited : Nat) (stands : node.Stands) :
    (inner : Tree) → inner = node.tree →
      InOrder node.start.bytes node.stop.bytes
        (shownBelow node.trail node.start inherited inner)
  | .node info children, same => by
    rw [shownBelow]
    by_cases empty : children = []
    · rw [empty, shownFrom]
      exact inOrder_nil
    · have some : node.tree.children ≠ [] := by
        rw [← same]
        exact empty
      rcases stands.follows some with ⟨base, follows, stop⟩
      have laid := stands.laid
      rw [← same] at follows stop laid
      rw [← stop]
      exact inOrder_shownFrom base node.trail 0 node.start inherited children follows laid.children

theorem inOrder_shownFrom (base : Nat) (trail : List Nat) (index : Nat) (place : Extent) (inherited : Nat) :
    (children : List (Edge Tree)) → Follows base index place children →
      EverywhereAmong IsLaid children →
      InOrder place.bytes (base + widthOf children) (shownFrom trail index place inherited children)
  | [], _, _ => by
    rw [shownFrom]
    exact inOrder_nil
  | ⟨own, child⟩ :: rest, follows, laid => by
    rcases everywhereAmong_cons.mp laid with ⟨here, behind⟩
    let entered : Node := ⟨child, startOf index place child, index :: trail⟩
    have first : place.bytes ≤ entered.start.bytes := le_startOf index place child
    have inside : entered.start.bytes ≤ entered.stop.bytes := by simp [bytes_stop]
    have stop : entered.stop.bytes = base + child.total.bytes := follows.stop
    have stands : entered.Stands := ⟨here, by
      have start := bytes_startOf follows
      simp only [entered, Node.info]
      omega⟩
    have later (inherited : Nat) : InOrder entered.stop.bytes
        (base + widthOf (⟨own, child⟩ :: rest)) (shownFrom trail (index + 1)
          (startOf index place child + child.info.size) inherited rest) := by
      rw [Tree.widthOf_cons, ← Nat.add_assoc]
      exact inOrder_shownFrom _ trail (index + 1) _ inherited rest follows.next behind
    have last : entered.stop.bytes ≤ base + widthOf (⟨own, child⟩ :: rest) := by
      rw [Tree.widthOf_cons]
      omega
    rw [shownFrom]
    split
    · have one := inOrder_singleton entered
      exact (((one _).append (later _) inside last).mono first)
    · split
      · have below := inOrder_shownBelow entered
        exact ((below _ stands child rfl).append (later _) inside last).mono first
      · exact (later _).mono (Nat.le_trans first inside)

end

/-- The visible children of a node lie one behind the other within it. -/
theorem Stands.children (stands : node.Stands) :
    InOrder node.start.bytes node.stop.bytes node.children := by
  have order := inOrder_shownBelow node 0 stands node.tree rfl
  rcases node with ⟨⟨info, children⟩, place, trail⟩
  rwa [shownBelow] at order

/-- The siblings after a node start behind it. -/
theorem le_start_of_siblings {before after : List Child} (laid : tree.Laid)
    (lies : node.LiesIn tree) (found : node.siblings? (root tree) = some (before, after)) :
    ∀ sibling ∈ after, node.stop.bytes ≤ sibling.node.start.bytes := by
  unfold siblings? at found
  split at found
  · cases found
  · rename_i parent around
    have above := liesIn_of_parent around
    have order := (above.stands laid).children
    rw [List.span_eq_takeWhile_dropWhile] at found
    split at found
    · rename_i front here behind split
      simp only [Prod.mk.injEq] at split
      simp only [Option.some.injEq, Prod.mk.injEq] at found
      rcases found with ⟨rfl, rfl⟩
      have suffix : (here :: behind).Sublist parent.children := by
        rw [← split.2]
        exact List.dropWhile_sublist _
      have same : here.node = node := by
        have lying := above.children here (suffix.subset List.mem_cons_self)
        have trail : here.node.trail = node.trail := by
          have := List.head?_dropWhile_not
            (fun sibling : Child => sibling.node.trail != node.trail) parent.children
          rw [split.2] at this
          simpa using this
        unfold LiesIn at lying lies
        rw [trail, lies] at lying
        exact (Option.some.inj lying).symm
      intro sibling member
      rw [← same]
      exact (List.pairwise_cons.mp (order.apart.sublist suffix)).1 sibling member
    · cases found

end Node

namespace Cursor

variable {tree : Tree} {cursor reached : Cursor} {node parent found : Node} {around : List Node}
  {index : Nat} {place : Extent}

/-! ## Moves of a cursor -/

theorem IsChild.within (stands : parent.Stands) (child : IsChild parent node) :
    parent.start.bytes ≤ node.start.bytes ∧ node.stop.bytes ≤ parent.stop.bytes :=
  stands.within child

theorem le_start_of_firstReachable {trail : List Nat} {edges : List (Edge Tree)}
    (reachable : firstReachable trail index place edges = some found) :
    place.bytes ≤ found.start.bytes := by
  induction edges generalizing index place with
  | nil => simp [firstReachable] at reachable
  | cons edge rest ih =>
      have first := Node.le_startOf index place edge.tree
      rw [firstReachable] at reachable
      split at reachable
      · rw [Option.some.injEq] at reachable
        exact reachable ▸ first
      · have later := ih reachable
        rw [Extent.bytes_add] at later
        omega

mutual

theorem le_start_enterFirst (cursor : Cursor) (inner : Tree) :
    cursor.node.start.bytes ≤ (enterFirst cursor inner).2.node.start.bytes := by
  cases inner with
  | node info children =>
      rw [enterFirst]
      exact le_start_enterFirstAmong cursor 0 cursor.node.start children (Nat.le_refl _)

theorem le_start_enterFirstAmong (cursor : Cursor) (index : Nat) (place : Extent)
    (children : List (Edge Tree)) (onward : cursor.node.start.bytes ≤ place.bytes) :
    cursor.node.start.bytes ≤ (enterFirstAmong cursor index place children).2.node.start.bytes := by
  cases children with
  | nil => simp [enterFirstAmong]
  | cons edge rest =>
      rcases edge with ⟨field, child⟩
      have first := Node.le_startOf index place child
      rw [enterFirstAmong]
      split
      · exact Nat.le_trans onward first
      · split
        · have below := le_start_enterFirst
            (cursor.push ⟨child, Node.startOf index place child, index :: cursor.node.trail⟩) child
          exact Nat.le_trans (Nat.le_trans onward first) below
        · apply le_start_enterFirstAmong
          rw [Extent.bytes_add]
          omega

end

/-- Going down does not lead back. -/
theorem le_start_firstChild (cursor : Cursor) :
    cursor.node.start.bytes ≤ cursor.firstChild.2.node.start.bytes :=
  le_start_enterFirst cursor cursor.node.tree

theorem Chained.stands (laid : tree.Laid) (chained : Chained tree node around) : node.Stands :=
  chained.liesIn.stands laid

theorem le_start_of_sideways (laid : tree.Laid) (chained : Chained tree node around)
    (search : sideways reachableAfter node around = some reached) :
    node.stop.bytes ≤ reached.node.start.bytes := by
  induction around generalizing node with
  | nil => simp [sideways] at search
  | cons parent rest ih =>
      rw [sideways] at search
      split at search
      · rename_i found reachable
        rw [Option.some.injEq] at search
        rw [← search]
        exact le_start_of_firstReachable reachable
      · split at search
        · cases search
        · have within := IsChild.within (Chained.stands laid chained.2) chained.1
          exact Nat.le_trans within.2 (ih chained.2 search)

/-- A later sibling starts behind the node. -/
theorem le_start_of_nextSibling (laid : tree.Laid) (lies : cursor.LiesIn tree)
    (moved : cursor.nextSibling = (true, reached)) :
    cursor.node.stop.bytes ≤ reached.node.start.bytes := by
  unfold nextSibling at moved
  split at moved
  · simp at moved
  · rename_i found search
    have beside := le_start_of_sideways laid lies search
    split at moved
    · simp only [Prod.mk.injEq, true_and] at moved
      exact moved ▸ beside
    · simp only [Prod.mk.injEq, true_and] at moved
      rw [← moved]
      exact Nat.le_trans beside (le_start_firstChild found)

theorem le_stop_of_climb (laid : tree.Laid) (chained : Chained tree parent around)
    (climbed : climb (parent :: around) = some reached) :
    parent.stop.bytes ≤ reached.node.stop.bytes := by
  induction around generalizing parent with
  | nil =>
      simp only [climb, Option.some.injEq] at climbed
      exact climbed ▸ Nat.le_refl _
  | cons next rest ih =>
      rw [climb] at climbed
      · split at climbed
        · rw [Option.some.injEq] at climbed
          exact climbed ▸ Nat.le_refl _
        · have within := IsChild.within (Chained.stands laid chained.2) chained.1
          exact Nat.le_trans within.2 (ih chained.2 climbed)
      · simp

/-- A node ends where the node does that it was climbed to from, or behind it. -/
theorem le_stop_of_parent (laid : tree.Laid) (lies : cursor.LiesIn tree)
    (moved : cursor.parent = (true, reached)) :
    cursor.node.stop.bytes ≤ reached.node.stop.bytes := by
  rcases cursor with ⟨node, around⟩
  unfold Cursor.parent at moved
  split at moved
  · simp at moved
  · rename_i found climbed
    simp only [Prod.mk.injEq, true_and] at moved
    cases around with
    | nil => simp [climb] at climbed
    | cons parent rest =>
        have chained : Chained tree node (parent :: rest) := lies
        have within := IsChild.within (Chained.stands laid chained.2) chained.1
        rw [← moved]
        exact Nat.le_trans within.2 (le_stop_of_climb laid chained.2 climbed)

end Cursor

end Reparse
