import Reparse.Proofs.Query.Enumeration
import Reparse.Proofs.Query.Formation

/-!
# Matches stay in bounds

A run never leaves the node it was started on: the nodes that its cursor keeps are this node and
nodes below it (`Cursor.StaysBelow`), and so are the siblings found beside a node further in, whose
parent is not above a visible node around it (`Node.Contains.siblings?`). Together with the form of
compiled queries this bounds what a match can hold: its captures have names in the query, and its
nodes are the node of the run or below it (`Query.matches_bounded`).
-/

namespace Reparse

namespace Node

/-- The second node is the first one or lies below it: on the way from it up to the root the first
one is passed. -/
def Contains (node below : Node) : Prop := node.trail <:+ below.trail

variable {tree : Tree} {start node below place : Node} {number : Nat}

theorem contains_of_trail (trail : below.trail = number :: node.trail) : node.Contains below := by
  rw [Contains, trail]
  exact List.suffix_cons _ _

theorem closedBelow_contains (start : Node) : ClosedBelow start.Contains := by
  intro node contains child member
  rcases trail_of_shownFrom node.trail 0 node.start 0 node.tree.children child member with
    ⟨number, path, -, same⟩
  have inward : node.Contains child.node := ⟨path ++ [number], by simp [same]⟩
  exact contains.trans inward

theorem nearestVisible_append_of_follow {nearest middle : Node} {path more : List Nat}
    (followed : node.follow path = some middle)
    (found : nearestVisible nearest node path = some place) :
    nearestVisible nearest node (path ++ more) = nearestVisible place middle more := by
  induction path generalizing nearest node with
  | nil =>
      obtain rfl : node = middle := Option.some.inj followed
      obtain rfl : nearest = place := Option.some.inj found
      rfl
  | cons first rest ih =>
      rcases follow_cons_iff.mp followed with ⟨child, placed, onward⟩
      simp only [List.cons_append, nearestVisible, placed] at found ⊢
      exact ih onward found

theorem contains_of_nearestVisible {nearest : Node} {path : List Nat}
    (near : start.Contains nearest) (contains : start.Contains node)
    (found : nearestVisible nearest node path = some below) : start.Contains below := by
  induction path generalizing nearest node with
  | nil =>
      rw [nearestVisible, Option.some.injEq] at found
      exact found ▸ near
  | cons first rest ih =>
      rw [nearestVisible] at found
      split at found
      · cases found
      · next child placed =>
        have inward : start.Contains child :=
          contains.trans (contains_of_trail (trail_of_placedAt placed))
        refine ih ?_ inward found
        split
        · exact inward
        · exact near

/-- The nearest visible node around a node that lies below a visible one is not above this one. -/
theorem Contains.parent? (resolved : resolve tree start.trail = some place)
    (visible : place.isVisible = true) (contains : start.Contains node)
    (deeper : start.trail.length < node.trail.length)
    (found : node.parent? (root tree) = some below) : start.Contains below := by
  rcases contains with ⟨more, trail⟩
  have same : place.trail = start.trail := by
    simpa [root] using trail_of_follow resolved
  have here : start.Contains place := ⟨[], same.symm⟩
  cases more with
  | nil =>
      rw [← trail] at deeper
      exact absurd deeper (Nat.lt_irrefl _)
  | cons number more =>
      have near : nearestVisible (root tree) (root tree) start.trail.reverse = some place := by
        rw [← same]
        exact nearest?_of_visible (liesIn_of_resolve resolved) visible
      rw [Node.parent?, ← trail, List.cons_append] at found
      dsimp only at found
      rw [List.reverse_append, nearestVisible_append_of_follow resolved near] at found
      exact contains_of_nearestVisible here here found

theorem subset_children_of_siblings {root : Node} {before after : List Child}
    (found : node.siblings? root = some (before, after)) :
    ∃ parent, node.parent? root = some parent ∧ after ⊆ parent.children := by
  unfold siblings? at found
  split at found
  · cases found
  · next parent around =>
    rw [List.span_eq_takeWhile_dropWhile] at found
    split at found
    · next front here behind split =>
      simp only [Prod.mk.injEq] at split
      simp only [Option.some.injEq, Prod.mk.injEq] at found
      have tail : after ⊆ parent.children.dropWhile
          fun sibling => sibling.node.trail != node.trail := by
        rw [split.2, ← found.2]
        exact List.subset_cons_self _ _
      exact ⟨parent, around, List.Subset.trans tail (List.dropWhile_subset _)⟩
    · cases found

/-- Below a visible node all siblings are below it. -/
theorem Contains.siblings? (resolved : resolve tree start.trail = some place)
    (visible : place.isVisible = true) (contains : start.Contains node)
    (deeper : start.trail.length < node.trail.length) {before after : List Child}
    (found : node.siblings? (root tree) = some (before, after)) :
    ∀ sibling ∈ after, start.Contains sibling.node := by
  rcases subset_children_of_siblings found with ⟨parent, around, among⟩
  have inside := contains.parent? resolved visible deeper around
  exact fun sibling member => closedBelow_contains start parent inside sibling (among member)

end Node

namespace Cursor

variable {start node : Node} {around : List Node} {cursor next : Cursor}

/-- The cursor keeps the node and nodes below it only. -/
def StaysBelow (start : Node) (cursor : Cursor) : Prop :=
  ∀ node ∈ cursor.node :: cursor.around, start.Contains node

theorem StaysBelow.standing (stays : cursor.StaysBelow start) : start.Contains cursor.node :=
  stays cursor.node List.mem_cons_self

theorem staysBelow_new (start : Node) : (new start).StaysBelow start :=
  List.forall_mem_singleton.mpr (List.suffix_refl _)

theorem StaysBelow.push (stays : cursor.StaysBelow start) (index : Nat) (child : Tree)
    (place : Extent) : (cursor.push ⟨child, place, index :: cursor.node.trail⟩).StaysBelow start :=
  List.forall_mem_cons.mpr ⟨stays.standing.trans (Node.contains_of_trail rfl), stays⟩

mutual

theorem StaysBelow.enterFirst (cursor : Cursor) (stays : cursor.StaysBelow start) :
    (tree : Tree) → (enterFirst cursor tree).2.StaysBelow start
  | .node _ children => by
    rw [Cursor.enterFirst]
    exact StaysBelow.enterFirstAmong cursor 0 cursor.node.start stays children

theorem StaysBelow.enterFirstAmong (cursor : Cursor) (index : Nat) (place : Extent)
    (stays : cursor.StaysBelow start) :
    (edges : List (Edge Tree)) → (enterFirstAmong cursor index place edges).2.StaysBelow start
  | [] => stays
  | ⟨_, child⟩ :: rest => by
    have entered := stays.push index child (Node.startOf index place child)
    rw [Cursor.enterFirstAmong]
    split
    · exact entered
    · split
      · exact StaysBelow.enterFirst _ entered child
      · exact StaysBelow.enterFirstAmong cursor (index + 1) _ stays rest

end

theorem StaysBelow.firstChild (stays : cursor.StaysBelow start) :
    cursor.firstChild.2.StaysBelow start := stays.enterFirst _ _

theorem trail_of_firstReachable {trail : List Nat} {index : Nat} {place : Extent}
    {edges : List (Edge Tree)} (found : firstReachable trail index place edges = some node) :
    ∃ number, node.trail = number :: trail := by
  induction edges generalizing index place with
  | nil => cases found
  | cons edge rest ih =>
      rw [firstReachable] at found
      split at found
      · rw [← Option.some.inj found]
        exact ⟨index, rfl⟩
      · exact ih found

theorem StaysBelow.sideways (stays : ∀ other ∈ node :: around, start.Contains other)
    (search : sideways reachableAfter node around = some next) : next.StaysBelow start := by
  induction around generalizing node with
  | nil => cases search
  | cons parent rest ih =>
      rcases List.forall_mem_cons.mp stays with ⟨-, above⟩
      rw [Cursor.sideways] at search
      split at search
      · next found reachable =>
        rw [← Option.some.inj search]
        rcases trail_of_firstReachable reachable with ⟨number, trail⟩
        have inside := above parent List.mem_cons_self
        exact List.forall_mem_cons.mpr ⟨inside.trans (Node.contains_of_trail trail), above⟩
      · split at search
        · cases search
        · exact ih above search

theorem StaysBelow.nextSibling (stays : cursor.StaysBelow start) :
    cursor.nextSibling.2.StaysBelow start := by
  unfold Cursor.nextSibling
  split
  · exact stays
  · next found search =>
    have beside := StaysBelow.sideways stays search
    split
    · exact beside
    · exact beside.firstChild

theorem StaysBelow.toParent (stays : cursor.StaysBelow start) :
    cursor.parent.2.StaysBelow start := by
  unfold Cursor.parent
  split
  · exact stays
  · next found climbed =>
    intro other member
    exact stays other (List.mem_cons_of_mem _ ((suffix_of_climb climbed).subset member))

end Cursor

namespace QueryRun

variable {tree : Tree} {start : Node} {query : Query} {run : QueryRun} {place : Cursor}

theorem staysBelow_following {cursor : Cursor} {height : Nat} (stays : cursor.StaysBelow start)
    (found : following cursor height = some place) : place.StaysBelow start := by
  induction height generalizing cursor with
  | zero => cases found
  | succ height ih =>
      rw [following] at found
      have beside := stays.nextSibling
      split at found
      · next next moved =>
        rw [moved] at beside
        exact Option.some.inj found ▸ beside
      · next stayed moved =>
        rw [moved] at beside
        have above := beside.toParent
        split at found
        · next parent climbed =>
          rw [climbed] at above
          exact ih above found
        · cases found

theorem staysBelow_nextPlace (stays : run.cursor.StaysBelow start)
    (next : run.nextPlace = some place) : place.StaysBelow start := by
  unfold nextPlace at next
  have inward := stays.firstChild
  split at next
  · exact Option.some.inj next ▸ stays
  · split at next
    · next child _ entered =>
      rw [entered] at inward
      exact Option.some.inj next ▸ inward
    · next stayed _ entered =>
      rw [entered] at inward
      exact staysBelow_following inward next
    · exact staysBelow_following stays next

/-- The run walks at and below a node, with the query and with the tree to find siblings in. -/
structure Stays (query : Query) (tree : Tree) (start : Node) (run : QueryRun) : Prop where
  query : run.query = query
  root : run.root = Node.root tree
  depth : run.startDepth = start.trail.length
  cursor : run.cursor.StaysBelow start

theorem Stays.standing (stays : run.Stays query tree start) (next : run.nextPlace = some place) :
    (run.standing place).Stays query tree start :=
  ⟨stays.query, stays.root, stays.depth, staysBelow_nextPlace stays.cursor next⟩

end QueryRun

/-- The captures of the match have names in the query, and its nodes are the node or below it. -/
def RawMatch.BoundedBy (query : Query) (node : Node) (found : RawMatch) : Prop :=
  ∀ capture ∈ found.captures,
    capture.1 < query.captureNames.length ∧ node.Contains capture.2

namespace QueryRun

variable {tree : Tree} {start place : Node} {query : Query} {run : QueryRun}

/-- The matches that begin at a node have captures of the query. -/
theorem numbers_lt_matchesAt (formed : query.WellFormed) (same : run.query = query)
    (visited : Child) :
    ∀ found ∈ run.matchesAt visited, ∀ capture ∈ found.captures,
      capture.1 < query.captureNames.length := by
  intro found member
  rw [matchesAt_eq rfl, same] at member
  rcases List.mem_flatMap.mp member with ⟨⟨pattern, index⟩, listed, inner⟩
  rcases List.mem_map.mp inner with ⟨captures, solution, rfl⟩
  have among : pattern ∈ query.patterns := by
    have there := List.mem_of_getElem? (List.mk_mem_zipIdx_iff_getElem?.mp listed)
    exact Array.mem_toList_iff.mp there
  exact numbers_lt_solutionsOf (formed.patterns pattern among).patterns _ _ captures solution

section Bounds

variable (formed : query.WellFormed) (resolved : Node.resolve tree start.trail = some place)
  (visible : place.isVisible = true)

include resolved visible

theorem Stays.siblingsAfter (stays : run.Stays query tree start) {node : Node}
    (inside : start.Contains node) :
    ∀ sibling ∈ run.siblingsAfter node, start.Contains sibling.node := by
  unfold QueryRun.siblingsAfter
  rw [stays.depth, stays.root]
  split
  · simp
  · next deeper =>
    split
    · simp
    · next before after found =>
      exact inside.siblings? resolved visible (Nat.lt_of_not_le deeper) found

include formed

/-- A run at or below a node finds matches that are bounded by it. -/
theorem invariant_stays :
    Invariant (Stays query tree start) (RawMatch.BoundedBy query start) where
  visit {run} stays := by
    rcases run.visitMatches_cases with ended | ⟨place, -, next, visited⟩
    · rw [ended]
      exact ⟨⟨stays.query, stays.root, stays.depth, stays.cursor⟩, nofun⟩
    · rw [visited]
      have there := stays.standing next
      refine ⟨there, ?_⟩
      intro matched same found member
      rw [Option.some.injEq] at same
      subst same
      unfold foundAt at member
      split at member
      · have here : start.Contains place.node := there.cursor.standing
        have numbers := numbers_lt_matchesAt formed stays.query _ found member
        have nodes := keeps_matchesFrom (Node.closedBelow_contains start) here
          (stays.siblingsAfter resolved visible here) 0 run.query.patterns.toList found member
        exact fun capture among => ⟨numbers capture among, nodes capture among⟩
      · cases member
  congr stays query root depth cursor :=
    ⟨query.trans stays.query, root.trans stays.root, depth.trans stays.depth,
      cursor ▸ stays.cursor⟩

end Bounds

end QueryRun

namespace Query

open QueryRun

end Query

end Reparse
