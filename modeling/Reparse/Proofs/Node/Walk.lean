import Reparse.Proofs.Node.Current

/-!
# Cursors that walk in a tree

All nodes that a cursor keeps lie in the tree it was started on: each of them is the child of the one
around it, and the last one was handed out by the document (`Cursor.LiesIn`). Every move keeps this.
-/

namespace Reparse

namespace Node

variable {trail : List Nat} {index number count : Nat} {place : Extent}
  {edges : List (Edge Tree)} {node parent found : Node}

/-- Behind a child the edges go on with those after it. -/
theorem Onward.drop (onward : parent.Onward index place edges)
    (placed : placedAt parent.trail index place number edges = some node) :
    parent.Onward (index + number + 1) node.stop (edges.drop (number + 1)) := by
  induction edges generalizing index number place with
  | nil => simp [placedAt] at placed
  | cons edge rest ih =>
      rcases edge with ⟨field, child⟩
      cases number with
      | zero =>
          simp only [placedAt, Option.some.injEq] at placed
          subst placed
          exact onward.next
      | succ number =>
          simp only [placedAt] at placed
          have later := ih onward.next placed
          rw [show index + 1 + number + 1 = index + (number + 1) + 1 by omega] at later
          exact later

theorem exists_placed_of_placedFrom (onward : node.Onward index place edges) :
    ∀ child ∈ placedFrom node.trail index place edges,
      ∃ number, node.placed? number = some child.node := by
  induction edges generalizing index place with
  | nil => simp [placedFrom]
  | cons edge rest ih =>
      rcases edge with ⟨field, child⟩
      rw [placedFrom]
      exact List.forall_mem_cons.mpr ⟨⟨index, onward.here⟩, ih onward.next⟩

theorem mem_placedFrom_of_take {child : Child}
    (member : child ∈ placedFrom trail index place (edges.take count)) :
    child ∈ placedFrom trail index place edges := by
  induction edges generalizing index place count with
  | nil => simpa using member
  | cons edge rest ih =>
      cases count with
      | zero => simp [placedFrom] at member
      | succ count =>
          simp only [List.take_succ_cons, placedFrom, List.mem_cons] at member ⊢
          exact member.imp_right ih

end Node

namespace Cursor

open Node (Onward startOf)

variable {tree : Tree} {cursor reached : Cursor} {node parent found : Node} {around : List Node}
  {index : Nat} {place : Extent} {edges : List (Edge Tree)} {field : Nat} {child : Tree}

/-- A node is a child of the one around it. -/
def IsChild (parent node : Node) : Prop := parent.placed? (number node) = some node

theorem isChild_of_placed {number : Nat} (placed : parent.placed? number = some node) :
    IsChild parent node := by
  have trail := Node.trail_of_placedAt placed
  rw [Nat.zero_add] at trail
  rw [IsChild, Cursor.number, trail]
  exact placed

/-- Each of the nodes is a child of the next one, and the last one lies in the tree. -/
def Chained (tree : Tree) (node : Node) : List Node → Prop
  | [] => node.LiesIn tree
  | parent :: around => IsChild parent node ∧ Chained tree parent around

/-- All nodes that the cursor keeps lie in the tree. -/
def LiesIn (tree : Tree) (cursor : Cursor) : Prop := Chained tree cursor.node cursor.around

theorem Chained.liesIn (chained : Chained tree node around) : node.LiesIn tree := by
  induction around generalizing node with
  | nil => exact chained
  | cons parent rest ih => exact (ih chained.2).placed chained.1

theorem LiesIn.standing (lies : cursor.LiesIn tree) : cursor.node.LiesIn tree := Chained.liesIn lies

theorem liesIn_new (lies : node.LiesIn tree) : (new node).LiesIn tree := lies

theorem LiesIn.push (lies : cursor.LiesIn tree)
    (onward : cursor.node.Onward index place (⟨field, child⟩ :: edges)) :
    (cursor.push ⟨child, startOf index place child, index :: cursor.node.trail⟩).LiesIn tree :=
  ⟨isChild_of_placed onward.here, lies⟩

/-! ## Descending -/

mutual

theorem LiesIn.enterFirst (cursor : Cursor) (lies : cursor.LiesIn tree) :
    (inner : Tree) → inner = cursor.node.tree → (enterFirst cursor inner).2.LiesIn tree
  | .node info children, same => by
    have onward := cursor.node.onward_start
    rw [← same] at onward
    rw [Cursor.enterFirst]
    exact LiesIn.enterFirstAmong cursor 0 cursor.node.start lies children onward

theorem LiesIn.enterFirstAmong (cursor : Cursor) (index : Nat) (place : Extent)
    (lies : cursor.LiesIn tree) :
    (edges : List (Edge Tree)) → cursor.node.Onward index place edges →
      (enterFirstAmong cursor index place edges).2.LiesIn tree
  | [], _ => by
    rw [Cursor.enterFirstAmong]
    exact lies
  | ⟨_, child⟩ :: rest, onward => by
    have entered := lies.push onward
    rw [Cursor.enterFirstAmong]
    split
    · exact entered
    · split
      · exact LiesIn.enterFirst _ entered child rfl
      · exact LiesIn.enterFirstAmong cursor (index + 1) _ lies rest onward.next

end

mutual

theorem LiesIn.enterLast (cursor : Cursor) (lies : cursor.LiesIn tree) :
    (inner : Tree) → inner = cursor.node.tree → (enterLast cursor inner).2.LiesIn tree
  | .node info children, same => by
    have onward := cursor.node.onward_start
    rw [← same] at onward
    rw [Cursor.enterLast]
    split
    · rename_i result entered
      exact LiesIn.enterLastAmong cursor 0 cursor.node.start lies children onward result entered
    · exact lies

theorem LiesIn.enterLastAmong (cursor : Cursor) (index : Nat) (place : Extent)
    (lies : cursor.LiesIn tree) :
    (edges : List (Edge Tree)) → cursor.node.Onward index place edges →
      ∀ result, enterLastAmong cursor index place edges = some result → result.2.LiesIn tree
  | [], _, _, found => by
    rw [Cursor.enterLastAmong] at found
    cases found
  | ⟨_, child⟩ :: rest, onward, result, found => by
    have entered := lies.push onward
    rw [Cursor.enterLastAmong] at found
    split at found
    · rename_i later search
      rw [Option.some.injEq] at found
      exact found ▸ LiesIn.enterLastAmong cursor (index + 1) _ lies rest onward.next later search
    · split at found
      · rw [Option.some.injEq] at found
        exact found ▸ entered
      · split at found
        · rw [Option.some.injEq] at found
          exact found ▸ LiesIn.enterLast _ entered child rfl
        · cases found

end

theorem LiesIn.firstChild (lies : cursor.LiesIn tree) : cursor.firstChild.2.LiesIn tree :=
  LiesIn.enterFirst cursor lies cursor.node.tree rfl

theorem LiesIn.lastChild (lies : cursor.LiesIn tree) : cursor.lastChild.2.LiesIn tree :=
  LiesIn.enterLast cursor lies cursor.node.tree rfl

section Seek

variable {goal : Nat} {goalPoint : Point}

mutual

theorem LiesIn.seek (cursor : Cursor) (passed : Nat) (lies : cursor.LiesIn tree) :
    (inner : Tree) → inner = cursor.node.tree →
      ∀ result, seek goal goalPoint passed cursor inner = some result → result.2.LiesIn tree
  | .node info children, same, result, found => by
    have onward := cursor.node.onward_start
    rw [← same] at onward
    rw [Cursor.seek] at found
    exact LiesIn.seekAmong cursor passed 0 cursor.node.start lies children onward result found

theorem LiesIn.seekAmong (cursor : Cursor) (passed index : Nat) (place : Extent)
    (lies : cursor.LiesIn tree) :
    (edges : List (Edge Tree)) → cursor.node.Onward index place edges →
      ∀ result, seekAmong goal goalPoint passed cursor index place edges = some result →
        result.2.LiesIn tree
  | [], _, _, found => by
    rw [Cursor.seekAmong] at found
    cases found
  | ⟨_, child⟩ :: rest, onward, result, found => by
    have entered := lies.push onward
    rw [Cursor.seekAmong] at found
    split at found
    · split at found
      · rw [Option.some.injEq] at found
        exact found ▸ entered
      · split at found
        · exact LiesIn.seek _ passed entered child rfl result found
        · exact LiesIn.seekAmong cursor _ (index + 1) _ lies rest onward.next result found
    · exact LiesIn.seekAmong cursor _ (index + 1) _ lies rest onward.next result found

end

end Seek

/-! ## Siblings and parents -/

theorem isChild_of_firstReachable (onward : parent.Onward index place edges)
    (reached : firstReachable parent.trail index place edges = some found) :
    IsChild parent found := by
  induction edges generalizing index place with
  | nil => simp [firstReachable] at reached
  | cons edge rest ih =>
      rcases edge with ⟨field, child⟩
      rw [firstReachable] at reached
      split at reached
      · rw [Option.some.injEq] at reached
        exact reached ▸ isChild_of_placed onward.here
      · exact ih onward.next reached

theorem isChild_of_reachableAfter (child : IsChild parent node)
    (reached : reachableAfter parent node = some found) : IsChild parent found := by
  have onward := parent.onward_start.drop child
  rw [Nat.zero_add] at onward
  exact isChild_of_firstReachable onward reached

theorem isChild_of_reachableBefore (reached : reachableBefore parent node = some found) :
    IsChild parent found := by
  simp only [reachableBefore, Option.map_eq_some_iff] at reached
  rcases reached with ⟨child, search, rfl⟩
  have member := List.mem_reverse.mp (List.mem_of_find?_eq_some search)
  rcases Node.exists_placed_of_placedFrom parent.onward_start child
    (Node.mem_placedFrom_of_take member) with ⟨number, placed⟩
  exact isChild_of_placed placed

theorem liesIn_of_sideways {beside : Node → Node → Option Node}
    (keeps : ∀ parent node found, IsChild parent node → beside parent node = some found →
      IsChild parent found)
    (chained : Chained tree node around) (search : sideways beside node around = some reached) :
    reached.LiesIn tree := by
  induction around generalizing node with
  | nil => simp [sideways] at search
  | cons parent rest ih =>
      rw [sideways] at search
      split at search
      · rename_i found reachable
        rw [Option.some.injEq] at search
        exact search ▸ ⟨keeps parent node found chained.1 reachable, chained.2⟩
      · split at search
        · cases search
        · exact ih chained.2 search

theorem LiesIn.nextSibling (lies : cursor.LiesIn tree) : cursor.nextSibling.2.LiesIn tree := by
  unfold Cursor.nextSibling
  split
  · exact lies
  · rename_i found search
    have there := liesIn_of_sideways
      (fun _ _ _ child reached => isChild_of_reachableAfter child reached) lies search
    split
    · exact there
    · exact there.firstChild

theorem LiesIn.previousSibling (lies : cursor.LiesIn tree) :
    cursor.previousSibling.2.LiesIn tree := by
  unfold Cursor.previousSibling
  split
  · exact lies
  · rename_i found search
    have there := liesIn_of_sideways
      (fun _ _ _ _ reached => isChild_of_reachableBefore reached) lies search
    split
    · exact there
    · exact there.lastChild

theorem liesIn_of_climb (chained : Chained tree parent around)
    (climbed : climb (parent :: around) = some reached) : reached.LiesIn tree := by
  induction around generalizing parent with
  | nil =>
      simp only [climb, Option.some.injEq] at climbed
      exact climbed ▸ chained
  | cons next rest ih =>
      rw [climb] at climbed
      · split at climbed
        · rw [Option.some.injEq] at climbed
          exact climbed ▸ chained
        · exact ih chained.2 climbed
      · simp

theorem LiesIn.toParent (lies : cursor.LiesIn tree) : cursor.parent.2.LiesIn tree := by
  rcases cursor with ⟨node, around⟩
  unfold Cursor.parent
  split
  · exact lies
  · rename_i found climbed
    cases around with
    | nil => simp [climb] at climbed
    | cons parent rest =>
        have chained : Chained tree node (parent :: rest) := lies
        exact liesIn_of_climb chained.2 climbed

end Cursor

end Reparse
