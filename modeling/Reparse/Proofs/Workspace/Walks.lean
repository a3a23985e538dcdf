import Mathlib.Data.List.Induction
import Reparse.Proofs.Document.Obtained
import Reparse.Proofs.Node.Moves
import Reparse.Proofs.Query.Enumeration
import Reparse.Workspace.Cursor

/-!
# Cursors and nodes tell of the same tree

Whatever moves a cursor makes, it stands at a visible node at or below the one it was started on, at
the position that the node's trail resolves to (`Cursor.Walks`). What it goes to from there is what
navigation from the node comes to: the first and the last of the children, the children of the parent
before and after the node, and the parent itself, with nothing to go to where the walk began
(`Cursor.Agrees`). A move that comes to nothing leaves the cursor where it is, and every visible node
below the start is reached by some moves (`Cursor.Walks.exists_moves`).
-/

namespace Reparse

open DocumentCursor (Move Arrival)

/-- A node is a number of steps below another one, each of them to one of the children. -/
inductive Node.Below (start : Node) : Nat → Node → Prop where
  | here : Below start 0 start
  | child {depth : Nat} {parent : Node} {child : Child} (below : Below start depth parent)
      (member : child ∈ parent.children) : Below start (depth + 1) child.node

/-- The move came to nothing. -/
def DocumentCursor.Arrival.IsFailure : Arrival → Prop
  | .moved done => done = false
  | .child number => number = none

namespace Cursor

open QueryRun (countedAll_of_chained climb_ne_none length_of_chained isParent_of_visible_unless)

/-- The cursor after some moves. -/
def afterMoves (cursor : Cursor) (moves : List Move) : Cursor :=
  moves.foldl (fun cursor move => (move.perform cursor).2) cursor

/-- A step goes to a node as it is shown, or there is none and it leaves the cursor as it was. -/
def Goes (cursor : Cursor) (step : Bool × Cursor) : Option Child → Prop
  | some shown => step.1 = true ∧ step.2.here = shown
  | none => step = (false, cursor)

theorem Goes.stays {cursor : Cursor} {step : Bool × Cursor} {goal : Option Child}
    (goes : cursor.Goes step goal) (failure : step.1 = false) : step.2 = cursor := by
  cases goal with
  | none => exact congrArg Prod.snd goes
  | some shown =>
      rw [goes.1] at failure
      cases failure

/-- A cursor that was started at a node of a tree moves as navigation from its node does. -/
structure Agrees (tree : Tree) (start : Node) (cursor : Cursor) : Prop where
  /-- The cursor's node is what its trail resolves to, -/
  resolved : Node.resolve tree cursor.node.trail = some cursor.node
  /-- as many steps below the start as the cursor is deep, -/
  below : start.Below cursor.depth cursor.node
  /-- and visible unless the walk began there. -/
  visible : cursor.node ≠ start → cursor.node.info.visible = true
  firstChild : cursor.Goes cursor.firstChild cursor.node.children.head?
  lastChild : cursor.Goes cursor.lastChild cursor.node.children.getLast?
  /-- Where the walk began there is nothing beside and around the cursor. -/
  top : cursor.node = start → cursor.nextSibling = (false, cursor) ∧
    cursor.previousSibling = (false, cursor) ∧ cursor.parent = (false, cursor)
  /-- Elsewhere the cursor goes to the nearest visible node around it, and beside it to the children
  of this node before and after its own. -/
  beside : cursor.node ≠ start → ∃ above before after,
    cursor.parent = (true, above) ∧ start.Below (cursor.depth - 1) above.node ∧
    cursor.node.parent? (Node.root tree) = some above.node ∧
    above.node.children = before ++ cursor.here :: after ∧
    cursor.Goes cursor.nextSibling after.head? ∧
    cursor.Goes cursor.previousSibling before.getLast?
  /-- The child behind a byte has the number that is answered. -/
  byte : ∀ goal number next, cursor.childPastByte? goal = some (number, next) →
    cursor.node.children[number]? = some next.here ∧ goal < next.node.stop.bytes
  point : ∀ goal number next, cursor.childPastPoint? goal = some (number, next) →
    cursor.node.children[number]? = some next.here ∧
      goal.before next.node.stop.point = true
  /-- Moves that come to nothing leave the cursor as it was. -/
  fails : ∀ move : Move, (move.perform cursor).1.IsFailure → (move.perform cursor).2 = cursor

/-- The cursor walks in a tree with right counts, from one visible node to the next. -/
structure Walks (tree : Tree) (start : Node) (cursor : Cursor) : Prop where
  counted : tree.Counted
  shown : start.isVisible = true
  lies : cursor.LiesIn tree
  base : (cursor.node :: cursor.around).getLast? = some start
  visible : cursor.around ≠ [] → cursor.node.info.visible = true

variable {tree : Tree} {start : Node} {cursor reached next : Cursor} {around : List Node}

theorem walks_new (counted : tree.Counted) (lies : start.LiesIn tree)
    (shown : start.isVisible = true) : (new start).Walks tree start where
  counted := counted
  shown := shown
  lies := liesIn_new lies
  base := rfl
  visible inner := absurd rfl inner

/-- Climbing comes to a visible node or to the last one. -/
theorem isParent_of_climb (climbed : climb around = some reached) :
    isParent reached.node reached.around = true := by
  induction around with
  | nil => simp [climb] at climbed
  | cons node rest ih =>
      by_cases passes : isParent node rest = true
      · rw [climb_of_parent passes, Option.some.injEq] at climbed
        rw [← climbed]
        exact passes
      · rcases hidden_of_not_isParent passes with ⟨hidden, parent, rest, rfl⟩
        rw [climb_of_hidden hidden] at climbed
        exact ih climbed

namespace Walks

theorem isParent (walks : cursor.Walks tree start) :
    isParent cursor.node cursor.around = true := isParent_of_visible_unless walks.visible

theorem countedNode (walks : cursor.Walks tree start) : cursor.node.tree.Counted :=
  walks.lies.standing.counted walks.counted

theorem countedAround (walks : cursor.Walks tree start) : CountedAll cursor.around :=
  countedAll_of_chained walks.counted walks.lies

/-- A cursor that has nothing around it stands where the walk began, and no other does. -/
theorem node_eq_iff (walks : cursor.Walks tree start) :
    cursor.node = start ↔ cursor.around = [] := by
  constructor
  · intro same
    have deep := length_of_chained walks.lies walks.base
    rw [same] at deep
    exact List.eq_nil_of_length_eq_zero (by omega)
  · intro top
    have base := walks.base
    rw [top, List.getLast?_singleton, Option.some.injEq] at base
    exact base

/-- A cursor that came to a visible node from inside some nodes still walks. -/
theorem reach (walks : cursor.Walks tree start) (lies : next.LiesIn tree)
    (base : next.around.getLast? = around.getLast?) (last : around.getLast? = some start)
    (visible : next.node.info.visible = true) : next.Walks tree start where
  counted := walks.counted
  shown := walks.shown
  lies := lies
  base := by
    rw [List.getLast?_cons, base, last]
    rfl
  visible _ := visible

theorem getLast?_around (walks : cursor.Walks tree start) (inner : cursor.around ≠ []) :
    cursor.around.getLast? = some start := by
  have base := walks.base
  rcases cursor with ⟨node, around⟩
  cases around with
  | nil => exact absurd rfl inner
  | cons parent rest => rwa [List.getLast?_cons_cons] at base

theorem climb (walks : cursor.Walks tree start) (climbed : climb cursor.around = some reached) :
    reached.Walks tree start where
  counted := walks.counted
  shown := walks.shown
  lies := by
    have lies := walks.lies.toParent
    rwa [parent, climbed] at lies
  base := (getLast?_of_climb cursor.node climbed).trans walks.base
  visible inner := by
    have passes := isParent_of_climb climbed
    rw [Cursor.isParent] at passes
    simpa [inner] using passes

/-! ## Moves -/

theorem firstChild (walks : cursor.Walks tree start) : cursor.firstChild.2.Walks tree start := by
  have lies := walks.lies.firstChild
  rcases firstChild_spec cursor walks.countedNode with ⟨_, stayed⟩ | ⟨next, entered, leads⟩
  · rw [stayed]
    exact walks
  · rw [entered] at lies ⊢
    exact walks.reach lies leads.base walks.base leads.visible

theorem lastChild (walks : cursor.Walks tree start) : cursor.lastChild.2.Walks tree start := by
  have lies := walks.lies.lastChild
  rcases lastChild_spec cursor walks.countedNode with ⟨_, stayed⟩ | ⟨next, entered, closes⟩
  · rw [stayed]
    exact walks
  · rw [entered] at lies ⊢
    exact walks.reach lies closes.base walks.base closes.visible

theorem nextSibling (walks : cursor.Walks tree start) :
    cursor.nextSibling.2.Walks tree start := by
  have lies := walks.lies.nextSibling
  rcases nextSibling_spec cursor walks.countedAround with ⟨_, stayed⟩ | ⟨next, moved, leads⟩
  · rw [stayed]
    exact walks
  · have inner : cursor.around ≠ [] := by
      intro top
      have shown := leads.shown
      rw [top] at shown
      cases shown
    rw [moved] at lies ⊢
    exact walks.reach lies leads.base (walks.getLast?_around inner) leads.visible

theorem previousSibling (walks : cursor.Walks tree start) :
    cursor.previousSibling.2.Walks tree start := by
  have lies := walks.lies.previousSibling
  by_cases top : cursor.around = []
  · rw [Cursor.previousSibling, top]
    exact walks
  · rcases Option.ne_none_iff_exists'.mp (climb_ne_none top) with ⟨reached, climbed⟩
    rcases previousSibling_spec cursor walks.countedAround walks.lies (walks.visible top)
      climbed with ⟨stayed, _⟩ | ⟨next, moved, closes⟩
    · rw [stayed]
      exact walks
    · rw [moved] at lies ⊢
      exact walks.reach lies closes.base (walks.getLast?_around top) closes.visible

theorem parent (walks : cursor.Walks tree start) : cursor.parent.2.Walks tree start := by
  unfold Cursor.parent
  split
  · exact walks
  · rename_i above climbed
    exact walks.climb climbed

theorem seek (walks : cursor.Walks tree start) {goal : Nat} {goalPoint : Point} {number : Nat}
    (found : seek goal goalPoint 0 cursor cursor.node.tree = some (number, next)) :
    next.Walks tree start := by
  have hits := seek_hits cursor 0 cursor.node.tree rfl walks.countedNode found
  exact walks.reach (LiesIn.seek cursor 0 walks.lies _ rfl _ found) hits.base walks.base hits.visible

/-- Every move keeps a cursor on its walk. -/
theorem perform (walks : cursor.Walks tree start) (move : Move) :
    (move.perform cursor).2.Walks tree start := by
  cases move with
  | firstChild => exact walks.firstChild
  | lastChild => exact walks.lastChild
  | parent => exact walks.parent
  | next => exact walks.nextSibling
  | previous => exact walks.previousSibling
  | childPastByte goal =>
      rw [Move.perform]
      cases found : cursor.childPastByte? goal with
      | none => exact walks
      | some child => exact walks.seek found
  | childPastPoint goal =>
      rw [Move.perform]
      cases found : cursor.childPastPoint? goal with
      | none => exact walks
      | some child => exact walks.seek found

theorem afterMoves (walks : cursor.Walks tree start) (moves : List Move) :
    (cursor.afterMoves moves).Walks tree start := by
  induction moves generalizing cursor with
  | nil => exact walks
  | cons move rest ih => exact ih (walks.perform move)

/-! ## Where moves go -/

/-- Where the walk did not begin, the cursor's node is among the children of the node climbed to. -/
theorem children_of_climb (walks : cursor.Walks tree start) (inner : cursor.around ≠ [])
    (climbed : Cursor.climb cursor.around = some reached) :
    ∃ before, reached.node.children =
      before ++ cursor.here :: later cursor.node cursor.around := by
  rcases split_of_climb walks.countedAround walks.lies climbed with ⟨before, split⟩
  have share : ownShare cursor.node cursor.around = [cursor.here] := if_pos (walks.visible inner)
  rw [share] at split
  exact ⟨before, split⟩

/-- The cursor is as deep as there are visible steps from where the walk began. -/
theorem below (walks : cursor.Walks tree start) : start.Below cursor.depth cursor.node := by
  induction height : cursor.around.length using Nat.strong_induction_on generalizing cursor with
  | _ height ih =>
      subst height
      by_cases top : cursor.around = []
      · have same := walks.node_eq_iff.mpr top
        have level : cursor.depth = 0 := by simp [depth, top]
        rw [level, same]
        exact .here
      · rcases Option.ne_none_iff_exists'.mp (climb_ne_none top) with ⟨reached, climbed⟩
        have above := ih _ (length_of_climb climbed) (walks.climb climbed) rfl
        rcases walks.children_of_climb top climbed with ⟨before, split⟩
        have member : cursor.here ∈ reached.node.children := by
          rw [split]
          exact List.mem_append_right _ List.mem_cons_self
        have level : cursor.depth = reached.depth + 1 :=
          depth_of_climb (walks.visible top) climbed
        rw [level]
        exact .child above member

theorem goes_firstChild (walks : cursor.Walks tree start) :
    cursor.Goes cursor.firstChild cursor.node.children.head? := by
  have passes := walks.isParent
  have spec := firstChild_spec cursor walks.countedNode
  rw [shown_of_isParent passes, beyond, if_pos passes, List.append_nil] at spec
  rcases spec with ⟨none, stayed⟩ | ⟨next, entered, leads⟩
  · rw [none, stayed]
    rfl
  · rw [← leads.shown, entered]
    exact ⟨rfl, rfl⟩

theorem goes_lastChild (walks : cursor.Walks tree start) :
    cursor.Goes cursor.lastChild cursor.node.children.getLast? := by
  have passes := walks.isParent
  have after := walks.lastChild
  have spec := lastChild_spec cursor walks.countedNode
  rw [shown_of_isParent passes, beyond, if_pos passes] at spec
  rcases spec with ⟨none, stayed⟩ | ⟨next, entered, closes⟩
  · rw [none, stayed]
    rfl
  · rw [entered] at after ⊢
    have climbed : Cursor.climb next.around = some cursor :=
      closes.parent.trans (climb_of_parent passes)
    have inner : next.around ≠ [] := by
      intro top
      rw [top] at climbed
      cases climbed
    rcases after.children_of_climb inner climbed with ⟨before, split⟩
    rw [closes.later] at split
    rw [split, List.getLast?_append]
    exact ⟨rfl, rfl⟩

theorem goes_top (walks : cursor.Walks tree start) (top : cursor.node = start) :
    cursor.nextSibling = (false, cursor) ∧ cursor.previousSibling = (false, cursor) ∧
      cursor.parent = (false, cursor) := by
  have around := walks.node_eq_iff.mp top
  rw [Cursor.nextSibling, Cursor.previousSibling, Cursor.parent, around]
  exact ⟨rfl, rfl, rfl⟩

/-- Beside the cursor are the children of the node that it climbs to, before and after its own. -/
theorem goes_beside (walks : cursor.Walks tree start) (other : cursor.node ≠ start) :
    ∃ above before after,
      cursor.parent = (true, above) ∧ start.Below (cursor.depth - 1) above.node ∧
      cursor.node.parent? (Node.root tree) = some above.node ∧
      above.node.children = before ++ cursor.here :: after ∧
      cursor.Goes cursor.nextSibling after.head? ∧
      cursor.Goes cursor.previousSibling before.getLast? := by
  have inner : cursor.around ≠ [] := fun top => other (walks.node_eq_iff.mpr top)
  have visible := walks.visible inner
  rcases Option.ne_none_iff_exists'.mp (climb_ne_none inner) with ⟨above, climbed⟩
  rcases walks.children_of_climb inner climbed with ⟨before, split⟩
  refine ⟨above, before, later cursor.node cursor.around, ?_, ?_, ?_, split, ?_, ?_⟩
  · rw [Cursor.parent, climbed]
  · have level : cursor.depth = above.depth + 1 := depth_of_climb visible climbed
    rw [level, Nat.add_sub_cancel]
    exact (walks.climb climbed).below
  · exact parent?_of_climb walks.lies walks.base walks.shown climbed
  · rcases nextSibling_spec cursor walks.countedAround with ⟨none, stayed⟩ | ⟨next, moved, leads⟩
    · rw [none, stayed]
      rfl
    · rw [← leads.shown, moved]
      exact ⟨rfl, rfl⟩
  · have back := walks.previousSibling
    rcases previousSibling_spec cursor walks.countedAround walks.lies visible climbed with
      ⟨stayed, first⟩ | ⟨next, moved, closes⟩
    · -- nothing is shown before the cursor's node
      have none : before = [] := List.append_left_eq_self.mp (split.symm.trans first)
      rw [none, stayed]
      rfl
    · rw [moved] at back ⊢
      have same : Cursor.climb next.around = some above := closes.parent.trans climbed
      have inside : next.around ≠ [] := by
        intro top
        rw [top] at same
        cases same
      rcases back.children_of_climb inside same with ⟨front, again⟩
      have last : before = front ++ [next.here] := by
        rw [closes.later, split] at again
        refine (List.append_left_inj (cursor.here :: later cursor.node cursor.around)).mp ?_
        rw [again, List.append_assoc]
        rfl
      rw [last, List.getLast?_append]
      exact ⟨rfl, rfl⟩

theorem hits_seek (walks : cursor.Walks tree start) {goal : Nat} {goalPoint : Point} {number : Nat}
    (found : Cursor.seek goal goalPoint 0 cursor cursor.node.tree = some (number, next)) :
    cursor.node.children[number]? = some next.here ∧ goal < next.node.stop.bytes ∧
      goalPoint.before next.node.stop.point = true := by
  have hits := seek_hits cursor 0 cursor.node.tree rfl walks.countedNode found
  rw [shown_of_isParent walks.isParent] at hits
  rcases hits.shown with ⟨before, after, split, place⟩
  refine ⟨?_, hits.byte, hits.point⟩
  rw [split, place, Nat.zero_add, List.getElem?_append_right (Nat.le_refl _), Nat.sub_self]
  rfl

/-- A move that comes to nothing leaves the cursor as it was. -/
theorem stays (walks : cursor.Walks tree start) (move : Move)
    (failure : (move.perform cursor).1.IsFailure) : (move.perform cursor).2 = cursor := by
  cases move with
  | firstChild => exact walks.goes_firstChild.stays failure
  | lastChild => exact walks.goes_lastChild.stays failure
  | parent =>
      by_cases top : cursor.node = start
      · exact congrArg Prod.snd (walks.goes_top top).2.2
      · rcases walks.goes_beside top with ⟨above, _, _, moved, _⟩
        have failure : cursor.parent.1 = false := failure
        rw [moved] at failure
        cases failure
  | next =>
      by_cases top : cursor.node = start
      · exact congrArg Prod.snd (walks.goes_top top).1
      · rcases walks.goes_beside top with ⟨_, _, _, _, _, _, _, goes, _⟩
        exact goes.stays failure
  | previous =>
      by_cases top : cursor.node = start
      · exact congrArg Prod.snd (walks.goes_top top).2.1
      · rcases walks.goes_beside top with ⟨_, _, _, _, _, _, _, _, goes⟩
        exact goes.stays failure
  | childPastByte goal =>
      rw [Move.perform] at failure ⊢
      cases found : cursor.childPastByte? goal with
      | none => rfl
      | some child =>
          rw [found] at failure
          cases failure
  | childPastPoint goal =>
      rw [Move.perform] at failure ⊢
      cases found : cursor.childPastPoint? goal with
      | none => rfl
      | some child =>
          rw [found] at failure
          cases failure

theorem agrees (walks : cursor.Walks tree start) : cursor.Agrees tree start where
  resolved := walks.lies.standing
  below := walks.below
  visible other := walks.visible fun top => other (walks.node_eq_iff.mpr top)
  firstChild := walks.goes_firstChild
  lastChild := walks.goes_lastChild
  top := walks.goes_top
  beside := walks.goes_beside
  byte goal number next found := by
    have hits := walks.hits_seek found
    exact ⟨hits.1, hits.2.1⟩
  point goal number next found := by
    have hits := walks.hits_seek found
    exact ⟨hits.1, hits.2.2⟩
  fails := walks.stays

/-! ## Where moves can lead -/

/-- A cursor comes to every child of its node: to the first one, and on from one to the next. -/
theorem exists_moves_child (walks : cursor.Walks tree start) {before after : List Child}
    {shown : Child} (split : cursor.node.children = before ++ shown :: after) :
    ∃ moves, (cursor.afterMoves moves).here = shown ∧
      later (cursor.afterMoves moves).node (cursor.afterMoves moves).around = after := by
  have passes := walks.isParent
  induction before using List.reverseRecOn generalizing shown after with
  | nil =>
      have spec := firstChild_spec cursor walks.countedNode
      rw [shown_of_isParent passes, beyond, if_pos passes, List.append_nil, split] at spec
      rcases spec with ⟨none, _⟩ | ⟨next, entered, leads⟩
      · cases none
      · have same := List.cons.inj leads.shown
        refine ⟨[.firstChild], ?_⟩
        rw [show cursor.afterMoves [.firstChild] = cursor.firstChild.2 from rfl, entered]
        exact same
  | append_singleton front last ih =>
      rw [List.append_assoc] at split
      rcases ih split with ⟨moves, _, beside⟩
      have there := walks.afterMoves moves
      rcases nextSibling_spec _ there.countedAround with ⟨none, _⟩ | ⟨next, moved, leads⟩
      · rw [beside] at none
        cases none
      · rw [beside] at leads
        have same := List.cons.inj leads.shown
        refine ⟨moves ++ [.next], ?_⟩
        rw [show cursor.afterMoves (moves ++ [.next]) = (cursor.afterMoves moves).nextSibling.2 by
          simp [Cursor.afterMoves, Move.perform, Arrival.ofStep], moved]
        exact same

/-- Moves lead a cursor to every visible node below the one it was started on. -/
theorem exists_moves (walks : (new start).Walks tree start) {depth : Nat} {node : Node}
    (below : start.Below depth node) : ∃ moves, ((new start).afterMoves moves).node = node := by
  induction below with
  | here => exact ⟨[], rfl⟩
  | child _ member ih =>
      rcases ih with ⟨moves, same⟩
      rw [← same] at member
      rcases List.append_of_mem member with ⟨before, after, split⟩
      rcases (walks.afterMoves moves).exists_moves_child split with ⟨further, reached, _⟩
      refine ⟨moves ++ further, ?_⟩
      rw [show (new start).afterMoves (moves ++ further) =
        ((new start).afterMoves moves).afterMoves further from List.foldl_append ..]
      exact congrArg Child.node reached

end Walks

end Cursor

namespace Document

/-- Cursors and nodes tell of the same tree: whatever moves a cursor has made since it was started at
a node of a document, it stands where its node's trail leads, as many visible steps below the start as
it is deep, and goes to the children, siblings and parents that navigation from its node comes to. -/
theorem cursors_agree {document : Document} (obtained : document.Obtained) {start : Node}
    (lies : start.LiesIn document.tree) (shown : start.isVisible = true) (moves : List Move) :
    ((Cursor.new start).afterMoves moves).Agrees document.tree start :=
  ((Cursor.walks_new obtained.counted lies shown).afterMoves moves).agrees

/-- A cursor walks over a sum with a missing parenthesis: down to the last child, back to the sign,
up, and to the child behind a byte. -/
theorem cursors_agree_sum :
    ∃ result, Parser.new.parseIn (Language.arithmetic 0) #[40, 49, 43, 50] none = .ok result ∧
      result.document.Obtained ∧ (Node.root result.document.tree).LiesIn result.document.tree ∧
      (Node.root result.document.tree).isVisible = true ∧
      ((Cursor.new (Node.root result.document.tree)).afterMoves
        [.firstChild, .lastChild, .previous, .parent, .childPastByte 1]).Agrees
          result.document.tree (Node.root result.document.tree) := by
  have parses : (Parser.new.parseIn (Language.arithmetic 0) #[40, 49, 43, 50] none).isOk = true := by
    decide +kernel
  rcases exists_ok_of_isOk parses with ⟨result, run⟩
  have obtained : result.document.Obtained := .fresh Arithmetic.byInterface_grammar run
  have lies := Node.liesIn_root result.document.tree
  exact ⟨result, run, obtained, lies, rfl, cursors_agree obtained lies rfl _⟩

end Document

end Reparse
