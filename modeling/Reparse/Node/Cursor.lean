import Reparse.Node.Basic

/-!
# Cursors

A cursor walks over the visible nodes at and below the node it was created from. It keeps all nodes
on the way from there to where it stands, hidden ones too, so moving to a parent or a sibling needs
no search from the root. It never leaves the node it was created from.
-/

namespace Reparse

/-- A place below the node where a walk began. -/
structure Cursor where
  node : Node
  /-- The nodes around it, nearest first, up to the one where the walk began. -/
  around : List Node

namespace Cursor

def new (node : Node) : Cursor := ⟨node, []⟩

def push (cursor : Cursor) (node : Node) : Cursor := ⟨node, cursor.node :: cursor.around⟩

/-- The number of visible nodes entered since the walk began. -/
def depth (cursor : Cursor) : Nat :=
  ((cursor.node :: cursor.around).dropLast.filter fun node => node.info.visible).length

/-- Whether a node is visible or shows visible nodes. -/
def isReachable (info : Info) : Bool := info.visible || decide (0 < info.visibleChildren)

/-! ## Descending -/

mutual

/-- Enters the first visible node below the cursor's, whose tree is the one given. -/
def enterFirst (cursor : Cursor) : Tree → Bool × Cursor
  | .node _ children => enterFirstAmong cursor 0 cursor.node.start children

def enterFirstAmong (cursor : Cursor) (index : Nat) (place : Extent) :
    List (Edge Tree) → Bool × Cursor
  | [] => (false, cursor)
  | ⟨_, child⟩ :: rest =>
    let start := Node.startOf index place child
    let entered := cursor.push ⟨child, start, index :: cursor.node.trail⟩
    if child.info.visible then (true, entered)
    else if 0 < child.info.visibleChildren then enterFirst entered child
    else enterFirstAmong cursor (index + 1) (start + child.info.size) rest

end

mutual

/-- Enters the last visible node below the cursor's, whose tree is the one given. -/
def enterLast (cursor : Cursor) : Tree → Bool × Cursor
  | .node _ children =>
    match enterLastAmong cursor 0 cursor.node.start children with
    | some result => result
    | none => (false, cursor)

/-- The same for children, nothing if none of them shows a visible node. -/
def enterLastAmong (cursor : Cursor) (index : Nat) (place : Extent) :
    List (Edge Tree) → Option (Bool × Cursor)
  | [] => none
  | ⟨_, child⟩ :: rest =>
    let start := Node.startOf index place child
    match enterLastAmong cursor (index + 1) (start + child.info.size) rest with
    | some result => some result
    | none =>
      let entered := cursor.push ⟨child, start, index :: cursor.node.trail⟩
      if child.info.visible then some (true, entered)
      else if 0 < child.info.visibleChildren then some (enterLast entered child)
      else none

end

def firstChild (cursor : Cursor) : Bool × Cursor := cursor.enterFirst cursor.node.tree
def lastChild (cursor : Cursor) : Bool × Cursor := cursor.enterLast cursor.node.tree

mutual

/-- Enters the first visible node that ends after both goals, `passed` visible ones being before. -/
def seek (goal : Nat) (goalPoint : Point) (passed : Nat) (cursor : Cursor) :
    Tree → Option (Nat × Cursor)
  | .node _ children => seekAmong goal goalPoint passed cursor 0 cursor.node.start children

def seekAmong (goal : Nat) (goalPoint : Point) (passed : Nat) (cursor : Cursor) (index : Nat)
    (place : Extent) : List (Edge Tree) → Option (Nat × Cursor)
  | [] => none
  | ⟨_, child⟩ :: rest =>
    let start := Node.startOf index place child
    let stop := start + child.info.size
    let entered := cursor.push ⟨child, start, index :: cursor.node.trail⟩
    if goal < stop.bytes ∧ goalPoint.before stop.point then
      if child.info.visible then some (passed, entered)
      else if 0 < child.info.visibleChildren then seek goal goalPoint passed entered child
      else seekAmong goal goalPoint passed cursor (index + 1) stop rest
    else
      let shown := if child.info.visible then 1 else child.info.visibleChildren
      seekAmong goal goalPoint (passed + shown) cursor (index + 1) stop rest

end

/-- Enters the first child that ends after a byte; the result is its number. -/
def childPastByte? (cursor : Cursor) (goal : Nat) : Option (Nat × Cursor) :=
  cursor.seek goal Point.zero 0 cursor.node.tree

/-- Enters the first child that ends after a point; the result is its number. -/
def childPastPoint? (cursor : Cursor) (goal : Point) : Option (Nat × Cursor) :=
  cursor.seek 0 goal 0 cursor.node.tree

/-! ## Siblings and parents -/

/-- The first child from number `index` on that is visible or shows visible nodes. -/
def firstReachable (trail : List Nat) (index : Nat) (place : Extent) :
    List (Edge Tree) → Option Node
  | [] => none
  | ⟨_, child⟩ :: rest =>
    let start := Node.startOf index place child
    if isReachable child.info then some ⟨child, start, index :: trail⟩
    else firstReachable trail (index + 1) (start + child.info.size) rest

/-- The number of a node among the children of its parent. -/
def number (node : Node) : Nat := node.trail.headD 0

/-- The nearest reachable child of `parent` after its child `node`. -/
def reachableAfter (parent node : Node) : Option Node :=
  let next := number node + 1
  firstReachable parent.trail next node.stop (parent.tree.children.drop next)

/-- The nearest reachable child of `parent` before its child `node`. -/
def reachableBefore (parent node : Node) : Option Node :=
  let before :=
    Node.placedFrom parent.trail 0 parent.start (parent.tree.children.take (number node))
  (before.reverse.find? fun child => isReachable child.node.info).map (·.node)

/-- The nearest reachable node beside a node, searched for by `beside` among the children of the
nodes around. Only hidden nodes are climbed out of. -/
def sideways (beside : Node → Node → Option Node) (node : Node) : List Node → Option Cursor
  | [] => none
  | parent :: around =>
    match beside parent node with
    | some found => some ⟨found, parent :: around⟩
    | none =>
      if around.isEmpty || parent.info.visible then none else sideways beside parent around

def nextSibling (cursor : Cursor) : Bool × Cursor :=
  match sideways reachableAfter cursor.node cursor.around with
  | none => (false, cursor)
  | some found => if found.node.info.visible then (true, found) else (true, found.firstChild.2)

def previousSibling (cursor : Cursor) : Bool × Cursor :=
  match sideways reachableBefore cursor.node cursor.around with
  | none => (false, cursor)
  | some found => if found.node.info.visible then (true, found) else (true, found.lastChild.2)

/-- The nearest visible node of a list, the last one in the end. -/
def climb : List Node → Option Cursor
  | [] => none
  | [node] => some ⟨node, []⟩
  | node :: around => if node.info.visible then some ⟨node, around⟩ else climb around

def parent (cursor : Cursor) : Bool × Cursor :=
  match climb cursor.around with
  | none => (false, cursor)
  | some found => (true, found)

/-! ## Fields -/

/-- The field in which child number `index` of a tree stands. -/
def fieldOf (tree : Tree) (index : Nat) : Nat :=
  match tree.children[index]? with
  | some edge => edge.field
  | none => 0

/-- The field of a node or of the hidden nodes around it, the innermost one that there is. -/
def fieldAmong (node : Node) : List Node → Nat
  | [] => 0
  | parent :: around =>
    if node.info.extra then 0
    else
      match fieldOf parent.tree (number node) with
      | 0 => if around.isEmpty || parent.info.visible then 0 else fieldAmong parent around
      | field => field

/-- The field in which the cursor's node is shown, 0 for none. -/
def field (cursor : Cursor) : Nat := fieldAmong cursor.node cursor.around

end Cursor

end Reparse
