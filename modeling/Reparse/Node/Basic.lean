import Reparse.Syntax.Tree
import Reparse.Text.Span

/-!
# Nodes

A `Node` is a subtree together with its place: where its content starts in the document, and the
child indices that lead from it up to the root. The indices count all children, hidden ones too.

Navigation shows visible nodes only. The children of a hidden node are shown as children of the
nearest node around it that is visible, and stand in the field of the hidden node unless they have
one of their own. The root is shown whatever it is.
-/

namespace Reparse

/-- A subtree at its place in a document. -/
structure Node where
  tree : Tree
  /-- Where the content starts, after the padding. -/
  start : Extent
  /-- The child indices from the node up to the root, innermost first. -/
  trail : List Nat

/-- A node together with the field it is shown in, 0 for none. -/
structure Child where
  node : Node
  field : Nat

namespace Node

def info (node : Node) : Info := node.tree.info

/-- The root of a tree. -/
def root (tree : Tree) : Node := ⟨tree, tree.info.padding, []⟩

def isRoot (node : Node) : Bool := node.trail.isEmpty

/-- Where the content ends. -/
def stop (node : Node) : Extent := node.start + node.info.size

/-- The text that the content covers. -/
def span (node : Node) : Span := ⟨node.start, node.stop⟩

def isVisible (node : Node) : Bool := node.isRoot || node.info.visible
def isNamed (node : Node) : Bool := node.isVisible && node.info.named

/-- Where the content of a child starts, when the content before it ends at `place`. The first child
starts where its parent does. -/
def startOf (index : Nat) (place : Extent) (child : Tree) : Extent :=
  if index = 0 then place else place + child.info.padding

/-! ## All children -/

/-- The children on a list of edges, hidden ones too: the first has number `index`, and the content
before it ends at `place`. -/
def placedFrom (trail : List Nat) (index : Nat) (place : Extent) : List (Edge Tree) → List Child
  | [] => []
  | ⟨field, child⟩ :: rest =>
    let start := startOf index place child
    ⟨⟨child, start, index :: trail⟩, field⟩ ::
      placedFrom trail (index + 1) (start + child.info.size) rest

/-- All children of a node, each with its own field. -/
def placed (node : Node) : List Child := placedFrom node.trail 0 node.start node.tree.children

/-- Child number `index + skipped` on a list of edges of which the first has number `index`. -/
def placedAt (trail : List Nat) (index : Nat) (place : Extent) (skipped : Nat) :
    List (Edge Tree) → Option Node
  | [] => none
  | ⟨_, child⟩ :: rest =>
    let start := startOf index place child
    match skipped with
    | 0 => some ⟨child, start, index :: trail⟩
    | skipped + 1 => placedAt trail (index + 1) (start + child.info.size) skipped rest

/-- The child with a number, counting hidden ones too. -/
def placed? (node : Node) (number : Nat) : Option Node :=
  placedAt node.trail 0 node.start number node.tree.children

/-- The node that child numbers lead to. -/
def follow (node : Node) : List Nat → Option Node
  | [] => some node
  | number :: rest =>
    match node.placed? number with
    | none => none
    | some child => child.follow rest

/-- The node at a trail in a tree, if the tree still has one there. -/
def resolve (tree : Tree) (trail : List Nat) : Option Node := (root tree).follow trail.reverse

/-! ## Visible children -/

mutual

/-- The visible nodes that a hidden tree shows, each with its field. -/
def shownBelow (trail : List Nat) (start : Extent) (inherited : Nat) : Tree → List Child
  | .node _ children => shownFrom trail 0 start inherited children

/-- The visible nodes that a list of edges shows, numbered and placed as in `placedFrom`. -/
def shownFrom (trail : List Nat) (index : Nat) (place : Extent) (inherited : Nat) :
    List (Edge Tree) → List Child
  | [] => []
  | ⟨own, child⟩ :: rest =>
    let start := startOf index place child
    let field := if child.info.extra then 0 else if own = 0 then inherited else own
    let later := shownFrom trail (index + 1) (start + child.info.size) inherited rest
    if child.info.visible then ⟨⟨child, start, index :: trail⟩, field⟩ :: later
    else if 0 < child.info.visibleChildren then
      shownBelow (index :: trail) start field child ++ later
    else later

end

/-- The visible children of a node. -/
def children (node : Node) : List Child :=
  shownFrom node.trail 0 node.start 0 node.tree.children

/-- The visible children, or only the named ones. -/
def childrenOf (node : Node) (namedOnly : Bool) : List Child :=
  node.children.filter fun child => !namedOnly || child.node.info.named

/-- The visible or named child with a number. -/
def child? (node : Node) (number : Nat) (namedOnly : Bool) : Option Child :=
  (node.childrenOf namedOnly)[number]?

/-- The first child in a field. -/
def childInField? (node : Node) (field : Nat) : Option Node :=
  if field = 0 then none
  else (node.children.find? fun child => child.field == field).map (·.node)

/-! ## Parents and siblings -/

/-- The last visible node on the way along some child numbers, `nearest` being the one so far. -/
def nearestVisible (nearest node : Node) : List Nat → Option Node
  | [] => some nearest
  | number :: rest =>
    match node.placed? number with
    | none => none
    | some child => nearestVisible (if child.info.visible then child else nearest) child rest

/-- The nearest visible node around a node of the tree with the given root, the root in the end. -/
def parent? (node root : Node) : Option Node :=
  match node.trail with
  | [] => none
  | _ :: around => nearestVisible root root around.reverse

/-- The children of the parent, split at the node itself: those before it and those after it. -/
def siblings? (node root : Node) : Option (List Child × List Child) :=
  match node.parent? root with
  | none => none
  | some parent =>
    match parent.children.span fun sibling => sibling.node.trail != node.trail with
    | (before, _ :: after) => some (before, after)
    | (_, []) => none

/-- The next sibling, or the next named one. -/
def next? (node root : Node) (namedOnly : Bool) : Option Node :=
  match node.siblings? root with
  | none => none
  | some (_, after) =>
    (after.find? fun sibling => !namedOnly || sibling.node.info.named).map (·.node)

/-- The previous sibling, or the previous named one. -/
def previous? (node root : Node) (namedOnly : Bool) : Option Node :=
  match node.siblings? root with
  | none => none
  | some (before, _) =>
    (before.reverse.find? fun sibling => !namedOnly || sibling.node.info.named).map (·.node)

/-! ## The node around a stretch of text -/

mutual

/-- The search below a hidden or visible tree; `best` is the smallest relevant node so far. -/
def smallestBelow (first stop : Nat) (anonymous : Bool) (best : Node) (trail : List Nat)
    (start : Extent) : Tree → Node
  | .node _ children => smallestAmong first stop anonymous best trail 0 start children

/-- The search among children, numbered and placed as in `placedFrom`. Only the first child that
ends late enough can be around the stretch. -/
def smallestAmong (first stop : Nat) (anonymous : Bool) (best : Node) (trail : List Nat)
    (index : Nat) (place : Extent) : List (Edge Tree) → Node
  | [] => best
  | ⟨_, child⟩ :: rest =>
    let start := startOf index place child
    let reached := start + child.info.size
    if reached.bytes < stop ∨ reached.bytes ≤ first then
      smallestAmong first stop anonymous best trail (index + 1) reached rest
    else if first < start.bytes then best
    else
      let here : Node := ⟨child, start, index :: trail⟩
      let relevant := child.info.visible && (anonymous || child.info.named)
      smallestBelow first stop anonymous (if relevant then here else best) (index :: trail) start
        child

end

/-- The smallest visible node at or below a node that spans the bytes from `first` to `stop`, or the
smallest named one. -/
def smallest (node : Node) (first stop : Nat) (anonymous : Bool) : Node :=
  smallestBelow first stop anonymous node node.trail node.start node.tree

/-- The same, if the stretch lies within the node at all. -/
def smallest? (node : Node) (first stop : Nat) (anonymous : Bool) : Option Node :=
  if node.start.bytes ≤ first ∧ first ≤ stop ∧ stop ≤ node.stop.bytes then
    some (node.smallest first stop anonymous)
  else none

end Node

end Reparse
