import Reparse.Language.Vocabulary
import Reparse.Text.Extent

/-!
# Syntax trees

A tree is a node record and a list of edges to its children, each edge carrying the field it stands
in. A leaf covers its padding (what the scanner skipped before the token) and its content. An inner
node covers its children laid end to end: its padding is the padding of the first child, and the
rest is its content.

A node keeps counts and costs that summarize what is below it. They are computed when the node is
built and an edit does not change them.
-/

namespace Reparse

/-- A child together with the field it stands in, 0 for none. -/
structure Edge (α : Type) where
  field : Nat
  tree : α

/-- What a node records about itself and, in summary, about what is below it. -/
structure Info where
  symbol : Nat
  /-- The state in which the node may be used again. -/
  state : Nat
  padding : Extent
  size : Extent
  /-- The bytes after the node that its scan depended on. -/
  lookahead : Nat
  /-- More than zero exactly if there is an error here or below. -/
  cost : Nat
  visible : Bool
  named : Bool
  extra : Bool
  changed : Bool
  missing : Bool
  /-- The character for which an unexpected leaf was made. -/
  unexpected : Option Char
  visibleChildren : Nat
  namedChildren : Nat
  visibleDescendants : Nat
  deriving DecidableEq, Repr

namespace Info

/-- The padding and the content. -/
def total (info : Info) : Extent := info.padding + info.size

def isError (info : Info) : Bool := info.symbol == errorSymbol
def isEnd (info : Info) : Bool := info.symbol == endSymbol
def hasError (info : Info) : Bool := decide (0 < info.cost)

/-- The record of a leaf without anything special about it. -/
def plain (symbol : Nat) (padding size : Extent) (kind : SymbolKind) : Info where
  symbol := symbol
  state := noState
  padding := padding
  size := size
  lookahead := 0
  cost := 0
  visible := kind.visible
  named := kind.named
  extra := false
  changed := false
  missing := false
  unexpected := none
  visibleChildren := 0
  namedChildren := 0
  visibleDescendants := 0

end Info

/-- A node and its children. -/
inductive Tree where
  | node (info : Info) (children : List (Edge Tree))

namespace Tree

def info : Tree → Info
  | node info _ => info

def children : Tree → List (Edge Tree)
  | node _ children => children

@[simp] theorem info_node (info : Info) (children : List (Edge Tree)) :
    (node info children).info = info := rfl

@[simp] theorem children_node (info : Info) (children : List (Edge Tree)) :
    (node info children).children = children := rfl

def total (tree : Tree) : Extent := tree.info.total

mutual

/-- The number of nodes of a tree. -/
def count : Tree → Nat
  | node _ children => 1 + countAll children

def countAll : List (Edge Tree) → Nat
  | [] => 0
  | edge :: rest => edge.tree.count + countAll rest

end

/-! ## What a node sums up -/

/-- The weight of an error or missing node, of a missing token, and of what an error node skips. -/
def recoveryCost : Nat := 500
def missingCost : Nat := 110
def skippedTreeCost : Nat := 100
def skippedLineCost : Nat := 30
def skippedByteCost : Nat := 1

/-- The cost of an error that covers `size`. -/
def errorCost (size : Extent) : Nat :=
  recoveryCost + skippedByteCost * size.bytes + skippedLineCost * size.point.row

/-- The content of children laid end to end, from the content of the first one on. -/
def sizeOf : List (Edge Tree) → Extent
  | [] => Extent.zero
  | first :: rest =>
    rest.foldl (fun size edge => size + edge.tree.total) first.tree.info.size

/-- The padding of the first child. -/
def paddingOf : List (Edge Tree) → Extent
  | [] => Extent.zero
  | first :: _ => first.tree.info.padding

/-- The farthest byte that a child's scan depended on, where the first child begins at `offset`. -/
def lookaheadEnd (offset : Nat) : List (Edge Tree) → Nat
  | [] => 0
  | edge :: rest =>
    let stop := offset + edge.tree.total.bytes
    max (stop + edge.tree.info.lookahead) (lookaheadEnd stop rest)

/-- What an error node adds for a child that it skips: nothing for an extra or for an unexpected
leaf, else one weight for each visible node the child shows. -/
def skippedCost (tree : Tree) : Nat :=
  if tree.info.extra || (tree.info.isError && tree.children.isEmpty) then 0
  else if tree.info.visible then skippedTreeCost
  else if tree.children.isEmpty then 0
  else skippedTreeCost * tree.info.visibleChildren

/-- The visible nodes that a child shows: itself, or its own children if it is hidden. -/
def visibleShown (tree : Tree) : Nat :=
  if tree.info.visible then 1
  else if tree.children.isEmpty then 0
  else tree.info.visibleChildren

/-- The named nodes that a child shows. -/
def namedShown (tree : Tree) : Nat :=
  if tree.info.visible then (if tree.info.named then 1 else 0)
  else if tree.children.isEmpty then 0
  else tree.info.namedChildren

/-- The visible nodes at and below a child. -/
def visibleBelow (tree : Tree) : Nat :=
  tree.info.visibleDescendants + (if tree.info.visible then 1 else 0)

/-- The sum of a quantity over some children. -/
def sumOf (quantity : Tree → Nat) (children : List (Edge Tree)) : Nat :=
  children.foldl (fun sum edge => sum + quantity edge.tree) 0

/-! ## Building nodes -/

/-- A token. -/
def leaf (symbol : Nat) (padding size : Extent) (lookahead : Nat) (kind : SymbolKind)
    (extra : Bool) : Tree :=
  node { Info.plain symbol padding size kind with lookahead, extra } []

/-- A leaf for input that is no token: one unexpected character, or a stretch never looked at. -/
def unexpected (char : Option Char) (padding size : Extent) (lookahead : Nat) : Tree :=
  node
    { Info.plain errorSymbol padding size .regular with
      lookahead
      unexpected := char
      cost := errorCost size }
    []

/-- A leaf without text for a token that should be there. -/
def missing (symbol : Nat) (kind : SymbolKind) : Tree :=
  node
    { Info.plain symbol Extent.zero Extent.zero kind with
      missing := true
      cost := missingCost + recoveryCost }
    []

/-- A node around its children. -/
def branch (symbol state : Nat) (kind : SymbolKind) (children : List (Edge Tree)) : Tree :=
  let padding := paddingOf children
  let size := sizeOf children
  let below := sumOf (·.info.cost) children
  node
    { Info.plain symbol padding size kind with
      state
      lookahead := lookaheadEnd 0 children - (size.bytes + padding.bytes)
      cost :=
        if symbol = errorSymbol then below + sumOf skippedCost children + errorCost size else below
      visibleChildren := sumOf visibleShown children
      namedChildren := sumOf namedShown children
      visibleDescendants := sumOf visibleBelow children }
    children

/-- An error node around its children, which lose their fields. -/
def error (children : List (Edge Tree)) : Tree :=
  branch errorSymbol noState .regular (children.map fun edge => ⟨0, edge.tree⟩)

end Tree

end Reparse
