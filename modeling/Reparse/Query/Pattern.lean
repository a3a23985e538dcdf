import Reparse.Node.Basic

/-!
# Patterns

A pattern describes nodes: which nodes it accepts, which children they have, in which field they
stand. Children that no child pattern accounts for may stand between and around those that are
described. Captures name nodes by number.
-/

namespace Reparse

/-- Which nodes a pattern accepts. -/
inductive Matcher where
  | any
  | anyNamed
  | symbol (symbol : Nat)
  /-- A missing token, of the symbol if one is given. -/
  | missing (symbol : Option Nat)
  deriving DecidableEq, Repr

/-- Whether a node is accepted. -/
def Matcher.accepts (matcher : Matcher) (node : Node) : Bool :=
  match matcher with
  | any => true
  | anyNamed => node.isNamed
  | symbol wanted => node.info.symbol == wanted
  | missing none => node.info.missing
  | missing (some wanted) => node.info.missing && node.info.symbol == wanted

/-- A description of a node. Field 0 leaves the field of the node open. -/
inductive Pattern where
  /-- An accepted node with the given children, in order, and without children in some fields. -/
  | node (matcher : Matcher) (children : List Pattern) (absent : List Nat) (field : Nat)
    (captures : List Nat)
  /-- A node that one of the alternatives describes. -/
  | oneOf (alternatives : List Pattern) (field : Nat) (captures : List Nat)

namespace Pattern

/-- The pattern for nodes in a field only. -/
def inField (field : Nat) : Pattern → Pattern
  | node matcher children absent _ captures => node matcher children absent field captures
  | oneOf alternatives _ captures => oneOf alternatives field captures

/-- The pattern with more captures for its node. -/
def capturing (more : List Nat) : Pattern → Pattern
  | node matcher children absent field captures =>
    node matcher children absent field (captures ++ more)
  | oneOf alternatives field captures => oneOf alternatives field (captures ++ more)

end Pattern

end Reparse
