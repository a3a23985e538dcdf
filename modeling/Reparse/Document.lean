import Std.Data.HashMap
import Reparse.Language.Basic
import Reparse.Node.Basic
import Reparse.Syntax.Difference
import Reparse.Syntax.Edit

/-!
# Documents

A document is a tree together with the text it was parsed from, its language and the spans that the
parse could see. It remembers every node it has handed out: the node gets a number, counted from 0,
and the same place in the tree always has the same number. When the document is edited the records
of these nodes are read again from the edited tree, so a number stands for the node in its current
form.
-/

namespace Reparse

/-- A parsed text and the nodes of it that were handed out. -/
structure Document where
  language : Language
  source : Text
  tree : Tree
  spans : List Span
  /-- The nodes handed out, by number. -/
  records : Array Node
  /-- The numbers of the nodes handed out, by trail. -/
  numbers : Std.HashMap (List Nat) Nat

namespace Document

/-- A document none of whose nodes was handed out. -/
def new (language : Language) (source : Text) (tree : Tree) (spans : List Span) : Document where
  language := language
  source := source
  tree := tree
  spans := spans
  records := #[]
  numbers := {}

/-- The root in its current form. -/
def root (document : Document) : Node := Node.root document.tree

/-- Hands out a node: its number, and the document with a record of it. A node at the same place
that was handed out before keeps its record. -/
def handOut (document : Document) (node : Node) : Nat × Document :=
  match document.numbers[node.trail]? with
  | some number => (number, document)
  | none =>
    let number := document.records.size
    (number,
      { document with
        records := document.records.push node
        numbers := document.numbers.insert node.trail number })

/-- Hands out nodes in order. -/
def handOutAll (document : Document) : List Node → List Nat × Document
  | [] => ([], document)
  | node :: rest =>
    let (number, document) := document.handOut node
    let (numbers, document) := document.handOutAll rest
    (number :: numbers, document)

/-- The record of a node, read again from a tree. Where the tree has no node, it stays as it is. -/
def refreshed (tree : Tree) (node : Node) : Node := (Node.resolve tree node.trail).getD node

/-- The document after its text was edited. Its source stays what was parsed. -/
def edit (document : Document) (edit : Edit) : Document :=
  let tree := document.tree.edit edit
  { document with
    tree
    spans := document.spans.map (·.shift edit)
    records := document.records.map (refreshed tree) }

/-- A document with the same contents that has handed out nothing. -/
def copy (document : Document) : Document :=
  new document.language document.source document.tree document.spans

/-- The stretches in which a new parse differs from this edited document, if the comparison ends. -/
def changedSpans (old new : Document) : Option (List Span) :=
  old.tree.changedSpans new.tree (Span.symmetricDifference old.spans new.spans)

/-! ## What is said about a node -/

/-- A node as it is listed: its kind, its place and its flags. -/
structure Brief where
  kind : String
  span : Span
  isNamed : Bool
  isMissing : Bool
  isExtra : Bool
  isError : Bool
  isChanged : Bool
  hasError : Bool
  deriving DecidableEq, Repr

/-- Describes a node in the vocabulary of its language. -/
def brief (vocabulary : Vocabulary) (node : Node) : Except UnknownSymbol Brief :=
  match vocabulary.checkedName node.info.symbol with
  | .error unknown => .error unknown
  | .ok kind =>
    .ok
      { kind
        span := node.span
        isNamed := node.isNamed
        isMissing := node.info.missing
        isExtra := node.info.extra
        isError := node.info.isError
        isChanged := node.info.changed
        hasError := node.info.hasError }

/-- How a point is shown to a developer. -/
def shownPoint (point : Point) : String :=
  "(" ++ toString point.row ++ ", " ++ toString point.column ++ ")"

/-- How a node is shown to a developer. -/
def shownNode (vocabulary : Vocabulary) (node : Node) : Except UnknownSymbol String :=
  match vocabulary.checkedName node.info.symbol with
  | .error unknown => .error unknown
  | .ok kind =>
    .ok ("\x7bNode " ++ kind ++ " " ++ shownPoint node.start.point ++ " - " ++
      shownPoint node.stop.point ++ "\x7d")

end Document

end Reparse
