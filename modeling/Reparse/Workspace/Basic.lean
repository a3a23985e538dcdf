import Reparse.Parser
import Reparse.Query.Basic
import Reparse.Syntax.Expression

/-!
# The workspace

Nodes, cursors and running queries refer to documents, and an edit of a document shows in all of
them. The workspace holds the documents; everything else refers to them by number. A node is named
by its document and the number under which it was handed out.

What a cursor or a running query finds is handed out by its document like any other node. They keep
the tree they were started on: after an edit, a node that was handed out before shows in its current
form, and any other in the form it had.

An operation can fail, and what it did to the workspace before stays done.
-/

namespace Reparse

/-- The documents that are open. -/
structure Workspace where
  documents : Array Document

/-- A document of the workspace. -/
structure DocumentRef where
  index : Nat
  deriving DecidableEq, Repr

/-- A node that a document handed out. -/
structure NodeRef where
  document : DocumentRef
  number : Nat
  deriving DecidableEq, Repr

/-- Why an operation failed. -/
inductive Failure where
  | noLanguage
  | parse (fault : Fault)
  | unknownSymbol (unknown : UnknownSymbol)
  | noPattern (index count : Nat)
  | foreignQuery (query tree : String)
  /-- A node reaches past the end of the text given for it. -/
  | outOfText
  /-- The comparison of two trees does not end. -/
  | endlessComparison
  /-- The workspace has no such document or node. -/
  | unknownReference
  deriving DecidableEq, Repr

/-- The wording of a failure, where it has one. -/
def Failure.message? : Failure → Option String
  | noLanguage => some "Parser::parse called before a language was set"
  | parse fault => fault.message?
  | unknownSymbol unknown => some unknown.message
  | noPattern index count =>
    some ("Pattern index is " ++ toString index ++ " but the pattern count is " ++ toString count)
  | foreignQuery query tree =>
    some ("Query for language " ++ query ++ " cannot run on a tree of language " ++ tree)
  | outOfText => none
  | endlessComparison => none
  | unknownReference => none

/-- An operation on the workspace. -/
abbrev Work := ExceptT Failure (StateM Workspace)

namespace Work

/-! ## Documents -/

def document (ref : DocumentRef) : Work Document := do
  match (← get).documents[ref.index]? with
  | some document => return document
  | none => throw .unknownReference

/-- Changes a document. -/
def update {α : Type} (ref : DocumentRef) (change : Document → α × Document) : Work α := do
  let (result, changed) := change (← document ref)
  modify fun workspace =>
    { workspace with documents := workspace.documents.setIfInBounds ref.index changed }
  return result

/-- Adds a document to the workspace. -/
def openDocument (document : Document) : Work DocumentRef := do
  let index := (← get).documents.size
  modify fun workspace => { workspace with documents := workspace.documents.push document }
  return ⟨index⟩

/-- Parses a text, taking over subtrees of an older document if there is one. -/
def parse (parser : Parser) (text : Text) (old : Option DocumentRef) :
    Work (DocumentRef × List Notice × List Remark) := do
  match parser.language with
  | none => throw .noLanguage
  | some language =>
    let old ← do
      match old with
      | some old => pure (some (← document old))
      | none => pure none
    match parser.parseIn language text old with
    | .error fault => throw (.parse fault)
    | .ok parsed => return (← openDocument parsed.document, parsed.log, parsed.remarks)

def edit (ref : DocumentRef) (edit : Edit) : Work Unit :=
  update ref fun document => ((), document.edit edit)

def copyDocument (ref : DocumentRef) : Work DocumentRef := do
  openDocument (← document ref).copy

/-- The stretches in which a new document differs from an edited old one. A document does not differ
from itself. -/
def changedSpans (old new : DocumentRef) : Work (List Span) := do
  if old = new then return []
  match (← document old).changedSpans (← document new) with
  | some spans => return spans
  | none => throw .endlessComparison

/-! ## Nodes -/

/-- Hands out a node of a document. -/
def handOut (ref : DocumentRef) (node : Node) : Work NodeRef := do
  return ⟨ref, ← update ref fun document => document.handOut node⟩

def handOutAll (ref : DocumentRef) (nodes : List Node) : Work (List NodeRef) := do
  let numbers ← update ref fun document => document.handOutAll nodes
  return numbers.map fun number => ⟨ref, number⟩

/-- The current form of a node. -/
def node (ref : NodeRef) : Work Node := do
  match (← document ref.document).records[ref.number]? with
  | some node => return node
  | none => throw .unknownReference

def languageOf (ref : NodeRef) : Work Language := return (← document ref.document).language

def vocabularyOf (ref : NodeRef) : Work Vocabulary := return (← languageOf ref).vocabulary

/-- Passes on a result that fails for a symbol the language does not have. -/
def checked {α : Type} : Except UnknownSymbol α → Work α
  | .ok result => return result
  | .error unknown => throw (.unknownSymbol unknown)

def root (ref : DocumentRef) : Work NodeRef := do handOut ref (← document ref).root

def brief (ref : NodeRef) : Work Document.Brief := do
  checked (Document.brief (← vocabularyOf ref) (← node ref))

def shownNode (ref : NodeRef) : Work String := do
  checked (Document.shownNode (← vocabularyOf ref) (← node ref))

def shownDocument (ref : DocumentRef) : Work String := do
  return "\x7bTree " ++ (← shownNode (← root ref)) ++ "\x7d"

def expression (ref : NodeRef) : Work String := do
  return (← node ref).tree.expression (← vocabularyOf ref)

/-- The children of a node, or the named ones. -/
def children (ref : NodeRef) (namedOnly : Bool) : Work (List NodeRef) := do
  handOutAll ref.document (((← node ref).childrenOf namedOnly).map (·.node))

/-- The name of the field that the child with a number is shown in. -/
def childFieldName (ref : NodeRef) (number : Nat) : Work (Option String) := do
  let vocabulary ← vocabularyOf ref
  return ((← node ref).child? number false).bind fun child => vocabulary.fieldName? child.field

/-- The names of the fields of all children in order. -/
def childFieldNames (ref : NodeRef) : Work (List (Option String)) := do
  let vocabulary ← vocabularyOf ref
  return (← node ref).children.map fun child => vocabulary.fieldName? child.field

/-- A way from a node to another one. -/
inductive Move where
  | child (number : Nat) (namedOnly : Bool)
  | field (name : String)
  | fieldNumber (field : Nat)
  | parent
  | next (namedOnly : Bool)
  | previous (namedOnly : Bool)
  | descendant (first stop : Nat) (anonymous : Bool)
  deriving DecidableEq, Repr

/-- Where a move leads to, if it leads anywhere. -/
def Move.target (vocabulary : Vocabulary) (root node : Node) : Move → Option Node
  | child number namedOnly => (node.child? number namedOnly).map (·.node)
  | field name => node.childInField? (vocabulary.fieldNamed name)
  | fieldNumber number => node.childInField? number
  | parent => node.parent? root
  | next namedOnly => node.next? root namedOnly
  | previous namedOnly => node.previous? root namedOnly
  | descendant first stop anonymous => node.smallest? first stop anonymous

/-- Moves from a node to another one. -/
def move (ref : NodeRef) (move : Move) : Work (Option NodeRef) := do
  let document ← document ref.document
  match move.target document.language.vocabulary document.root (← node ref) with
  | some target => return some (← handOut ref.document target)
  | none => return none

/-- A line of an outline: how deep a node is, the field it is shown in, and the node. -/
structure OutlineLine where
  depth : Nat
  field : Option String
  node : Node
  brief : Document.Brief

mutual

/-- The outline of a node and of what is below it, at most `fuel` levels of it. -/
def outlineFrom (ref : NodeRef) (depth : Nat) (field : Option String) :
    Nat → Work (List OutlineLine)
  | 0 => return []
  | fuel + 1 => do
    let line : OutlineLine := ⟨depth, field, ← node ref, ← brief ref⟩
    let below ← outlineAll (depth + 1) (← children ref false) (← childFieldNames ref) fuel
    return line :: below

/-- The outlines of nodes, each with its field. -/
def outlineAll (depth : Nat) (refs : List NodeRef) (fields : List (Option String)) :
    Nat → Work (List OutlineLine)
  | 0 => return []
  | fuel + 1 => do
    match refs, fields with
    | ref :: refs, field :: fields =>
      let first ← outlineFrom ref depth field fuel
      return first ++ (← outlineAll depth refs fields fuel)
    | _, _ => return []

end

/-- All visible nodes at and below a node in document order. -/
def outline (ref : NodeRef) : Work (List OutlineLine) := do
  outlineFrom ref 0 none (2 * (← node ref).tree.count)

/-- The bytes that a node covers in a text, none if the text is too short. -/
def content (ref : NodeRef) (text : Text) : Work Text := do
  let span := (← node ref).span
  return Query.sliceOf text span.start.bytes span.stop.bytes

/-- The characters that a node covers in a text that must reach that far. -/
def characters (ref : NodeRef) (text : Text) : Work (Except Utf8.Malformed String) := do
  let span := (← node ref).span
  if span.start.bytes ≤ span.stop.bytes ∧ span.stop.bytes ≤ text.size then
    return Utf8.check (text.extract span.start.bytes span.stop.bytes)
  else throw .outOfText

end Work

end Reparse
