import Reparse.Node.Cursor
import Reparse.Workspace.Basic

/-!
# Cursors on documents

A cursor on a document of the workspace. It moves through the tree that it was started on; the node
it stands on is handed out by the document.
-/

namespace Reparse

/-- A cursor on a document. -/
structure DocumentCursor where
  document : DocumentRef
  cursor : Cursor

namespace DocumentCursor

/-- A move of a cursor. -/
inductive Move where
  | firstChild
  | lastChild
  | parent
  | next
  | previous
  | childPastByte (goal : Nat)
  | childPastPoint (goal : Point)
  deriving DecidableEq, Repr

/-- The result of a move: whether the cursor moved, or the number of the child it went to. -/
inductive Arrival where
  | moved (done : Bool)
  | child (number : Option Nat)
  deriving DecidableEq, Repr

def Arrival.ofStep (step : Bool × Cursor) : Arrival × Cursor := (.moved step.1, step.2)

def Arrival.ofSearch (cursor : Cursor) : Option (Nat × Cursor) → Arrival × Cursor
  | some (number, reached) => (.child (some number), reached)
  | none => (.child none, cursor)

def Move.perform (cursor : Cursor) : Move → Arrival × Cursor
  | firstChild => Arrival.ofStep cursor.firstChild
  | lastChild => Arrival.ofStep cursor.lastChild
  | parent => Arrival.ofStep cursor.parent
  | next => Arrival.ofStep cursor.nextSibling
  | previous => Arrival.ofStep cursor.previousSibling
  | childPastByte goal => Arrival.ofSearch cursor (cursor.childPastByte? goal)
  | childPastPoint goal => Arrival.ofSearch cursor (cursor.childPastPoint? goal)

def move (walk : DocumentCursor) (move : Move) : Arrival × DocumentCursor :=
  let (arrival, cursor) := move.perform walk.cursor
  (arrival, { walk with cursor })

/-- A cursor on a node in its current form. -/
def new (ref : NodeRef) : Work DocumentCursor := do
  return ⟨ref.document, Cursor.new (← Work.node ref)⟩

/-- Hands out the node that the cursor stands on. -/
def current (walk : DocumentCursor) : Work NodeRef := Work.handOut walk.document walk.cursor.node

/-- The name of the field that the cursor's node is shown in. -/
def fieldName (walk : DocumentCursor) : Work (Option String) := do
  return (← Work.document walk.document).language.vocabulary.fieldName? walk.cursor.field

/-- How the cursor is shown to a developer. -/
def summary (walk : DocumentCursor) : Work String := do
  return "TreeCursor \x7b node: " ++ (← Work.shownNode (← walk.current)) ++ ", depth: " ++
    toString walk.cursor.depth ++ " \x7d"

end DocumentCursor

end Reparse
