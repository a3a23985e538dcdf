import Reparse.Query.Run
import Reparse.Workspace.Basic

/-!
# Queries on documents

A query cursor runs one query at a time on a node of a document. The nodes of the matches it
delivers are handed out by the document, before the text tests of the query are looked at.
-/

namespace Reparse

/-- A match with the nodes that were handed out for it. -/
structure QueryMatch where
  pattern : Nat
  captures : List (Nat × NodeRef)
  deriving DecidableEq, Repr

/-- A cursor that runs queries: the ranges it is restricted to, and the run that is going on. -/
structure QueryCursor where
  bytes : Nat × Nat
  points : Point × Point
  run : Option (DocumentRef × QueryRun)

namespace QueryCursor

def new : QueryCursor := ⟨QueryRun.allBytes, QueryRun.allPoints, none⟩

/-- Restricts the cursor, and the run that is going on, to a range of bytes. -/
def setBytes (cursor : QueryCursor) (bytes : Nat × Nat) : QueryCursor :=
  { cursor with bytes, run := cursor.run.map fun (ref, run) => (ref, { run with bytes }) }

/-- Restricts the cursor, and the run that is going on, to a range of points. -/
def setPoints (cursor : QueryCursor) (points : Point × Point) : QueryCursor :=
  { cursor with points, run := cursor.run.map fun (ref, run) => (ref, { run with points }) }

/-- Starts to run a query on a node, which must belong to a tree of the query's language. -/
def exec (cursor : QueryCursor) (query : Query) (ref : NodeRef) : Work QueryCursor := do
  let document ← Work.document ref.document
  if !query.language.isSame document.language then
    throw (.foreignQuery query.language.name document.language.name)
  let run := QueryRun.new query document.root (← Work.node ref)
  return { cursor with
    run := some (ref.document, { run with bytes := cursor.bytes, points := cursor.points }) }

/-- Hands out the captured nodes of a match. -/
def deliver (ref : DocumentRef) (found : RawMatch) : Work QueryMatch := do
  let nodes ← Work.handOutAll ref (found.captures.map (·.2))
  return ⟨found.pattern, (found.captures.map (·.1)).zip nodes⟩

/-- The next match of the run that is going on. -/
def nextMatch (cursor : QueryCursor) : Work (Option QueryMatch × QueryCursor) := do
  match cursor.run with
  | none => return (none, cursor)
  | some (ref, run) =>
    match run.nextMatch with
    | (none, run) => return (none, { cursor with run := some (ref, run) })
    | (some found, run) =>
      return (some (← deliver ref found), { cursor with run := some (ref, run) })

/-- The next capture of the run that is going on: its match and its index there. -/
def nextCapture (cursor : QueryCursor) : Work (Option (QueryMatch × Nat) × QueryCursor) := do
  match cursor.run with
  | none => return (none, cursor)
  | some (ref, run) =>
    match run.nextCapture with
    | (none, run) => return (none, { cursor with run := some (ref, run) })
    | (some (found, index), run) =>
      return (some (← deliver ref found, index), { cursor with run := some (ref, run) })

/-- The byte ranges of the captured nodes in their current form. -/
def captureRanges : List (Nat × NodeRef) → Work (List (Nat × Nat × Nat))
  | [] => return []
  | (index, ref) :: rest => do
    let span := (← Work.node ref).span
    return (index, span.start.bytes, span.stop.bytes) :: (← captureRanges rest)

/-- Whether a match meets the text tests of its pattern in a query. -/
def isSatisfied (query : Query) (found : QueryMatch) (source : Text) : Work Bool := do
  return query.isSatisfied found.pattern (← captureRanges found.captures) source

/-- Whether a match meets the text tests of the query that is being run, if one is. -/
def passes (cursor : QueryCursor) (found : QueryMatch) (source : Text) : Work Bool :=
  match cursor.run with
  | none => return true
  | some (_, run) => isSatisfied run.query found source

/-- Delivers matches and keeps those that meet the text tests. -/
def deliverSatisfied (query : Query) (ref : DocumentRef) (source : Text) :
    List RawMatch → Work (List QueryMatch)
  | [] => return []
  | found :: rest => do
    let delivered ← deliver ref found
    if ← isSatisfied query delivered source then
      return delivered :: (← deliverSatisfied query ref source rest)
    else deliverSatisfied query ref source rest

/-- All matches of a query on a node that meet the text tests. -/
def allMatches (cursor : QueryCursor) (query : Query) (ref : NodeRef) (source : Text) :
    Work (List QueryMatch × QueryCursor) := do
  let started ← cursor.exec query ref
  match started.run with
  | none => return ([], started)
  | some (ref, run) =>
    let (found, run) := run.allMatches
    return (← deliverSatisfied query ref source found, { started with run := some (ref, run) })

/-- Delivers captures with their matches and keeps those whose matches meet the text tests. -/
def deliverCaptures (query : Query) (ref : DocumentRef) (source : Text) :
    List (RawMatch × Nat) → Work (List (QueryMatch × Nat))
  | [] => return []
  | (found, index) :: rest => do
    let delivered ← deliver ref found
    if ← isSatisfied query delivered source then
      return (delivered, index) :: (← deliverCaptures query ref source rest)
    else deliverCaptures query ref source rest

/-- All captures of a query on a node, in document order, whose matches meet the text tests. -/
def allCaptures (cursor : QueryCursor) (query : Query) (ref : NodeRef) (source : Text) :
    Work (List (QueryMatch × Nat) × QueryCursor) := do
  let started ← cursor.exec query ref
  match started.run with
  | none => return ([], started)
  | some (ref, run) =>
    let (found, run) := run.allCaptures
    return (← deliverCaptures query ref source found, { started with run := some (ref, run) })

end QueryCursor

/-- Where a pattern begins in the query text; there must be such a pattern. -/
def Query.patternStart (query : Query) (index : Nat) : Work Nat :=
  match query.patterns[index]? with
  | some pattern => return pattern.start
  | none => throw (.noPattern index query.patterns.size)

end Reparse
