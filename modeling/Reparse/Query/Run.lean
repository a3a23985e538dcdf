import Reparse.Node.Cursor
import Reparse.Query.Basic
import Reparse.Query.Match

/-!
# Running queries

A run visits the node it was started on and the visible nodes below it in document order, and finds
the matches of every pattern that begin at the node visited. A run can be restricted to byte and
point ranges: a node outside of them is neither matched nor descended into.

Matches are delivered as they are found. Captures are delivered in document order: a capture is held
back until the run has reached a node that starts after it, since none found later can start before
that node.
-/

namespace Reparse

/-- Whether what lies between `start` and `stop` meets a range. An empty stretch meets it where it
lies in it. -/
def meetsRange {α : Type} (before : α → α → Bool) (start stop : α) (range : α × α) : Bool :=
  if !before start stop && !before stop start then
    !before start range.1 && before start range.2
  else before start range.2 && before range.1 stop

/-- A match: the number of its pattern and the captured nodes. -/
structure RawMatch where
  pattern : Nat
  captures : Captures

/-- A capture that waits for its turn. -/
structure PendingCapture where
  start : Nat
  order : Nat
  found : RawMatch
  index : Nat

/-- The state of a run. -/
structure QueryRun where
  query : Query
  /-- The root of the tree when the run was started. -/
  root : Node
  cursor : Cursor
  /-- How far the node of the run is below the root. -/
  startDepth : Nat
  /-- A bound on the nodes left to visit. -/
  budget : Nat
  bytes : Nat × Nat
  points : Point × Point
  isStarted : Bool
  isFinished : Bool
  /-- Whether the node visited last lies in the ranges. -/
  inRange : Bool
  /-- Where the node visited last starts. -/
  frontier : Nat
  /-- Matches that were found and not delivered, in order. -/
  queue : List RawMatch
  pending : List PendingCapture
  /-- The number of captures found. -/
  found : Nat

namespace QueryRun

def allBytes : Nat × Nat := (0, maxOffset)
def allPoints : Point × Point := (Point.zero, ⟨maxOffset, maxOffset⟩)

/-- A run of a query on a node of the tree with the given root. -/
def new (query : Query) (root node : Node) : QueryRun where
  query := query
  root := root
  cursor := Cursor.new node
  startDepth := node.trail.length
  budget := node.tree.count + 1
  bytes := allBytes
  points := allPoints
  isStarted := false
  isFinished := false
  inRange := false
  frontier := 0
  queue := []
  pending := []
  found := 0

/-- The next node after the cursor's that is not below it, climbing at most `height` times. -/
def following (cursor : Cursor) : Nat → Option Cursor
  | 0 => none
  | height + 1 =>
    match cursor.nextSibling with
    | (true, next) => some next
    | (false, cursor) =>
      match cursor.parent with
      | (true, parent) => following parent height
      | (false, _) => none

/-- Where the run goes next, if it is not over. -/
def nextPlace (run : QueryRun) : Option Cursor :=
  if !run.isStarted then some run.cursor
  else
    match run.inRange, run.cursor.firstChild with
    | true, (true, child) => some child
    | true, (false, cursor) => following cursor (cursor.around.length + 1)
    | false, _ => following run.cursor (run.cursor.around.length + 1)

/-- Visits the next node: the node and the field it is shown in. -/
def visitNext (run : QueryRun) : Option Child × QueryRun :=
  if run.isFinished then (none, run)
  else
    match run.nextPlace with
    | none => (none, { run with isFinished := true })
    | some cursor =>
      let node := cursor.node
      let inRange :=
        meetsRange (fun left right => decide (left < right)) node.start.bytes node.stop.bytes
            run.bytes &&
          meetsRange Point.before node.start.point node.stop.point run.points
      (some ⟨node, cursor.field⟩,
        { run with
          cursor, inRange
          isStarted := true
          frontier := node.start.bytes })

/-- The siblings after a node. The node of the run has none. -/
def siblingsAfter (run : QueryRun) (node : Node) : List Child :=
  if node.trail.length ≤ run.startDepth then []
  else
    match node.siblings? run.root with
    | none => []
    | some (_, after) => after

/-- The ways in which the siblings of a pattern match, beginning at a visited node. -/
def solutionsAt (run : QueryRun) (visited : Child) (sequence : List Pattern) : List Captures :=
  match sequence with
  | [] => []
  | first :: rest =>
    match first.solutions visited.field visited.node with
    | [] => []
    | heads =>
      let tails :=
        if rest.isEmpty then [[]]
        else Pattern.solutionsAmong (run.siblingsAfter visited.node) rest
      heads.flatMap fun head => tails.map fun tail => head ++ tail

/-- The matches that begin at a visited node, from the pattern with number `index` on. -/
def matchesFrom (run : QueryRun) (visited : Child) (index : Nat) :
    List QueryPattern → List RawMatch
  | [] => []
  | pattern :: rest =>
    (run.solutionsAt visited pattern.sequence).map (fun captures => ⟨index, captures⟩) ++
      run.matchesFrom visited (index + 1) rest

def matchesAt (run : QueryRun) (visited : Child) : List RawMatch :=
  run.matchesFrom visited 0 run.query.patterns.toList

/-- The matches at the next node of the run, none if it lies outside of the ranges. There is no
result after the last node. -/
def visitMatches (run : QueryRun) : Option (List RawMatch) × QueryRun :=
  match run.visitNext with
  | (none, run) => (none, run)
  | (some visited, run) => (some (if run.inRange then run.matchesAt visited else []), run)

/-! ## Matches -/

/-- The next match, looked for at no more than `fuel` nodes. -/
def searchMatch (run : QueryRun) : Nat → Option RawMatch × QueryRun
  | 0 => (none, run)
  | fuel + 1 =>
    match run.queue with
    | found :: queue => (some found, { run with queue })
    | [] =>
      match run.visitMatches with
      | (none, run) => (none, run)
      | (some found, run) => searchMatch { run with queue := found } fuel

/-- The next match. -/
def nextMatch (run : QueryRun) : Option RawMatch × QueryRun := run.searchMatch (run.budget + 1)

/-- All matches that are left, looked for at no more than `fuel` nodes. -/
def remainingMatches (run : QueryRun) : Nat → List RawMatch × QueryRun
  | 0 => ([], run)
  | fuel + 1 =>
    match run.visitMatches with
    | (none, last) => (run.queue, { last with queue := [] })
    | (some found, next) =>
      let (more, last) := remainingMatches { next with queue := found } fuel
      (run.queue ++ more, last)

/-- All matches that are left. -/
def allMatches (run : QueryRun) : List RawMatch × QueryRun := run.remainingMatches (run.budget + 1)

/-! ## Captures -/

/-- Whether a capture comes before another one: by where it starts, then by when it was found. -/
def PendingCapture.precedes (left right : PendingCapture) : Bool :=
  left.start < right.start || (left.start == right.start && left.order < right.order)

/-- The first of some captures in document order, and the others. -/
def takeFirst (best : PendingCapture) (others : List PendingCapture) :
    List PendingCapture → PendingCapture × List PendingCapture
  | [] => (best, others.reverse)
  | capture :: rest =>
    if PendingCapture.precedes capture best then takeFirst capture (best :: others) rest
    else takeFirst best (capture :: others) rest

/-- The capture whose turn it is, if there is one. -/
def readyCapture (run : QueryRun) : Option (PendingCapture × QueryRun) :=
  match run.pending with
  | [] => none
  | capture :: rest =>
    let (first, others) := takeFirst capture [] rest
    if run.isFinished || decide (first.start < run.frontier) then
      some (first, { run with pending := others })
    else none

/-- The captures of a match, numbered in the order in which they are found. -/
def pendingOf (found : RawMatch) (order index : Nat) : Captures → List PendingCapture
  | [] => []
  | (_, node) :: rest =>
    ⟨node.start.bytes, order, found, index⟩ :: pendingOf found (order + 1) (index + 1) rest

/-- Puts the captures of matches among those that wait. -/
def await (run : QueryRun) : List RawMatch → QueryRun
  | [] => run
  | found :: rest =>
    await
      { run with
        pending := run.pending ++ pendingOf found run.found 0 found.captures
        found := run.found + found.captures.length }
      rest

/-- The next capture, looked for at no more than `fuel` nodes. -/
def searchCapture (run : QueryRun) : Nat → Option PendingCapture × QueryRun
  | 0 => (none, run)
  | fuel + 1 =>
    match run.readyCapture with
    | some (capture, run) => (some capture, run)
    | none =>
      if run.isFinished then (none, run)
      else
        match run.visitMatches with
        | (none, run) => searchCapture run fuel
        | (some found, run) => searchCapture (run.await found) fuel

/-- The next capture: the match it belongs to and its index there. -/
def nextCapture (run : QueryRun) : Option (RawMatch × Nat) × QueryRun :=
  match run.searchCapture (run.budget + 2) with
  | (none, run) => (none, run)
  | (some capture, run) => (some (capture.found, capture.index), run)

/-- The captures whose turn it is, at most `fuel` of them. -/
def readyCaptures (run : QueryRun) : Nat → List (RawMatch × Nat) × QueryRun
  | 0 => ([], run)
  | fuel + 1 =>
    match run.readyCapture with
    | none => ([], run)
    | some (capture, run) =>
      let (more, run) := readyCaptures run fuel
      ((capture.found, capture.index) :: more, run)

/-- All captures that are left, looked for at no more than `fuel` nodes. -/
def remainingCaptures (run : QueryRun) : Nat → List (RawMatch × Nat) × QueryRun
  | 0 => ([], run)
  | fuel + 1 =>
    let (ready, run) := run.readyCaptures run.pending.length
    if run.isFinished then (ready, run)
    else
      let run := match run.visitMatches with
        | (none, run) => run
        | (some found, run) => run.await found
      let (more, run) := remainingCaptures run fuel
      (ready ++ more, run)

/-- All captures that are left. -/
def allCaptures (run : QueryRun) : List (RawMatch × Nat) × QueryRun :=
  run.remainingCaptures (run.budget + 2)

end QueryRun

end Reparse
