import Reparse.Syntax.Tree
import Reparse.Text.Span

/-!
# The difference of two trees

`Tree.changedSpans` lists the stretches in which the visible structure of two trees differs, one of
them being an edited tree and the other a new parse of the edited document. It walks both trees at
once. Two subtrees that compare as equal are passed over whole; others are descended into until the
two sides line up again or are known to differ.

A walker stands in a node or in the padding before it. Its depth counts the visible nodes around it,
the node it stands in included; the root is counted whether it is visible or not.

The comparison has to bring both walkers to the same depth. A walker that has left its tree cannot
ascend any more; if that leaves it deeper than the other one the comparison never ends, and the
result is `none`.
-/

namespace Reparse

/-- A node on the way to where a walker stands. -/
structure WalkEntry where
  tree : Tree
  /-- Where the node begins, padding included. -/
  start : Extent
  /-- Whether it is the first child of its parent, as the root is too. -/
  first : Bool
  /-- Its later siblings. -/
  later : List (Edge Tree)

/-- A place in a tree. -/
structure Walker where
  /-- The nodes around the place, innermost first. None are left past the end of the tree. -/
  stack : List WalkEntry
  depth : Int
  /-- Whether the place is the padding of the innermost node. -/
  inPadding : Bool

namespace Walker

/-- A walker in the root of a tree. -/
def new (tree : Tree) : Walker := ⟨[⟨tree, Extent.zero, true, []⟩], 1, false⟩

def isDone (walker : Walker) : Bool := walker.stack.isEmpty

/-- Where the place begins. -/
def start (walker : Walker) : Extent :=
  match walker.stack with
  | [] => Extent.zero
  | entry :: _ =>
    if walker.inPadding then entry.start else entry.start + entry.tree.info.padding

/-- Where the place ends. -/
def stop (walker : Walker) : Extent :=
  match walker.stack with
  | [] => Extent.zero
  | entry :: _ =>
    if walker.inPadding then entry.start + entry.tree.info.padding
    else entry.start + entry.tree.total

/-- Whether the innermost node is visible. -/
def isVisible (walker : Walker) : Bool :=
  match walker.stack with
  | [] => false
  | entry :: _ => entry.tree.info.visible

/-- The innermost visible node around the place. The padding of a node lies outside of it. -/
def visibleNode? (walker : Walker) : Option WalkEntry :=
  let around := if walker.inPadding then walker.stack.drop 1 else walker.stack
  around.find? fun entry => entry.tree.info.visible

/-- Leaves the innermost node for its parent. -/
def ascend (walker : Walker) : Walker :=
  match walker.stack with
  | [] => walker
  | entry :: rest =>
    { stack := rest
      depth := if walker.isVisible && !walker.inPadding then walker.depth - 1 else walker.depth
      inPadding := walker.inPadding && entry.first }

mutual

/-- Enters the visible node below a tree that begins at `start` and reaches past `goal`, or the
padding before it. If there is none it stays in the hidden node reached last. -/
def enter (walker : Walker) (goal : Nat) (start : Extent) : Tree → Bool × Walker
  | .node _ children => enterAmong walker goal start true children

/-- The same for the children of a node from the one that begins at `start` on. -/
def enterAmong (walker : Walker) (goal : Nat) (start : Extent) (first : Bool) :
    List (Edge Tree) → Bool × Walker
  | [] => (false, walker)
  | ⟨_, child⟩ :: rest =>
    let left := start + child.info.padding
    let right := left + child.info.size
    if goal < right.bytes then
      let entered := { walker with stack := ⟨child, start, first, rest⟩ :: walker.stack }
      if child.info.visible then
        if goal < left.bytes then (true, { entered with inPadding := true })
        else (true, { entered with depth := entered.depth + 1 })
      else enter entered goal start child
    else enterAmong walker goal right false rest

end

/-- Enters the visible node below the innermost one that reaches past `goal`. From within padding
nothing can be entered. -/
def descend (walker : Walker) (goal : Nat) : Bool × Walker :=
  if walker.inPadding then (false, walker)
  else
    match walker.stack with
    | [] => (false, walker)
    | entry :: _ => walker.enter goal entry.start entry.tree

/-- Moves from the innermost node of a stack to what follows it. -/
def leave (depth : Int) : List WalkEntry → Walker
  | [] => ⟨[], depth, false⟩
  | entry :: around =>
    let depth := if entry.tree.info.visible then depth - 1 else depth
    match around, entry.later with
    | [], _ => ⟨[], depth, false⟩
    | _ :: _, [] => leave depth around
    | _ :: _, ⟨_, next⟩ :: later =>
      let stack := ⟨next, entry.start + entry.tree.total, false, later⟩ :: around
      if next.info.visible then
        if 0 < next.info.padding.bytes then ⟨stack, depth, true⟩ else ⟨stack, depth + 1, false⟩
      else ((Walker.mk stack depth false).descend 0).2

/-- Moves to the next place in reading order. -/
def advance (walker : Walker) : Walker :=
  if walker.inPadding then
    let inside := { walker with inPadding := false }
    if inside.isVisible then { inside with depth := inside.depth + 1 } else (inside.descend 0).2
  else leave walker.depth walker.stack

/-- Advances past all places that end at or before `goal`, in at most `fuel` moves. -/
def advancePast (goal : Nat) (walker : Walker) : Nat → Option Walker
  | 0 => none
  | fuel + 1 =>
    if !walker.isDone && decide (walker.stop.bytes ≤ goal) then advancePast goal walker.advance fuel
    else some walker

/-- Ascends from a stack of the given height until the depth is at most `depth`. -/
def ascendTo (depth : Int) (walker : Walker) : Nat → Option Walker
  | 0 => if depth < walker.depth then none else some walker
  | height + 1 => if depth < walker.depth then ascendTo depth walker.ascend height else some walker

/-- Ascends until the depth is at most `depth`, if it gets there. -/
def raiseTo (walker : Walker) (depth : Int) : Option Walker :=
  ascendTo depth walker walker.stack.length

end Walker

/-- What is known about two subtrees without looking into them. -/
inductive Comparison where
  | equal
  | maybeDifferent
  | different
  deriving DecidableEq, Repr

namespace Comparison

/-- Compares the innermost visible nodes at two places. They count as equal if they agree in kind,
place, size and cost and both carry a state to be used again in, unless the old one was edited. -/
def ofPlaces (old new : Walker) : Comparison :=
  match old.visibleNode?, new.visibleNode? with
  | none, none => equal
  | some oldEntry, some newEntry =>
    let oldInfo := oldEntry.tree.info
    let newInfo := newEntry.tree.info
    if oldInfo.symbol ≠ newInfo.symbol then different
    else if oldEntry.start.bytes ≠ newEntry.start.bytes ∨ oldInfo.isError ∨
        oldInfo.size.bytes ≠ newInfo.size.bytes ∨ oldInfo.state = noState ∨
        newInfo.state = noState ∨ oldInfo.cost ≠ newInfo.cost ∨ oldInfo.changed then
      maybeDifferent
    else equal
  | _, _ => different

end Comparison

namespace Tree

/-- The state of a comparison: both walkers, the place reached and the place to go to next, the
included stretches that differ and end after the place, and the changed stretches, latest first. -/
structure Diffing where
  old : Walker
  new : Walker
  reached : Extent
  next : Extent
  pending : List Span
  found : List Span

namespace Diffing

/-- What the places of the two walkers say about each other. Equal subtrees may still differ where
the included text does. -/
def compare (diffing : Diffing) : Comparison :=
  match Comparison.ofPlaces diffing.old diffing.new with
  | .equal =>
    if Span.anyMeets diffing.pending diffing.reached.bytes diffing.old.stop.bytes then
      .maybeDifferent
    else .equal
  | other => other

/-- Decides where to go next, descending if need be, and whether the stretch up to there changed. -/
def choose (diffing : Diffing) : Bool × Diffing :=
  let nearer (old new : Walker) : Extent := old.stop.shorter new.stop
  match diffing.compare with
  | .equal => (false, { diffing with next := diffing.old.stop })
  | .different => (true, { diffing with next := nearer diffing.old diffing.new })
  | .maybeDifferent =>
    match diffing.old.descend diffing.reached.bytes with
    | (true, old) =>
      match diffing.new.descend diffing.reached.bytes with
      | (true, new) => (false, { diffing with old, new })
      | (false, new) => (true, { diffing with old, new, next := old.stop })
    | (false, old) =>
      match diffing.new.descend diffing.reached.bytes with
      | (true, new) => (true, { diffing with old, new, next := new.stop })
      | (false, new) => (false, { diffing with old, new, next := nearer old new })

/-- One round: choose where to go, go there with both walkers and bring them to the same depth. -/
def round (diffing : Diffing) (fuel : Nat) : Option Diffing :=
  let (isChanged, diffing) := diffing.choose
  match diffing.old.advancePast diffing.next.bytes fuel,
    diffing.new.advancePast diffing.next.bytes fuel with
  | some old, some new =>
    match old.raiseTo new.depth with
    | none => none
    | some old =>
      match new.raiseTo old.depth with
      | none => none
      | some new =>
        some
          { old, new
            reached := diffing.next
            next := diffing.next
            pending := diffing.pending.dropWhile fun span => span.stop.bytes ≤ diffing.next.bytes
            found :=
              if isChanged then Span.extend diffing.found diffing.reached diffing.next
              else diffing.found }
  | _, _ => none

/-- Rounds until one of the trees is left. -/
def run (moves : Nat) (diffing : Diffing) : Nat → Option Diffing
  | 0 => none
  | fuel + 1 =>
    match diffing.round moves with
    | none => none
    | some next => if next.old.isDone || next.new.isDone then some next else run moves next fuel

/-- The beginning of a comparison. If the roots do not start at the same place, the stretch from
the first to the second start changed. -/
def begin (old new : Tree) (included : List Span) : Diffing :=
  let oldWalker := Walker.new old
  let newWalker := Walker.new new
  let oldStart := oldWalker.start
  let newStart := newWalker.start
  if oldStart.bytes < newStart.bytes then
    ⟨oldWalker, newWalker, newStart, newStart, included, Span.extend [] oldStart newStart⟩
  else if newStart.bytes < oldStart.bytes then
    ⟨oldWalker, newWalker, oldStart, oldStart, included, Span.extend [] newStart oldStart⟩
  else ⟨oldWalker, newWalker, oldStart, newStart, included, []⟩

end Diffing

/-- The stretches of the new tree that differ from the edited old tree, where `included` are the
stretches that exactly one of them was allowed to see. There is no result if the comparison does
not end. -/
def changedSpans (old new : Tree) (included : List Span) : Option (List Span) :=
  let moves := 2 * (old.count + new.count) + 2
  match (Diffing.begin old new included).run moves (moves * moves) with
  | none => none
  | some last =>
    let found :=
      if old.total.bytes < new.total.bytes then Span.extend last.found old.total new.total
      else if new.total.bytes < old.total.bytes then Span.extend last.found new.total old.total
      else last.found
    some found.reverse

end Tree

end Reparse
