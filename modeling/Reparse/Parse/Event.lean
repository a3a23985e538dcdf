import Reparse.Parse.Fault
import Reparse.Syntax.Tree

/-!
# Events

A parse records a flat list of events: a node opens, a leaf or a whole subtree is added, a node
closes. A node that is to be wrapped afterwards holds the distance to the opening of its wrapper,
which stands later in the list but opens earlier in the tree.

`Event.fold?` turns the list into the trees it describes. It visits the events in order. Where an
opening has wrappers, the chain of wrappers is followed and the outermost one opens first; each
visited opening is blanked so that it does not open twice. An opening that was never completed is
transparent.
-/

namespace Reparse

/-- A step in the record of a parse. -/
inductive Event where
  /-- A node opens; it has a symbol once it is completed. -/
  | opening (symbol : Option Nat) (wrapper : Option Nat) (field state : Nat)
  /-- A finished subtree is added. -/
  | added (tree : Tree) (wrapper : Option Nat) (field : Nat)
  /-- The innermost open node closes. -/
  | closing

namespace Event

/-- An opening that opens nothing. -/
def blank : Event := opening none none 0 noState

/-- The opening of a node as the fold needs it. -/
structure Opening where
  symbol : Option Nat
  field : Nat
  state : Nat

/-- A node that is open during the fold, its children latest first. -/
structure Frame where
  symbol : Nat
  field : Nat
  state : Nat
  children : List (Edge Tree)

/-- The node of a frame that closes. -/
def Frame.close (vocabulary : Vocabulary) (frame : Frame) : Edge Tree :=
  let children := frame.children.reverse
  ⟨frame.field,
    if frame.symbol = errorSymbol then Tree.error children
    else Tree.branch frame.symbol frame.state (vocabulary.kind frame.symbol) children⟩

/-- The state of a fold: the frames of the open nodes, innermost first, and the finished edges
outside of all of them, latest first. -/
structure Folding where
  frames : List Frame
  finished : List (Edge Tree)

namespace Folding

/-- Adds an edge to the innermost open node. -/
def add (folding : Folding) (edge : Edge Tree) : Folding :=
  match folding.frames with
  | [] => { folding with finished := edge :: folding.finished }
  | frame :: rest =>
    { folding with frames := { frame with children := edge :: frame.children } :: rest }

/-- Opens a node inside the innermost open one, unless it was never completed. -/
def openNode (folding : Folding) (opening : Opening) : Folding :=
  match opening.symbol with
  | none => folding
  | some symbol =>
    { folding with frames := ⟨symbol, opening.field, opening.state, []⟩ :: folding.frames }

/-- Closes the innermost open node, if one is open. -/
def closeNode (vocabulary : Vocabulary) (folding : Folding) : Folding :=
  match folding.frames with
  | [] => folding
  | frame :: rest => Folding.add { folding with frames := rest } (frame.close vocabulary)

end Folding

/-- Follows the wrappers from the event at `index` on and blanks them. The result lists them from
the outermost one to the ones in `inner`. -/
def followWrappers (events : Array Event) (index : Nat) (inner : List Opening) :
    Option Nat → Except Fault (Array Event × List Opening)
  | none => .ok (events, inner)
  | some distance =>
    let target := index + distance
    match events[target]? with
    | none => .error .wrapperMissing
    | some (opening symbol wrapper field state) =>
      let inner := ⟨symbol, field, state⟩ :: inner
      if index < target ∧ target < events.size then
        followWrappers (events.setIfInBounds target blank) target inner wrapper
      else .ok (events, inner)
    | some _ => .error .notOpen
termination_by events.size - index
decreasing_by simp only [Array.size_setIfInBounds]; omega

/-- Folds the events from `index` on. -/
def foldFrom (vocabulary : Vocabulary) (events : Array Event) (index : Nat) (folding : Folding) :
    Nat → Except Fault Folding
  | 0 => .ok folding
  | count + 1 =>
    match events[index]? with
    | none => .ok folding
    | some closing =>
      foldFrom vocabulary events (index + 1) (folding.closeNode vocabulary) count
    | some (opening none none _ _) => foldFrom vocabulary events (index + 1) folding count
    | some (opening symbol wrapper field state) =>
      match followWrappers events index [⟨symbol, field, state⟩] wrapper with
      | .error fault => .error fault
      | .ok (events, openings) =>
        foldFrom vocabulary events (index + 1) (openings.foldl Folding.openNode folding) count
    | some (added tree wrapper field) =>
      match followWrappers events index [] wrapper with
      | .error fault => .error fault
      | .ok (events, openings) =>
        foldFrom vocabulary events (index + 1)
          ((openings.foldl Folding.openNode folding).add ⟨field, tree⟩) count

/-- The trees that a list of events describes, with the fields set on them. -/
def fold? (vocabulary : Vocabulary) (events : Array Event) : Except Fault (List (Edge Tree)) :=
  match foldFrom vocabulary events 0 ⟨[], []⟩ events.size with
  | .error fault => .error fault
  | .ok folding => .ok folding.finished.reverse

end Event

end Reparse
