import Reparse.Syntax.Tree

/-!
# Finding subtrees to use again

A parse of an edited document may take over subtrees of the edited old tree. `Tree.findReusable`
looks for the outermost one that begins at a position, padding included, was completed in a given
state, and can be relied on: no edit touched it and there is no error in it.
-/

namespace Reparse

namespace Info

/-- Whether a node that would end at `stop` can stand in a document of `length` bytes. -/
def isReusable (info : Info) (state length stop : Nat) : Bool :=
  info.state == state && !info.changed && !info.hasError && !info.extra && !info.missing &&
    decide (0 < info.size.bytes) && decide (stop ≤ length)

end Info

namespace Tree

mutual

/-- The search below a tree that begins at `start`. -/
def findBelow (position state length start : Nat) : Tree → Option Tree
  | node _ children => findAmong position state length start children

/-- The search among children of which the first begins at `start`. -/
def findAmong (position state length start : Nat) : List (Edge Tree) → Option Tree
  | [] => none
  | ⟨_, child⟩ :: rest =>
    let stop := start + child.total.bytes
    if position < start then none
    else if start = position ∧ child.info.isReusable state length stop then some child
    else if position < stop then findBelow position state length start child
    else findAmong position state length stop rest

end

/-- The outermost subtree that begins at `position` and can be used again in `state` for a document
of `length` bytes. The tree itself is never used again as a whole. -/
def findReusable (tree : Tree) (length position state : Nat) : Option Tree :=
  if state = noState then none else tree.findBelow position state length 0

end Tree

end Reparse
