import Reparse.Query.Pattern

/-!
# Solutions

A pattern can match a node in several ways, each with its own captured nodes. `Pattern.solutions`
lists all of them: alternatives in order, and for a list of child patterns every increasing choice
of children, in lexicographic order. The captures of a node come before those of its children.
-/

namespace Reparse

/-- The captured nodes of one way to match, each with the number of its capture. -/
abbrev Captures := List (Nat × Node)

/-- Each member of a list together with the members after it. -/
def withRest {α : Type} : List α → List (α × List α)
  | [] => []
  | head :: rest => (head, rest) :: withRest rest

namespace Pattern

mutual

/-- The ways in which a pattern matches a node that is shown in a field. -/
def solutions (shown : Nat) (candidate : Node) : Pattern → List Captures
  | node matcher children absent field captures =>
    if field ≠ 0 ∧ field ≠ shown then []
    else if !matcher.accepts candidate then []
    else if absent.any fun field => (candidate.childInField? field).isSome then []
    else
      let found :=
        if children.isEmpty then [[]] else solutionsAmong candidate.children children
      found.map fun solution => captures.map (fun capture => (capture, candidate)) ++ solution
  | oneOf alternatives field captures =>
    if field ≠ 0 ∧ field ≠ shown then []
    else
      (solutionsOfAny shown candidate alternatives).map fun solution =>
        captures.map (fun capture => (capture, candidate)) ++ solution

/-- The ways in which one of some patterns matches a node. -/
def solutionsOfAny (shown : Nat) (candidate : Node) : List Pattern → List Captures
  | [] => []
  | pattern :: rest => solutions shown candidate pattern ++ solutionsOfAny shown candidate rest

/-- The ways in which patterns match some of the siblings in order. -/
def solutionsAmong (siblings : List Child) : List Pattern → List Captures
  | [] => [[]]
  | pattern :: rest =>
    (withRest siblings).flatMap fun (sibling, later) =>
      match solutions sibling.field sibling.node pattern with
      | [] => []
      | heads =>
        let tails := solutionsAmong later rest
        heads.flatMap fun head => tails.map fun tail => head ++ tail

end

end Pattern

end Reparse
