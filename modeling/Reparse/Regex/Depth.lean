import Reparse.Regex.Expression
import Reparse.Regex.Mistake

/-!
# Depth of nesting

Groups, repetitions, sequences, choices, sets between brackets and what joins members in them may be
nested up to a limit. `Expression.tooDeep?` finds the first part, in the order of the text, that is
nested more deeply.
-/

namespace Reparse

namespace Regex

mutual

/-- Where the first part of a set that is nested too deeply starts, inside `depth` other parts. -/
def SetExpression.tooDeep? (depth : Nat) : SetExpression → Option Nat
  | .empty | .literal _ | .range _ _ | .ascii _ _ | .escaped _ => none
  | .bracketed start _ body =>
    if depthLimit ≤ depth then some start else body.tooDeep? (depth + 1)
  | .several start members =>
    if depthLimit ≤ depth then some start else SetExpression.anyTooDeep? (depth + 1) members
  | .operation start _ left right =>
    if depthLimit ≤ depth then some start
    else (left.tooDeep? (depth + 1)).or (right.tooDeep? (depth + 1))

/-- Where the first part of some sets that is nested too deeply starts. -/
def SetExpression.anyTooDeep? (depth : Nat) : List SetExpression → Option Nat
  | [] => none
  | set :: sets => (set.tooDeep? depth).or (SetExpression.anyTooDeep? depth sets)

end

mutual

/-- Where the first part of an expression that is nested too deeply starts, inside `depth` other
parts. -/
def Expression.tooDeep? (depth : Nat) : Expression → Option Nat
  | .empty | .flags _ | .literal _ | .dot | .assertion _ => none
  | .oneOf set => set.tooDeep? depth
  | .repetition start _ _ body | .group start _ body =>
    if depthLimit ≤ depth then some start else body.tooDeep? (depth + 1)
  | .sequence start parts | .choice start parts =>
    if depthLimit ≤ depth then some start else Expression.anyTooDeep? (depth + 1) parts

/-- Where the first part of some expressions that is nested too deeply starts. -/
def Expression.anyTooDeep? (depth : Nat) : List Expression → Option Nat
  | [] => none
  | part :: parts => (part.tooDeep? depth).or (Expression.anyTooDeep? depth parts)

end

end Regex

end Reparse
