/-!
# Faults

The ways in which a grammar can break the rules of the parsing interface. Each is the end of the
parse: there is no tree.
-/

namespace Reparse

/-- Why a parse came to no tree. -/
inductive Fault where
  /-- An open node was neither completed nor abandoned. -/
  | leftOpen
  /-- A node was to be wrapped in one that is not there. -/
  | wrapperMissing
  /-- A node was to be wrapped in, or completed as, something that is no open node. -/
  | notOpen
  /-- A rule used a node that it does not hold. -/
  | unknownNode
  /-- The scan or the grammar went on without end. -/
  | endless
  deriving DecidableEq, Repr

/-- The wording of a fault, where it has one. -/
def Fault.message? : Fault → Option String
  | .leftOpen => some "Marker must be either completed or abandoned"
  | _ => none

end Reparse
