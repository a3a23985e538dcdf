import Reparse.Text.Extent

/-!
# Edits

An edit replaces the text from `start` to `oldStop` by new text that ends at `newStop`. All three
are positions from the beginning of the document, the last one in the document after the edit.
-/

namespace Reparse

/-- The replacement of one stretch of a document by another. -/
structure Edit where
  start : Extent
  oldStop : Extent
  newStop : Extent
  deriving DecidableEq, Repr

namespace Edit

/-- Nothing is removed. -/
def isInsertion (edit : Edit) : Bool := edit.oldStop.bytes == edit.start.bytes

/-- Nothing is removed and nothing is added. -/
def isEmpty (edit : Edit) : Bool := edit.isInsertion && edit.newStop.bytes == edit.start.bytes

/-- The edit seen from `origin`; what lies before `origin` shrinks to nothing. -/
def relativeTo (edit : Edit) (origin : Extent) : Edit where
  start := edit.start.remainder origin
  oldStop := edit.oldStop.remainder origin
  newStop := edit.newStop.remainder origin

/-- Where a position goes: what follows the replaced text moves along with its end, and what was
inside it falls back to its start. -/
def shift (edit : Edit) (place : Extent) : Extent :=
  if edit.oldStop.bytes ≤ place.bytes then edit.newStop + (place - edit.oldStop)
  else if edit.start.bytes < place.bytes then edit.start
  else place

end Edit

end Reparse
