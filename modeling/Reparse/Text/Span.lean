import Reparse.Text.Edit

/-!
# Spans and span lists

A `Span` is the text between two positions. Lists of spans say which parts of a document a parser
may see, and which parts changed between two trees; in both uses the spans are in order and do not
overlap.

`Span.symmetricDifference` walks the boundaries of two lists at once. Every step consumes a
boundary, so it ends whatever the lists are.
-/

namespace Reparse

/-- The text from `start` up to, not including, `stop`. -/
structure Span where
  start : Extent
  stop : Extent
  deriving DecidableEq, Repr

namespace Span

/-- All of any document. -/
def whole : Span := ⟨Extent.zero, Extent.max⟩

def isEmpty (span : Span) : Bool := span.stop.bytes == span.start.bytes

/-- The span in the edited document. An end that means "to the end of the text" stays there. -/
def shift (span : Span) (edit : Edit) : Span where
  start := edit.shift span.start
  stop := if span.stop.bytes = maxOffset then span.stop else edit.shift span.stop

/-- The index of the first span that starts before `reached` or ends before it starts, where
`reached` is the end of the spans before it. -/
def firstMisplacedFrom (reached index : Nat) : List Span → Option Nat
  | [] => none
  | span :: rest =>
    if span.start.bytes < reached ∨ span.stop.bytes < span.start.bytes then some index
    else firstMisplacedFrom span.stop.bytes (index + 1) rest

/-- The index of the first span that breaks the order, if the list is not in order. -/
def firstMisplaced (spans : List Span) : Option Nat := firstMisplacedFrom 0 0 spans

/-- Adds a stretch to a list of spans whose latest member comes first. A stretch that touches the
latest span moves that span's end; otherwise it is added unless it is empty. -/
def extend (latest : List Span) (start stop : Extent) : List Span :=
  match latest with
  | last :: rest =>
    if start.bytes ≤ last.stop.bytes then ⟨last.start, stop⟩ :: rest
    else if start.bytes < stop.bytes then ⟨start, stop⟩ :: latest
    else latest
  | [] => if start.bytes < stop.bytes then [⟨start, stop⟩] else []

/-- Whether the first span that ends after `start` begins before `stop`. -/
def anyMeets (spans : List Span) (start stop : Nat) : Bool :=
  match spans with
  | [] => false
  | span :: rest =>
    if start < span.stop.bytes then decide (span.start.bytes < stop) else anyMeets rest start stop

/-- The starts and ends of the spans, in order. -/
def boundaries : List Span → List Extent
  | [] => []
  | span :: rest => span.start :: span.stop :: boundaries rest

/-- The walk behind `symmetricDifference`: the boundaries that lie ahead on either side, whether
the place reached is inside a span of either side, and the stretches found so far, latest first.
A side without boundaries has its next one at the end of everything. -/
def differences (inOld inNew : Bool) (reached : Extent) (found : List Span)
    (old new : List Extent) : List Span :=
  let grown (place : Extent) := if inOld != inNew then extend found reached place else found
  match old, new with
  | [], [] => found
  | place :: old, [] =>
    if place.bytes < maxOffset then differences (!inOld) inNew place (grown place) old []
    else differences (!inOld) (!inNew) Extent.max (grown Extent.max) old []
  | [], place :: new =>
    if place.bytes < maxOffset then differences inOld (!inNew) place (grown place) [] new
    else differences (!inOld) (!inNew) place (grown place) [] new
  | oldPlace :: oldRest, newPlace :: newRest =>
    if oldPlace.bytes < newPlace.bytes then
      differences (!inOld) inNew oldPlace (grown oldPlace) oldRest (newPlace :: newRest)
    else if newPlace.bytes < oldPlace.bytes then
      differences inOld (!inNew) newPlace (grown newPlace) (oldPlace :: oldRest) newRest
    else differences (!inOld) (!inNew) newPlace (grown newPlace) oldRest newRest
termination_by old.length + new.length

/-- The stretches that exactly one of the two lists covers. -/
def symmetricDifference (old new : List Span) : List Span :=
  (differences false false Extent.zero [] (boundaries old) (boundaries new)).reverse

end Span

end Reparse
