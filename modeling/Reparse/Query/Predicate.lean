import Reparse.Regex.Basic
import Reparse.Text.Extent

/-!
# Predicates

A pattern can carry predicates. Those on the text of captured nodes are tested here; the others are
kept for whoever runs the query.

A capture may stand for several nodes or for none. A test asks for all of its nodes, or for any of
them; a test for any is met by a capture without nodes, like a test for all.
-/

namespace Reparse

/-- An argument of a predicate. -/
inductive Argument where
  | capture (index : Nat)
  | string (value : String)
  deriving DecidableEq, Repr

/-- A predicate that is left to whoever runs the query. -/
structure Predicate where
  operator : String
  arguments : List Argument
  deriving DecidableEq, Repr

/-- A test of the text of captured nodes. `positive` tells whether the texts should or should not be
as described, `all` whether the test asks for all nodes. -/
inductive TextTest where
  | equalsString (capture : Nat) (value : String) (positive all : Bool)
  | equalsCapture (left right : Nat) (positive all : Bool)
  | matchesRegex (capture : Nat) (regex : Regex) (positive all : Bool)
  | isOneOf (capture : Nat) (values : List String) (positive : Bool)

/-- Whether all members pass, or whether any does or there is none. -/
def anyOrAll {α : Type} (all : Bool) (passes : α → Bool) (members : List α) : Bool :=
  if all then members.all passes else members.isEmpty || members.any passes

/-- The bytes of a string. -/
def stringBytes (value : String) : Text := value.toUTF8.data

/-- Whether a test is met, given the texts of each capture. -/
def TextTest.isMet (texts : Nat → List Text) : TextTest → Bool
  | equalsString capture value positive all =>
    anyOrAll all (fun text => (text == stringBytes value) == positive) (texts capture)
  | equalsCapture left right positive all =>
    anyOrAll all (fun (left, right) => (left == right) == positive)
      ((texts left).zip (texts right))
  | matchesRegex capture regex positive all =>
    anyOrAll all (fun text => regex.matchesIn text == positive) (texts capture)
  | isOneOf capture values positive =>
    (texts capture).all fun text =>
      (values.any fun value => stringBytes value == text) == positive

end Reparse
