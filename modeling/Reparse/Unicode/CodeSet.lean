/-!
# Sets of codes

A set of code points, or of byte values, is kept by its boundaries: the codes at which membership
changes, in increasing order. A code is a member when an odd number of boundaries lie at or below
it. The complement then adds or drops a boundary at zero, and every other operation is one walk
through the boundaries of two sets (`combine`).

Large sets are written as lines of text, by the steps from each boundary to the next. A step is a
number in base 26 whose digits are letters; a capital is the last digit of its number.
-/

namespace Reparse

/-- A set of codes, by the codes at which membership changes. -/
structure CodeSet where
  boundaries : List Nat
  deriving DecidableEq, Repr

namespace CodeSet

/-- The set without members. -/
def empty : CodeSet := ⟨[]⟩

/-- The codes from `first` to `last`. -/
def range (first last : Nat) : CodeSet := if first ≤ last then ⟨[first, last + 1]⟩ else empty

/-- The set of one code. -/
def single (code : Nat) : CodeSet := range code code

/-- Whether a code is a member, given whether the codes before the boundaries are. -/
def containsFrom (inside : Bool) (code : Nat) : List Nat → Bool
  | [] => inside
  | boundary :: boundaries =>
    if code < boundary then inside else containsFrom (!inside) code boundaries

/-- Whether a code is a member. -/
def contains (set : CodeSet) (code : Nat) : Bool := containsFrom false code set.boundaries

/-- The codes that are not members. -/
def complement (set : CodeSet) : CodeSet :=
  match set.boundaries with
  | 0 :: boundaries => ⟨boundaries⟩
  | boundaries => ⟨0 :: boundaries⟩

/-- Puts a boundary before others if it changes whether codes belong. -/
def bound (before after : Bool) (boundary : Nat) (boundaries : List Nat) : List Nat :=
  if before == after then boundaries else boundary :: boundaries

/-- The boundaries of the codes that `keep` chooses by their membership in two sets. The membership
of the codes before the boundaries is given. -/
def combineFrom (keep : Bool → Bool → Bool) (inLeft inRight : Bool) (left right : List Nat) :
    List Nat :=
  let here := keep inLeft inRight
  match left, right with
  | [], [] => []
  | first :: left, [] =>
    bound here (keep (!inLeft) inRight) first (combineFrom keep (!inLeft) inRight left [])
  | [], second :: right =>
    bound here (keep inLeft (!inRight)) second (combineFrom keep inLeft (!inRight) [] right)
  | first :: left, second :: right =>
    if first < second then
      bound here (keep (!inLeft) inRight) first
        (combineFrom keep (!inLeft) inRight left (second :: right))
    else if second < first then
      bound here (keep inLeft (!inRight)) second
        (combineFrom keep inLeft (!inRight) (first :: left) right)
    else
      bound here (keep (!inLeft) (!inRight)) first
        (combineFrom keep (!inLeft) (!inRight) left right)
termination_by left.length + right.length

/-- The codes that `keep` chooses by their membership in two sets. It must not choose those that are
in neither. -/
def combine (keep : Bool → Bool → Bool) (left right : CodeSet) : CodeSet :=
  ⟨combineFrom keep false false left.boundaries right.boundaries⟩

/-- The codes in either set. -/
def union (left right : CodeSet) : CodeSet := combine (· || ·) left right

/-- The codes in both sets. -/
def inter (left right : CodeSet) : CodeSet := combine (· && ·) left right

/-- The codes in the left set alone. -/
def sdiff (left right : CodeSet) : CodeSet :=
  combine (fun inLeft inRight => inLeft && !inRight) left right

/-- The codes in exactly one of the sets. -/
def symmDiff (left right : CodeSet) : CodeSet := combine (· != ·) left right

/-- The codes in any of some sets. -/
def unions (sets : List CodeSet) : CodeSet := sets.foldl union empty

/-- The boundaries after the first one of a set whose codes are given in order. The codes up to
`last` are already in the set. -/
def runsFrom (last : Nat) : List Nat → List Nat
  | [] => [last + 1]
  | code :: codes =>
    if code ≤ last + 1 then runsFrom (max last code) codes
    else (last + 1) :: code :: runsFrom code codes

/-- The set of the codes in a list. -/
def ofList (codes : List Nat) : CodeSet :=
  match codes.mergeSort with
  | [] => empty
  | code :: codes => ⟨code :: runsFrom code codes⟩

/-- The numbers written in base 26 with a capital as the last digit of each, given the part of a
number that is already read. -/
def numbersFrom (number : Nat) : List Char → List Nat
  | [] => []
  | digit :: digits =>
    if digit < 'a' then
      (26 * number + (digit.toNat - 'A'.toNat)) :: numbersFrom 0 digits
    else numbersFrom (26 * number + (digit.toNat - 'a'.toNat)) digits

/-- The numbers of a text in which a capital is the last digit of each. Its lines are one after the
other. -/
def numbers (lines : List String) : List Nat := numbersFrom 0 (lines.flatMap String.toList)

/-- The boundaries that lie at the given steps from each other. -/
def boundariesFrom (boundary : Nat) : List Nat → List Nat
  | [] => []
  | step :: steps => (boundary + step) :: boundariesFrom (boundary + step) steps

/-- The set whose boundaries lie at the steps that a text gives. -/
def ofSteps (lines : List String) : CodeSet := ⟨boundariesFrom 0 (numbers lines)⟩

end CodeSet

end Reparse
