import Reparse.Regex.Matcher

/-!
# The size of matchers

Repetitions with counts can make an expression large: each count stands for as many copies. The size
of a matcher is about the memory, in bytes, of an automaton that reads bytes and has all copies
written out. What is larger than the limit is refused.
-/

namespace Reparse

namespace Regex

/-- The largest size of a matcher. -/
def sizeLimit : Nat := 10485760

/-- The size of one state. -/
def stateSize : Nat := 32

namespace Matcher

/-- Whether a match may have characters. -/
def consumes : Matcher → Bool
  | nothing | look _ => false
  | char _ | byte _ => true
  | sequence first second | choice first second => first.consumes || second.consumes
  | repetition _ most body => most != some 0 && body.consumes

/-- The size of what matches a character of a set: a state for each byte of a single character, two
for ASCII characters, and otherwise as many as the ranges of the set ask for on average. -/
def charSize (set : CodeSet) : Nat :=
  match set.boundaries with
  | [first, second] =>
    if second = first + 1 then stateSize * (Char.ofNat first).utf8Size
    else if second ≤ 0x80 then 2 * stateSize + 8
    else 360
  | boundaries =>
    let ranges := (boundaries.length + 1) / 2
    if boundaries.length % 2 = 0 ∧ boundaries.all (· ≤ 0x80) then 2 * stateSize + 8 * ranges
    else 300 + 60 * ranges

/-- The size of a matcher. Matches without characters need no copies. -/
def size : Matcher → Nat
  | nothing | look _ => stateSize
  | char set => charSize set
  | byte set => 2 * stateSize + 8 * ((set.boundaries.length + 1) / 2)
  | sequence first second => first.size + second.size
  | choice first second => first.size + second.size + 8
  | repetition least most body =>
    if !body.consumes then body.size
    else
      match most with
      | some most => least * body.size + (most - least) * (body.size + stateSize + 8)
      | none => max least 1 * body.size + stateSize + 8

end Matcher

end Regex

end Reparse
