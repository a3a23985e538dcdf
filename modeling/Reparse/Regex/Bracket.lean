import Reparse.Regex.Escape

/-!
# Sets between brackets

    set      := '[' '^'? '-'* ']'? (members (operator members)*)? ']'
    members  := member*
    member   := item | item '-' item | set | '[:' '^'? name ':]'
    operator := '&&' | '--' | '~~'

Hyphens at the start and a closing bracket as the first member stand for themselves, and so does a
hyphen before the closing bracket. Operators group to the left. What looks like a named ASCII set
but is none is read as a nested set.

Every member consumes a character, so the recursion is bounded by the length of the text.
-/

namespace Reparse

namespace Regex

/-- The sets of ASCII characters by name. -/
def asciiSet? (name : String) : Option AsciiSet :=
  match name with
  | "alnum" => some .alnum
  | "alpha" => some .alpha
  | "ascii" => some .ascii
  | "blank" => some .blank
  | "cntrl" => some .cntrl
  | "digit" => some .digit
  | "graph" => some .graph
  | "lower" => some .lower
  | "print" => some .print
  | "punct" => some .punct
  | "space" => some .space
  | "upper" => some .upper
  | "word" => some .word
  | "xdigit" => some .xdigit
  | _ => none

/-- The ASCII set that a text writes from its bracket on, and the length of what it writes. -/
def namedAsciiSet? (text : List Char) : Option (SetExpression × Nat) :=
  let negated := text.drop 2 |>.head? |> (· == some '^')
  let name := (text.drop (if negated then 3 else 2)).takeWhile (· != ':')
  let length := (if negated then 3 else 2) + name.length + 2
  if ['[', ':'].isPrefixOf text && [':', ']'].isPrefixOf (text.drop (length - 2)) then
    (asciiSet? (String.ofList name)).map fun kind => (.ascii kind negated, length)
  else none

/-- A set expression with the place it starts at. -/
structure Placed where
  start : Nat
  set : SetExpression

/-- The members read so far, the last one first, as one set. Without members it starts where they
would. -/
def joinMembers (start : Nat) : List Placed → Placed
  | [] => ⟨start, .empty⟩
  | [member] => member
  | members =>
    let members := members.reverse
    let start := (members.head?.map Placed.start).getD start
    ⟨start, .several start (members.map Placed.set)⟩

/-- What is left of an operator that waits for its right side. -/
structure Pending where
  operator : SetOperator
  left : Placed

/-- A set as the right side of the operator that waits for it. -/
def finish (pending : Option Pending) (right : Placed) : Placed :=
  match pending with
  | none => right
  | some ⟨operator, left⟩ => ⟨left.start, .operation left.start operator left.set right.set⟩

/-- The operator that two characters write. -/
def operator? (first second : Option Char) : Option SetOperator :=
  if first != second then none
  else
    match first with
    | some '&' => some .intersection
    | some '-' => some .difference
    | some '~' => some .symmetricDifference
    | _ => none

/-- Reads a character or an escape in a set. -/
def readItem : Reader Escape := do
  let start ← place
  match ← peek with
  | some '\\' => readEscape
  | some char =>
    move
    return .literal ⟨char, false, start, ← place⟩
  | none => refuseAt start .setUnclosed

/-- The character that an item at `start` gives as the bound of a range. -/
def boundOf (start : Nat) : Escape → Reader Literal
  | .literal literal => return literal
  | _ => refuseAt start .rangeBound

/-- Reads an item or a range in the set that begins at `opening`. -/
def readRange (opening : Nat) : Reader SetExpression := do
  let start ← place
  let item ← readItem
  skipBlanks
  if (← peek).isNone then refuseAt opening .setUnclosed
  let second ← peekPastBlanks
  if (← peek) != some '-' || second == some ']' || second == some '-' then
    match item with
    | .literal literal => return .literal literal
    | .set set => return .escaped set
    | .assertion _ => refuseAt start .escapeInSet
  step
  if (← peek).isNone then refuseAt opening .setUnclosed
  let lastStart ← place
  let lastItem ← readItem
  let first ← boundOf start item
  let last ← boundOf lastStart lastItem
  if last.char < first.char then refuseAt start .rangeReversed
  return .range first last

/-- Reads the hyphens at the start of a set. -/
def readHyphens (opening : Nat) (members : List Placed) : Nat → Reader (List Placed)
  | 0 => return members
  | count + 1 => do
    if (← peek) != some '-' then return members
    let start ← place
    step
    if (← peek).isNone then refuseAt opening .setUnclosed
    readHyphens opening (⟨start, .literal ⟨'-', false, start, start + 1⟩⟩ :: members) count

/-- Reads the start of a set, from the bracket on: whether it is negated, and the members that only
stand for themselves there. -/
def readOpening : Reader (Bool × List Placed) := do
  let opening ← place
  step
  if (← peek).isNone then refuseAt opening .setUnclosed
  let negated := (← peek) == some '^'
  if negated then
    step
    if (← peek).isNone then refuseAt opening .setUnclosed
  let members ← readHyphens opening [] (← get).rest.length
  if members.isEmpty && (← peek) == some ']' then
    let start ← place
    step
    if (← peek).isNone then refuseAt opening .setUnclosed
    return (negated, [⟨start, .literal ⟨']', false, start, start + 1⟩⟩])
  return (negated, members)

mutual

/-- Reads a set from its bracket on. -/
def readSet : Nat → Reader SetExpression
  | 0 => refuseHere .setUnclosed
  | bound + 1 => do
    let opening ← place
    let (negated, members) ← readOpening
    let start := (members.getLast?.map Placed.start).getD (← place)
    let body ← readMembers opening start none members bound
    move
    return .bracketed opening negated body.set

/-- Reads the members of the set that begins at `opening`, up to its closing bracket. The members
since the last operator, or since the start of the set, begin at `start`. -/
def readMembers (opening start : Nat) (pending : Option Pending) (members : List Placed) :
    Nat → Reader Placed
  | 0 => refuseAt opening .setUnclosed
  | bound + 1 => do
    skipBlanks
    let here ← place
    match ← peek with
    | none => refuseAt opening .setUnclosed
    | some ']' => return finish pending (joinMembers start members)
    | some '[' =>
      match namedAsciiSet? (← get).rest with
      | some (set, length) =>
        (List.range length).forM fun _ => move
        readMembers opening start pending (⟨here, set⟩ :: members) bound
      | none =>
        let set ← readSet bound
        readMembers opening start pending (⟨here, set⟩ :: members) bound
    | first =>
      match operator? first (← peekSecond) with
      | some operator =>
        move
        move
        let left := finish pending (joinMembers start members)
        readMembers opening (← place) (some ⟨operator, left⟩) [] bound
      | none =>
        let set ← readRange opening
        readMembers opening start pending (⟨here, set⟩ :: members) bound

end

end Regex

end Reparse
