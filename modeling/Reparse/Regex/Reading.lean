import Reparse.Regex.Expression
import Reparse.Regex.Mistake
import Reparse.Text.Blank

/-!
# Reading the text of a regular expression

The text is read character by character, and places in it are counted in bytes. While blanks are
ignored, white space and comments up to the end of a line may stand between the parts of an
expression; whoever moves over a part says whether blanks may follow it (`step`) or not (`move`).
-/

namespace Reparse

namespace Regex

/-- What is left of a text, and what matters from the part before. -/
structure Reading where
  rest : List Char
  /-- The bytes read. -/
  offset : Nat
  ignoresBlank : Bool
  /-- The names of groups. -/
  names : List String

/-- A mistake and where it is. -/
structure Misreading where
  offset : Nat
  mistake : Mistake
  deriving DecidableEq, Repr

abbrev Reader := StateT Reading (Except Misreading)

/-- Gives up on the text for a mistake at an offset. -/
def refuseAt {α : Type} (offset : Nat) (mistake : Mistake) : Reader α :=
  throw ⟨offset, mistake⟩

/-- The bytes read. -/
def place : Reader Nat := return (← get).offset

/-- Gives up on the text for a mistake at what comes next. -/
def refuseHere {α : Type} (mistake : Mistake) : Reader α := do refuseAt (← place) mistake

/-- The next character. -/
def peek : Reader (Option Char) := return (← get).rest.head?

/-- The character after the next one. -/
def peekSecond : Reader (Option Char) := return (← get).rest[1]?

/-- Moves over the next character. -/
def move : Reader Unit :=
  modify fun reading =>
    match reading.rest with
    | [] => reading
    | char :: rest => { reading with rest, offset := reading.offset + char.utf8Size }

/-- The offset and the characters after blanks and comments. -/
def afterBlanks (inComment : Bool) (offset : Nat) : List Char → Nat × List Char
  | [] => (offset, [])
  | char :: rest =>
    if inComment then afterBlanks (char != '\n') (offset + char.utf8Size) rest
    else if isBlank char then afterBlanks false (offset + char.utf8Size) rest
    else if char == '#' then afterBlanks true (offset + 1) rest
    else (offset, char :: rest)

/-- Moves over blanks and comments if they are ignored. -/
def skipBlanks : Reader Unit :=
  modify fun reading =>
    if reading.ignoresBlank then
      let (offset, rest) := afterBlanks false reading.offset reading.rest
      { reading with offset, rest }
    else reading

/-- Moves over the next character and the blanks after it. -/
def step : Reader Unit := do move; skipBlanks

/-- What stops a look past the next character: blanks do not, nor does the first number sign. -/
def soonest (pastSign : Bool) : List Char → Option Char
  | [] => none
  | char :: rest =>
    if isBlank char then soonest pastSign rest
    else if char == '#' && !pastSign then soonest true rest
    else some char

/-- The character that follows the next one, apart from blanks if they are ignored. -/
def peekPastBlanks : Reader (Option Char) := do
  let reading ← get
  if reading.ignoresBlank then return soonest false (reading.rest.drop 1)
  peekSecond

/-- Moves over a text if it comes next, and tells whether it did. -/
def accept (text : String) : Reader Bool := do
  if text.toList.isPrefixOf (← get).rest then
    text.toList.forM fun _ => move
    return true
  return false

/-- The characters of a kind that come next, at most as many as are allowed. Blanks may stand
between them. -/
def takeUpTo (accepts : Char → Bool) : Nat → Reader (List Char)
  | 0 => return []
  | count + 1 => do
    match ← peek with
    | none => return []
    | some char =>
      if accepts char then
        step
        return char :: (← takeUpTo accepts count)
      return []

/-- The characters of a kind that come next. -/
def takeWhile (accepts : Char → Bool) : Reader (List Char) := do
  takeUpTo accepts (← get).rest.length

end Regex

end Reparse
