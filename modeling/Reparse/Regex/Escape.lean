import Reparse.Regex.Reading

/-!
# Escapes

A backslash gives a character by its code or its letter, a set of characters, or a place between
characters; before most ASCII characters that are neither letters nor digits it makes them stand for
themselves.

    escape := '\' (digits | set | place | letter | other)
    digits := 'x' hex hex | 'u' hex×4 | 'U' hex×8 | ('x' | 'u' | 'U') '{' hex+ '}'
    set    := 'd' | 's' | 'w' | 'D' | 'S' | 'W'
            | ('p' | 'P') (letter | '{' name (('!=' | ':' | '=') value)? '}')
    place  := 'A' | 'z' | 'b' | 'B' | '<' | '>'
            | 'b{' ('start' | 'end' | 'start-half' | 'end-half') '}'
-/

namespace Reparse

namespace Regex

/-- What an escape stands for. -/
inductive Escape where
  | literal (literal : Literal)
  | assertion (assertion : Assertion)
  | set (set : EscapedSet)

def isHexDigit (char : Char) : Bool :=
  char.isDigit || ('a' ≤ char && char ≤ 'f') || ('A' ≤ char && char ≤ 'F')

/-- The value of a digit, in hexadecimal if it is a letter. -/
def digitValue (digit : Char) : Nat :=
  if digit.isDigit then digit.toNat - '0'.toNat
  else if digit < 'a' then digit.toNat - 'A'.toNat + 10
  else digit.toNat - 'a'.toNat + 10

/-- The number that digits of a base write. -/
def numberOf (base : Nat) (digits : List Char) : Nat :=
  digits.foldl (fun number digit => base * number + digitValue digit) 0

/-- The character with a code, if the code is one of a character. -/
def charOf? (code : Nat) : Option Char :=
  if code.isValidChar then some (Char.ofNat code) else none

/-- The number of digits that a letter for a code asks for. -/
def codeLength (letter : Char) : Nat := if letter == 'x' then 2 else if letter == 'u' then 4 else 8

/-- Whether a character other than a letter stands for itself after a backslash. -/
def standsForItself (char : Char) : Bool :=
  char < '\x80' && !char.isAlphanum && char != '<' && char != '>'

/-- The control characters with a letter. -/
def controlCharacter? (letter : Char) : Option Char :=
  match letter with
  | 'a' => some '\x07'
  | 'f' => some '\x0c'
  | 't' => some '\t'
  | 'n' => some '\n'
  | 'r' => some '\r'
  | 'v' => some '\x0b'
  | _ => none

/-- The places with a letter. -/
def assertion? (letter : Char) : Option Assertion :=
  match letter with
  | 'A' => some .textStart
  | 'z' => some .textEnd
  | 'b' => some .boundary
  | 'B' => some .noBoundary
  | '<' => some .wordStart
  | '>' => some .wordEnd
  | _ => none

/-- The sets with a letter. -/
def shorthand? (letter : Char) : Option EscapedSet :=
  match letter with
  | 'd' => some (.shorthand .digit false)
  | 'D' => some (.shorthand .digit true)
  | 's' => some (.shorthand .space false)
  | 'S' => some (.shorthand .space true)
  | 'w' => some (.shorthand .word false)
  | 'W' => some (.shorthand .word true)
  | _ => none

/-- The kinds of word boundaries with a name. -/
def namedBoundary? (name : String) : Option Assertion :=
  match name with
  | "start" => some .wordStart
  | "end" => some .wordEnd
  | "start-half" => some .wordStartHalf
  | "end-half" => some .wordEndHalf
  | _ => none

/-- The character that digits from `digitsStart` on write. The escape begins at `start`. -/
def characterOf (start digitsStart : Nat) (digits : List Char) (isCode : Bool) :
    Reader Literal := do
  match charOf? (numberOf 16 digits) with
  | some char => return ⟨char, isCode, start, ← place⟩
  | none => refuseAt digitsStart (.hexNoCharacter)

/-- Reads a character written by its code, from the letter on. -/
def readCode (start : Nat) (letter : Char) : Reader Literal := do
  step
  match ← peek with
  | none => refuseHere .escapeUnfinished
  | some '\x7b' =>
    let brace ← place
    step
    let digits ← takeWhile isHexDigit
    match ← peek with
    | none => refuseAt brace .escapeUnfinished
    | some '\x7d' =>
      step
      if digits.isEmpty then refuseAt brace .hexMissing
      characterOf start (brace + 1) digits false
    | some _ => refuseHere .hexDigit
  | some _ =>
    let digitsStart ← place
    let digits ← takeUpTo isHexDigit (codeLength letter)
    if digits.length < codeLength letter then
      if (← peek).isNone then refuseHere .escapeUnfinished
      refuseHere .hexDigit
    characterOf start digitsStart digits (letter == 'x')

/-- The text before and after the first place where a separator stands. -/
def splitAt? (separator : List Char) : List Char → Option (List Char × List Char)
  | [] => none
  | char :: rest =>
    if separator.isPrefixOf (char :: rest) then some ([], (char :: rest).drop separator.length)
    else (splitAt? separator rest).map fun (before, after) => (char :: before, after)

/-- The name and the value between the braces of a property. An inequality sign counts before a
colon, and a colon before an equality sign. -/
def nameAndValue (text : List Char) : String × Option String :=
  match ((splitAt? ['!', '='] text).or (splitAt? [':'] text)).or (splitAt? ['='] text) with
  | some (name, value) => (String.ofList name, some (String.ofList value))
  | none => (String.ofList text, none)

/-- Reads a set given by a property, from the letter on. -/
def readProperty (start : Nat) (negated : Bool) : Reader EscapedSet := do
  step
  match ← peek with
  | none => refuseHere .escapeUnfinished
  | some '\x7b' =>
    step
    let text ← takeWhile (· != '\x7d')
    if (← peek).isNone then refuseHere .escapeUnfinished
    move
    let (name, value) := nameAndValue text
    return .property name value negated ⟨start, ← place⟩
  | some '\\' => refuseHere .propertyLetter
  | some letter =>
    step
    return .property letter.toString none negated ⟨start, ← place⟩

/-- Reads the kind of a word boundary, from the brace on. What cannot begin one is left as a
count. -/
def readBoundary (start : Nat) : Reader Assertion := do
  let before ← get
  let isPart (char : Char) : Bool := char.isAlpha || char == '-'
  step
  match ← peek with
  | none => refuseAt start .boundaryUnfinished
  | some first =>
    if !isPart first then
      set before
      return .boundary
    let nameStart ← place
    let name ← takeWhile isPart
    if (← peek) != some '\x7d' then refuseAt before.offset .boundaryUnclosed
    move
    match namedBoundary? (String.ofList name) with
    | some assertion => return assertion
    | none => refuseAt nameStart .boundaryUnknown

/-- Reads an escape from the backslash on. -/
def readEscape : Reader Escape := do
  let start ← place
  move
  match ← peek with
  | none => refuseAt start .escapeUnfinished
  | some letter =>
    if letter.isDigit then refuseAt start .backreference
    if letter == 'x' || letter == 'u' || letter == 'U' then
      return .literal (← readCode start letter)
    if letter == 'p' || letter == 'P' then return .set (← readProperty start (letter == 'P'))
    move
    let stop ← place
    if let some set := shorthand? letter then return .set set
    if standsForItself letter then return .literal ⟨letter, false, start, stop⟩
    if let some char := controlCharacter? letter then return .literal ⟨char, false, start, stop⟩
    if letter == 'b' && (← peek) == some '\x7b' then return .assertion (← readBoundary start)
    if let some assertion := assertion? letter then return .assertion assertion
    refuseAt start .escapeUnknown

end Regex

end Reparse
