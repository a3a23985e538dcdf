import Reparse.Regex.Bracket
import Reparse.Unicode.PropertyName

/-!
# Reading regular expressions

    expression := sequence ('|' sequence)*
    sequence   := (part repeat?)*
    part       := '(' expression ')' | '(?' flags ':' expression ')' | '(?' flags ')'
                | ('(?<' | '(?P<') name '>' expression ')' | set | escape
                | '.' | '^' | '$' | character
    repeat     := ('?' | '*' | '+' | '{' number (',' number?)? '}') '?'?
    flags      := letter* ('-' letter+)?

A repetition may be repeated in turn. Whether blanks are ignored is itself a flag, which holds up to
the end of the group it is set in.

Every part consumes a character, so the recursion is bounded by the length of the text.
-/

namespace Reparse

namespace Regex

/-! ## Groups -/

/-- The flags by letter. -/
def flag? (letter : Char) : Option Flag :=
  match letter with
  | 'i' => some .ignoreCase
  | 'm' => some .manyLines
  | 's' => some .dotMatchesNewline
  | 'U' => some .swapGreed
  | 'u' => some .unicode
  | 'R' => some .carriageReturn
  | 'x' => some .ignoreBlank
  | _ => none

/-- Reads flags after those already set. After a hyphen, flags are turned off; `dangling` is the
place of a hyphen that no flag has followed yet. -/
def readFlags (setting : FlagSetting) (negated : Bool) (dangling : Option Nat) :
    Nat → Reader FlagSetting
  | 0 => return setting
  | count + 1 => do
    match ← peek with
    | none => refuseHere .flagsUnfinished
    | some '-' =>
      if negated then refuseHere .negationRepeated
      let here ← place
      move
      readFlags setting true (some here) count
    | some letter =>
      if letter == ':' || letter == ')' then
        if let some hyphen := dangling then refuseAt hyphen .negationDangling
        return setting
      match flag? letter with
      | none => refuseHere .flagUnknown
      | some flag =>
        if setting.any fun entry => entry.1 == flag then refuseHere .flagRepeated
        move
        readFlags (setting ++ [(flag, !negated)]) negated none count

/-- Whether a character may stand in the name of a group. -/
def isNameCharacter (isFirst : Bool) (char : Char) : Bool :=
  char == '_' || alphabeticCharacters.contains char.toNat ||
    (!isFirst &&
      (char == '.' || char == '[' || char == ']' || numericCharacters.contains char.toNat))

/-- Reads the characters of a name up to an angle bracket. -/
def readNameFrom (isFirst : Bool) : Nat → Reader (List Char)
  | 0 => return []
  | count + 1 => do
    match ← peek with
    | none => refuseHere .nameUnfinished
    | some '>' => return []
    | some char =>
      if !isNameCharacter isFirst char then refuseHere .nameCharacter
      move
      return char :: (← readNameFrom false count)

/-- Reads the name of a group and the angle bracket after it. -/
def readName : Reader Unit := do
  let start ← place
  let letters ← readNameFrom true ((← get).rest.length + 1)
  move
  let name := String.ofList letters
  if name.isEmpty then refuseAt start .nameEmpty
  if (← get).names.contains name then refuseAt start .nameRepeated
  modify fun reading => { reading with names := name :: reading.names }

/-- What a parenthesis opens: a group with its own flags, or nothing but a change of flags. -/
inductive Opening where
  | group (setting : FlagSetting)
  | flags (setting : FlagSetting)

/-- Whether any of some texts comes next, which is then moved over. -/
def acceptAny : List String → Reader Bool
  | [] => return false
  | text :: texts => do
    if ← accept text then return true
    acceptAny texts

/-- Reads what follows a parenthesis, up to the contents of a group. -/
def readOpeningOfGroup : Reader Opening := do
  let opening ← place
  step
  if ← acceptAny ["?=", "?!", "?<=", "?<!"] then refuseAt opening .lookAround
  let start ← place
  if ← acceptAny ["?P<", "?<"] then
    readName
    return .group []
  if ← accept "?" then
    if (← peek).isNone then refuseAt opening .groupUnclosed
    let setting ← readFlags [] false none ((← get).rest.length + 1)
    let closes := (← peek) == some ')'
    move
    if !closes then return .group setting
    if setting.isEmpty then refuseAt start .nothingToRepeat
    return .flags setting
  return .group []

/-- Ignores blanks or not if flags say so. -/
def setBlanks (setting : FlagSetting) : Reader Unit :=
  modify fun reading =>
    match setting.find? fun entry => entry.1 == .ignoreBlank with
    | some (_, isOn) => { reading with ignoresBlank := isOn }
    | none => reading

/-! ## Repetitions -/

/-- The largest count. -/
def countLimit : Nat := 4294967295

/-- Moves over white space, ignored or not. -/
def skipWhite : Nat → Reader Unit
  | 0 => return
  | count + 1 => do
    if ((← peek).map isBlank).getD false then
      move
      skipWhite count

/-- Reads a count. A mistake in it is given back, because a mistake after it may come before it. -/
def readCount : Reader (Except Misreading Nat) := do
  skipWhite (← get).rest.length
  let start ← place
  let digits ← takeWhile Char.isDigit
  skipWhite (← get).rest.length
  let count := numberOf 10 digits
  if digits.isEmpty then return .error ⟨start, .countMissing⟩
  if countLimit < count then return .error ⟨start, .countTooLarge⟩
  return .ok count

/-- Reads the least and the greatest count between braces. -/
def readCounts : Reader (Nat × Option Nat) := do
  let brace ← place
  step
  if (← peek).isNone then refuseAt brace .countUnclosed
  let least ← readCount
  match ← peek with
  | none => refuseAt brace .countUnclosed
  | some ',' =>
    step
    match ← peek with
    | none => refuseAt brace .countUnclosed
    | some '\x7d' => return (← liftM least, none)
    | some _ =>
      let least ← liftM least
      let most ← liftM (← readCount)
      return (least, some most)
  | some _ =>
    let count ← liftM least
    return (count, some count)

/-- Moves over the sign that a repetition should be short. -/
def skipLazy : Reader Unit := do
  if (← peek) == some '?' then move

/-- Reads a repetition between braces. -/
def readCounted : Reader (Nat × Option Nat) := do
  let brace ← place
  let (least, most) ← readCounts
  if (← peek) != some '\x7d' then refuseAt brace .countUnclosed
  step
  skipLazy
  if let some greatest := most then
    if greatest < least then refuseAt brace .countReversed
  return (least, most)

/-- Reads a repetition by its sign. -/
def readRepetition (sign : Char) : Reader (Nat × Option Nat) := do
  if sign == '\x7b' then return ← readCounted
  move
  skipLazy
  return (if sign == '+' then 1 else 0, if sign == '?' then some 1 else none)

/-- Whether a character is the sign of a repetition. -/
def isRepetition (char : Char) : Bool :=
  char == '?' || char == '*' || char == '+' || char == '\x7b'

/-! ## Expressions -/

/-- A part of a sequence with the place it starts at. -/
structure Part where
  start : Nat
  expression : Expression

/-- Whether there is something that a repetition after the part could repeat. -/
def Part.isRepeatable (part : Part) : Bool :=
  match part.expression with
  | .empty | .flags _ => false
  | _ => true

/-- The parts of the sequence that begins at `start`, the last one first, as one expression. -/
def joinParts (start : Nat) : List Part → Expression
  | [] => .empty
  | [part] => part.expression
  | parts => .sequence start (parts.reverse.map Part.expression)

/-- The choices that begin at `start`, the last one first, as one expression. -/
def joinChoices (start : Nat) : List Expression → Expression
  | [choice] => choice
  | choices => .choice start choices.reverse

/-- Reads a part that is neither a group nor a set between brackets. -/
def readPlain (char : Char) : Reader Expression := do
  let start ← place
  if char == '\\' then
    match ← readEscape with
    | .literal literal => return .literal literal
    | .assertion assertion => return .assertion assertion
    | .set set => return .oneOf (.escaped set)
  else
    move
    match char with
    | '.' => return .dot
    | '^' => return .assertion .lineStart
    | '$' => return .assertion .lineEnd
    | _ => return .literal ⟨char, false, start, ← place⟩

mutual

/-- Reads an expression that begins at `start` and of which some choices are read. -/
def readChoices (start : Nat) (choices : List Expression) : Nat → Reader Expression
  | 0 => return .empty
  | bound + 1 => do
    let choice ← readParts (← place) [] bound
    if (← peek) == some '|' then
      move
      readChoices start (choice :: choices) bound
    else return joinChoices start (choice :: choices)

/-- Reads a sequence that begins at `start` and of which some parts are read. -/
def readParts (start : Nat) (parts : List Part) : Nat → Reader Expression
  | 0 => return .empty
  | bound + 1 => do
    skipBlanks
    let here ← place
    match ← peek with
    | none => return joinParts start parts
    | some char =>
      if char == '|' || char == ')' then return joinParts start parts
      if isRepetition char then
        match parts with
        | [] => refuseAt here .nothingToRepeat
        | part :: parts =>
          if !part.isRepeatable then refuseAt here .nothingToRepeat
          let (least, most) ← readRepetition char
          let repeated := .repetition part.start least most part.expression
          readParts start (⟨part.start, repeated⟩ :: parts) bound
      else
        let expression ← readPart char bound
        readParts start (⟨here, expression⟩ :: parts) bound

/-- Reads a part that begins with a character. -/
def readPart (char : Char) : Nat → Reader Expression
  | 0 => return .empty
  | bound + 1 => do
    if char == '(' then
      let opening ← place
      match ← readOpeningOfGroup with
      | .flags setting =>
        setBlanks setting
        return .flags setting
      | .group setting =>
        let ignoresBlank := (← get).ignoresBlank
        setBlanks setting
        let body ← readChoices (← place) [] bound
        if (← peek).isNone then refuseAt opening .groupUnclosed
        modify fun reading => { reading with ignoresBlank }
        move
        return .group opening setting body
    if char == '[' then return .oneOf (← readSet (2 * (← get).rest.length + 2))
    readPlain char

end

/-- Reads the whole text. -/
def readAll : Reader Expression := do
  let expression ← readChoices 0 [] (3 * (← get).rest.length + 3)
  if (← peek).isSome then refuseHere .groupUnopened
  return expression

/-- The expression that a text writes. -/
def read (text : String) : Except Misreading Expression :=
  (readAll.run ⟨text.toList, 0, false, []⟩).map Prod.fst

end Regex

end Reparse
