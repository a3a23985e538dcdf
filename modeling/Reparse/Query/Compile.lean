import Reparse.Query.Basic
import Reparse.Query.Error

/-!
# Reading queries

A query text is a list of patterns, with blanks and `;` comments between the tokens.

    pattern   := '(' name item* ')' | '(' '_' item* ')' | '(' 'MISSING' token? ')'
               | '"' text '"' | '_' | '*' | '[' pattern+ ']' | '(' pattern+ ')'
    item      := pattern | field ':' pattern | '!' field | predicate
    predicate := '(' '#' operator argument* ')'

Any pattern may be followed by captures, `@name`. Inside a named node the children are checked
against the node types of the language, so a pattern that can never match is an error.

The reader moves over the bytes of the text one by one and cuts names, strings and quoted lines out
of its characters. Every item takes at least one byte, so the recursion is bounded by the number of
bytes that are left.
-/

namespace Reparse

namespace QueryText

/-- What is left to read of a text, and what was collected so far. -/
structure Reading where
  /-- The whole text. -/
  text : List Char
  /-- The bytes that are left. -/
  rest : List UInt8
  /-- The number of bytes read. -/
  offset : Nat
  captureNames : List String
  strings : List String
  tests : List TextTest
  predicates : List Predicate

/-- Why reading ends before the end of the text. -/
inductive Halt where
  /-- The text is no query. -/
  | error (error : QueryError)
  /-- A slice of the text does not begin and end between characters. -/
  | cut
  /-- The bound on the recursion is reached. -/
  | exhausted

abbrev Compiling := StateT Reading (Except Halt)

/-- Where a pattern stands: the node type whose children are described, if they are checked, and the
field. -/
structure Scope where
  parent : Option Nat
  field : Nat

/-- One thing that can be read in a list of patterns. -/
inductive Item where
  | pattern (pattern : Pattern)
  | group (sequence : List Pattern)
  | absentField (field : Nat)
  | predicate

/-! ## Errors -/

/-- Reports an error with a text of its own, such as a name that is not known. -/
def refuse {α : Type} (kind : QueryErrorKind) (offset : Nat) (message : String) :
    Compiling α := do
  let reading ← get
  throw (.error (.located reading.text kind offset message))

/-- Reports an error that quotes the line around it. -/
def pointAt {α : Type} (kind : QueryErrorKind) (offset : Nat) : Compiling α := do
  let reading ← get
  match QueryError.quotation? reading.text offset with
  | none => throw .cut
  | some quotation => refuse kind offset quotation

/-- Reports an error in the form of the text. -/
def malformed {α : Type} (offset : Nat) : Compiling α := pointAt .form offset

/-- Reports a pattern that can never match. -/
def impossible {α : Type} (offset : Nat) : Compiling α := pointAt .structural offset

/-- Reports an error in the form of the text unless a condition holds. -/
def require (condition : Prop) [Decidable condition] (offset : Nat) : Compiling Unit :=
  if condition then pure () else malformed offset

/-! ## Bytes -/

/-- The next byte, as the character that it is on its own. -/
def peek : Compiling (Option Char) := return (← get).rest.head?.map Char.ofUInt8

def offset : Compiling Nat := return (← get).offset

/-- Moves on by a number of bytes. -/
def advance (count : Nat) : Compiling Unit :=
  modify fun reading =>
    { reading with rest := reading.rest.drop count, offset := reading.offset + count }

/-- Moves past the next byte. -/
def skip : Compiling Unit := advance 1

/-- The characters between two offsets. -/
def slice (start stop : Nat) : Compiling (List Char) := do
  match Utf8.slice? start stop (← get).text with
  | none => throw .cut
  | some chars => return chars

/-- The characters that are left. -/
def remaining : Compiling (List Char) := do
  let reading ← get
  match Utf8.from? reading.offset reading.text with
  | none => throw .cut
  | some chars => return chars

def isBlankAscii (char : Char) : Bool :=
  char == ' ' || char == '\t' || char == '\n' || char == '\x0c' || char == '\r'

/-- The characters of names. -/
def isNamePart (char : Char) : Bool :=
  char.isAlphanum || char == '_' || char == '-' || char == '.'

def isOperatorPart (char : Char) : Bool := isNamePart char || char == '?' || char == '!'

/-- The number of bytes of the blanks and comments at the beginning of some bytes. A comment ends
before the end of its line. -/
def triviaLength (inComment : Bool) : List UInt8 → Nat
  | [] => 0
  | byte :: rest =>
    let char := Char.ofUInt8 byte
    if inComment && char != '\n' then triviaLength true rest + 1
    else if isBlankAscii char then triviaLength false rest + 1
    else if char == ';' then triviaLength true rest + 1
    else 0

/-- Skips blanks and comments. -/
def skipTrivia : Compiling Unit := do advance (triviaLength false (← get).rest)

/-- Reads the bytes that pass a test. -/
def readWhile (passes : Char → Bool) : Compiling String := do
  let reading ← get
  let count := (reading.rest.takeWhile fun byte => passes (Char.ofUInt8 byte)).length
  advance count
  return String.ofList (← slice reading.offset (reading.offset + count))

def readName : Compiling String := readWhile isNamePart

/-- What an escape in a string stands for. -/
def unescaped (char : Char) : Char :=
  if char = 'n' then '\n'
  else if char = 't' then '\t'
  else if char = 'r' then '\r'
  else if char = '0' then '\x00'
  else char

/-- The characters of a string up to its closing quote, and the number of bytes read. Without a
closing quote there is no string. -/
def stringFrom : List Char → Option (List Char × Nat)
  | [] => none
  | '"' :: _ => some ([], 1)
  | '\\' :: char :: rest =>
    (stringFrom rest).map fun (value, size) => (unescaped char :: value, 1 + char.utf8Size + size)
  | char :: rest =>
    (stringFrom rest).map fun (value, size) => (char :: value, char.utf8Size + size)

/-- Reads a string in quotes. -/
def readString : Compiling String := do
  let start ← offset
  skip
  match stringFrom (← remaining) with
  | none => malformed start
  | some (value, size) =>
    advance size
    return String.ofList value

/-! ## Checks against the node types -/

/-- Whether nodes of the parent's type have the field. -/
def admitsField (vocabulary : Vocabulary) (parent : Option Nat) (field : Nat) : Bool :=
  match parent with
  | none => true
  | some parent =>
    match vocabulary.nodeType? parent with
    | none => false
    | some nodeType => nodeType.fields.any fun entry => entry.1 == field

/-- Whether the symbol may be a child where the pattern stands. A wildcard asks only for a parent
that has children at all; errors and extras may stand anywhere. -/
def admitsChild (vocabulary : Vocabulary) (scope : Scope) (symbol : Option Nat) : Bool :=
  match scope.parent with
  | none => true
  | some parent =>
    match vocabulary.nodeType? parent, symbol with
    | none, _ => false
    | some _, none => true
    | some nodeType, some symbol =>
      symbol == errorSymbol || vocabulary.isExtra symbol ||
        if scope.field = 0 then
          nodeType.children.contains symbol ||
            nodeType.fields.any fun entry => entry.2.contains symbol
        else nodeType.fields.any fun entry => entry.1 == scope.field && entry.2.contains symbol

def checkField (vocabulary : Vocabulary) (parent : Option Nat) (field offset : Nat) :
    Compiling Unit :=
  if admitsField vocabulary parent field then pure () else impossible offset

def checkChild (vocabulary : Vocabulary) (scope : Scope) (symbol : Option Nat) (offset : Nat) :
    Compiling Unit :=
  if admitsChild vocabulary scope symbol then pure () else impossible offset

/-! ## Captures and predicates -/

/-- The number of a capture, a new one at its first occurrence. -/
def captureNumber (name : String) : Compiling Nat := do
  let reading ← get
  match reading.captureNames.findIdx? (· == name) with
  | some number => return number
  | none =>
    set { reading with captureNames := reading.captureNames ++ [name] }
    return reading.captureNames.length

/-- Reads captures as long as there are any. -/
def readCaptures : Nat → Compiling (List Nat)
  | 0 => throw .exhausted
  | fuel + 1 => do
    skipTrivia
    if (← peek) = some '@' then
      let start ← offset
      skip
      let name ← readName
      require (name ≠ "") start
      let number ← captureNumber name
      return number :: (← readCaptures fuel)
    else return []

/-- Reads the captures behind a pattern. -/
def captures : Compiling (List Nat) := do readCaptures ((← get).rest.length + 1)

/-- Notes a string argument, each string once. -/
def noteString (value : String) : Compiling Unit :=
  modify fun reading =>
    if reading.strings.contains value then reading
    else { reading with strings := reading.strings ++ [value] }

/-- The number of a capture that was read before; its argument begins at `start`. -/
def knownCapture (name : String) (start : Nat) : Compiling Nat := do
  match (← get).captureNames.findIdx? (· == name) with
  | none => refuse .capture start name
  | some number => return number

/-- Reads the arguments of a predicate up to its closing parenthesis, each with its offset. -/
def readArguments : Nat → Compiling (List (Argument × Nat))
  | 0 => throw .exhausted
  | fuel + 1 => do
    skipTrivia
    let start ← offset
    match ← peek with
    | some ')' =>
      skip
      return []
    | some '@' =>
      skip
      let number ← knownCapture (← readName) start
      return (.capture number, start) :: (← readArguments fuel)
    | some '"' =>
      let value ← readString
      noteString value
      return (.string value, start) :: (← readArguments fuel)
    | some char =>
      require (isNamePart char) start
      let value ← readName
      noteString value
      return (.string value, start) :: (← readArguments fuel)
    | none => malformed start

/-- The families of predicates on the text of captured nodes. -/
inductive TestFamily where
  | equality (positive all : Bool)
  | regex (positive all : Bool)
  | choice (positive : Bool)
  deriving DecidableEq, Repr

/-- The family of an operator, if it is one of those tested here. -/
def testFamily? (operator : String) : Option TestFamily :=
  if operator = "eq?" then some (.equality true true)
  else if operator = "not-eq?" then some (.equality false true)
  else if operator = "any-eq?" then some (.equality true false)
  else if operator = "any-not-eq?" then some (.equality false false)
  else if operator = "match?" then some (.regex true true)
  else if operator = "not-match?" then some (.regex false true)
  else if operator = "any-match?" then some (.regex true false)
  else if operator = "any-not-match?" then some (.regex false false)
  else if operator = "any-of?" then some (.choice true)
  else if operator = "not-any-of?" then some (.choice false)
  else none

/-- Reports an error in a predicate, `subject` being its beginning and `complaint` its end. -/
def refusePredicate {α : Type} (start : Nat) (subject operator complaint : String) :
    Compiling α :=
  refuse .predicate start (subject ++ " to #" ++ operator ++ " predicate" ++ complaint)

/-- The first argument of a predicate, which must be a capture. -/
def firstCapture (operator : String) (start : Nat) (argument : Argument) : Compiling Nat :=
  match argument with
  | .capture number => return number
  | .string _ => refusePredicate start "First argument" operator " must be a capture name."

/-- The two arguments of a predicate that takes two. -/
def twoArguments (operator : String) (start : Nat) (arguments : List (Argument × Nat)) :
    Compiling ((Argument × Nat) × (Argument × Nat)) :=
  match arguments with
  | [first, second] => return (first, second)
  | _ =>
    refusePredicate start "Wrong number of arguments" operator
      (". Expected 2, got " ++ toString arguments.length ++ ".")

/-- The values of arguments that must all be strings. -/
def literals (operator : String) (start : Nat) : List (Argument × Nat) → Compiling (List String)
  | [] => return []
  | (.string value, _) :: rest => do return value :: (← literals operator start rest)
  | (.capture _, _) :: _ => refusePredicate start "Arguments" operator " must be literals."

/-- Compiles a regular expression given as a string at an offset. -/
def readRegex (pattern : String) (start : Nat) : Compiling Regex :=
  match Regex.compile pattern with
  | .ok regex => return regex
  | .error (.malformed place mistake) => refuse .predicate (start + 1 + place) mistake.message
  | .error (.refused refusal) => refuse .predicate start (refusal.message pattern)

def noteTest (test : TextTest) : Compiling Unit :=
  modify fun reading => { reading with tests := reading.tests ++ [test] }

/-- Adds a predicate that begins at `start` to the pattern being read. -/
def addPredicate (operator : String) (arguments : List (Argument × Nat)) (start : Nat) :
    Compiling Unit := do
  match testFamily? operator with
  | some (.equality positive all) =>
    let (first, second) ← twoArguments operator start arguments
    let capture ← firstCapture operator start first.1
    match second.1 with
    | .capture other => noteTest (.equalsCapture capture other positive all)
    | .string value => noteTest (.equalsString capture value positive all)
  | some (.regex positive all) =>
    let (first, second) ← twoArguments operator start arguments
    let capture ← firstCapture operator start first.1
    match second with
    | (.capture _, _) => refusePredicate start "Second argument" operator " must be a literal."
    | (.string pattern, place) =>
      noteTest (.matchesRegex capture (← readRegex pattern place) positive all)
  | some (.choice positive) =>
    match arguments with
    | first :: second :: rest =>
      let capture ← firstCapture operator start first.1
      noteTest (.isOneOf capture (← literals operator start (second :: rest)) positive)
    | _ => refusePredicate start "Wrong number of arguments" operator ". Expected at least 1."
  | none =>
    modify fun reading =>
      { reading with
        predicates := reading.predicates ++ [⟨operator, arguments.map (·.1)⟩] }

/-- Reads a predicate from its number sign on; its parenthesis stands at `start`. -/
def readPredicate (start : Nat) : Compiling Unit := do
  skip
  let operator ← readWhile isOperatorPart
  require (operator ≠ "") (← offset)
  let arguments ← readArguments ((← get).rest.length + 1)
  addPredicate operator arguments start

/-! ## Patterns -/

/-- A pattern without children, followed by its captures. -/
def childless (matcher : Matcher) : Compiling Item := do
  return .pattern (.node matcher [] [] 0 (← captures))

/-- The symbol of the anonymous token in the string that comes next. -/
def readToken (vocabulary : Vocabulary) : Compiling Nat := do
  let start ← offset
  let value ← readString
  match vocabulary.symbolNamed value false with
  | 0 => refuse .nodeType (start + 1) value
  | symbol => return symbol

/-- The symbol of a named node whose name was read from `start` on. -/
def namedSymbol (vocabulary : Vocabulary) (name : String) (start : Nat) : Compiling Nat :=
  match vocabulary.symbolNamed name true with
  | 0 => refuse .nodeType start name
  | symbol => return symbol

/-- The number of a field whose name was read from `start` on. -/
def fieldNumber (vocabulary : Vocabulary) (name : String) (start : Nat) : Compiling Nat :=
  match vocabulary.fieldNamed name with
  | 0 => refuse .field start name
  | field => return field

/-- Reads a field that must be absent, from its exclamation mark on. -/
def readAbsentField (vocabulary : Vocabulary) (scope : Scope) : Compiling Item := do
  skip
  let place ← offset
  let field ← fieldNumber vocabulary (← readName) place
  checkField vocabulary scope.parent field place
  return .absentField field

/-- Reads which token is missing, if the pattern says so. -/
def readMissingSymbol (vocabulary : Vocabulary) : Compiling (Option Nat) := do
  match ← peek with
  | some '"' => return some (← readToken vocabulary)
  | some char =>
    if isNamePart char then
      let place ← offset
      return some (← namedSymbol vocabulary (← readName) place)
    else return none
  | none => return none

/-- Reads the rest of a pattern for missing tokens, whose parenthesis stands at `start`. -/
def readMissing (vocabulary : Vocabulary) (scope : Scope) (start : Nat) : Compiling Item := do
  skipTrivia
  let symbol ← readMissingSymbol vocabulary
  checkChild vocabulary scope symbol start
  skipTrivia
  require ((← peek) = some ')') (← offset)
  skip
  childless (.missing symbol)

/-- The symbol that a node pattern asks for, none for a wildcard. -/
def nodeSymbol (vocabulary : Vocabulary) (name : String) (place : Nat) :
    Compiling (Option Nat) := do
  if name = "_" then return none else return some (← namedSymbol vocabulary name place)

/-- The matcher of a node pattern. -/
def nodeMatcher : Option Nat → Matcher
  | none => .anyNamed
  | some symbol => .symbol symbol

/-- Where the children of a node pattern stand. Those of errors are not checked. -/
def Scope.within (symbol : Option Nat) : Scope := ⟨symbol.filter (· != errorSymbol), 0⟩

/-- Makes a group out of the patterns read in parentheses. The captures behind the group belong to
its first pattern. -/
def makeGroup (start : Nat) (elements : List Pattern) : Compiling Item := do
  let more ← captures
  match elements with
  | [] => malformed start
  | [only] => return .pattern (only.capturing more)
  | first :: rest => return .group (first.capturing more :: rest)

/-- What a list of items inside of a node gives: its children and the fields that must be absent. -/
structure Body where
  children : List Pattern
  absent : List Nat

/-- What an item adds in front of a list of items. -/
def Item.onto (body : Body) : Item → Body
  | .pattern child => { body with children := child :: body.children }
  | .group sequence => { body with children := sequence ++ body.children }
  | .absentField field => { body with absent := field :: body.absent }
  | .predicate => body

/-- The patterns of an item that begins at `start`, where only patterns may stand. -/
def Item.patterns (start : Nat) : Item → Compiling (List Pattern)
  | .pattern only => return [only]
  | .group sequence => return sequence
  | _ => malformed start

/-- The pattern of an item that begins at `start`, where only one pattern may stand. -/
def Item.single (start : Nat) : Item → Compiling Pattern
  | .pattern only => return only
  | _ => malformed start

/-- The patterns of an item that begins at `start`, inside of a group. -/
def Item.elements (start : Nat) : Item → Compiling (List Pattern)
  | .predicate => return []
  | item => item.patterns start

mutual

/-- Reads one item. -/
def readItem (vocabulary : Vocabulary) (scope : Scope) : Nat → Compiling Item
  | 0 => throw .exhausted
  | fuel + 1 => do
    skipTrivia
    let start ← offset
    match ← peek with
    | some '(' =>
      skip
      skipTrivia
      match ← peek with
      | some '#' =>
        readPredicate start
        return .predicate
      | some '(' | some '[' | some '"' =>
        makeGroup start (← readGroup vocabulary { scope with field := 0 } fuel)
      | _ => readNode vocabulary scope start fuel
    | some '[' =>
      skip
      let alternatives ← readAlternatives vocabulary scope fuel
      require (alternatives.isEmpty = false) start
      return .pattern (.oneOf alternatives 0 (← captures))
    | some '"' =>
      let symbol ← readToken vocabulary
      checkChild vocabulary scope (some symbol) start
      childless (.symbol symbol)
    | some '*' =>
      skip
      checkChild vocabulary scope none start
      childless .any
    | some '!' => readAbsentField vocabulary scope
    | some char =>
      require (isNamePart char) start
      let name ← readName
      if name = "_" then
        checkChild vocabulary scope none start
        childless .any
      else readField vocabulary scope name start fuel
    | none => malformed start

/-- Reads a pattern in a field whose name was read from `start` on. -/
def readField (vocabulary : Vocabulary) (scope : Scope) (name : String) (start : Nat) :
    Nat → Compiling Item
  | 0 => throw .exhausted
  | fuel + 1 => do
    skipTrivia
    require ((← peek) = some ':') start
    skip
    let field ← fieldNumber vocabulary name start
    checkField vocabulary scope.parent field start
    skipTrivia
    let place ← offset
    let pattern ← (← readItem vocabulary { scope with field } fuel).single place
    return .pattern (pattern.inField field)

/-- Reads a node from its name on; its parenthesis stands at `start`. -/
def readNode (vocabulary : Vocabulary) (scope : Scope) (start : Nat) : Nat → Compiling Item
  | 0 => throw .exhausted
  | fuel + 1 => do
    let place ← offset
    let name ← readName
    require (name ≠ "") place
    if name = "MISSING" then readMissing vocabulary scope start
    else
      let symbol ← nodeSymbol vocabulary name place
      checkChild vocabulary scope symbol start
      let body ← readBody vocabulary (.within symbol) fuel
      return .pattern (.node (nodeMatcher symbol) body.children body.absent 0 (← captures))

/-- Reads items up to the closing parenthesis of a node. -/
def readBody (vocabulary : Vocabulary) (scope : Scope) : Nat → Compiling Body
  | 0 => throw .exhausted
  | fuel + 1 => do
    skipTrivia
    match ← peek with
    | some ')' =>
      skip
      return ⟨[], []⟩
    | none => malformed (← offset)
    | some _ =>
      let item ← readItem vocabulary scope fuel
      return item.onto (← readBody vocabulary scope fuel)

/-- Reads patterns up to the closing parenthesis of a group. -/
def readGroup (vocabulary : Vocabulary) (scope : Scope) : Nat → Compiling (List Pattern)
  | 0 => throw .exhausted
  | fuel + 1 => do
    skipTrivia
    match ← peek with
    | some ')' =>
      skip
      return []
    | none => malformed (← offset)
    | some _ =>
      let start ← offset
      let elements ← (← readItem vocabulary scope fuel).elements start
      return elements ++ (← readGroup vocabulary scope fuel)

/-- Reads alternatives up to the closing bracket. -/
def readAlternatives (vocabulary : Vocabulary) (scope : Scope) : Nat → Compiling (List Pattern)
  | 0 => throw .exhausted
  | fuel + 1 => do
    skipTrivia
    match ← peek with
    | some ']' =>
      skip
      return []
    | none => malformed (← offset)
    | some _ =>
      let start ← offset
      let pattern ← (← readItem vocabulary scope fuel).single start
      return pattern :: (← readAlternatives vocabulary scope fuel)

end

/-- Hands over the predicates of the pattern that begins at `start`. -/
def finishPattern (start : Nat) (sequence : List Pattern) : Compiling QueryPattern := do
  let reading ← get
  set { reading with tests := [], predicates := [] }
  return ⟨start, sequence, reading.tests, reading.predicates⟩

/-- Reads the patterns of a query up to the end of the text. -/
def readPatterns (vocabulary : Vocabulary) (depth : Nat) : Nat → Compiling (List QueryPattern)
  | 0 => throw .exhausted
  | fuel + 1 => do
    skipTrivia
    if (← peek) = none then return []
    else
      let start ← offset
      let sequence ← (← readItem vocabulary ⟨none, 0⟩ depth).patterns start
      let pattern ← finishPattern start sequence
      return pattern :: (← readPatterns vocabulary depth fuel)

/-- The beginning of a text. -/
def Reading.start (text : List Char) : Reading := ⟨text, Utf8.encode text, 0, [], [], [], []⟩

/-- Reads a whole text. -/
def readText (vocabulary : Vocabulary) (text : List Char) :
    Except Halt (List QueryPattern × Reading) :=
  let size := (Utf8.encode text).length
  (readPatterns vocabulary (2 * size + 1) (size + 1)).run (.start text)

/-- The error to report when reading halts. Only errors of the text are ever met. -/
def Halt.report : Halt → QueryError
  | .error found => found
  | .cut | .exhausted => QueryError.located [] .form 0 ""

end QueryText

namespace Query

/-- Reads a query text for a language. -/
def read (language : Language) (source : String) : Except QueryText.Halt Query :=
  (QueryText.readText language.vocabulary source.toList).map fun (patterns, reading) =>
    ⟨language, patterns.toArray, reading.captureNames, reading.strings⟩

/-- Compiles a query text for a language. -/
def compile (language : Language) (source : String) : Except QueryError Query :=
  (read language source).mapError QueryText.Halt.report

end Query

end Reparse
