import Reparse.Language.Basic
import Reparse.Text.Blank

/-!
# The arithmetic language

Numbers, variables, parentheses and a left-associative `+`, with line comments that begin with two
slashes and may stand anywhere.

    expression := operand ('+' operand)*
    operand    := number | variable | '(' expression ')'

Every operand and every sum stands in an `expression` node of its own. A missing operand is replaced
by a missing number. Operands do not depend on what follows them, so they can be used again when an
edited text is parsed; sums are built anew around them.
-/

namespace Reparse

namespace Arithmetic

def leftParenthesis : Nat := 1
def rightParenthesis : Nat := 2
def plus : Nat := 3
def number : Nat := 4
def variableName : Nat := 5
def comment : Nat := 6
def expressionSymbol : Nat := 7
def sum : Nat := 8

def leftField : Nat := 1
def rightField : Nat := 2

/-- The state of a complete operand. -/
def operandState : Nat := 1

def vocabulary : Vocabulary where
  name := "arithmetic"
  version := newestVersion
  symbols := #["end", "(", ")", "+", "number", "variable", "comment", "expression", "sum"]
  kinds :=
    #[.auxiliary, .anonymous, .anonymous, .anonymous, .regular, .regular, .regular, .regular,
      .regular]
  fields := #["", "left", "right"]
  extras := [comment]
  nodeTypes :=
    [{ symbol := expressionSymbol
       fields := []
       children :=
        [leftParenthesis, rightParenthesis, number, variableName, expressionSymbol, sum] },
     { symbol := sum
       fields := [(leftField, [expressionSymbol]), (rightField, [expressionSymbol])]
       children := [plus] }]

/-! ## Tokens -/

def isDigit (char : Char) : Bool := '0' ≤ char && char ≤ '9'

def isLetter (char : Char) : Bool :=
  ('a' ≤ char && char ≤ 'z') || ('A' ≤ char && char ≤ 'Z')

def isWordStart (char : Char) : Bool := isLetter char || char == '_'

def isWordPart (char : Char) : Bool := isLetter char || isDigit char || char == '_'

/-- The labels of the loops inside a number, a variable and a comment. -/
def numberLoop : Nat := 1
def wordLoop : Nat := 2
def commentLoop : Nat := 3

/-- Accepts one character as a token. -/
def single (symbol : Nat) : Block := .advance false (.accept symbol (.stop true))

/-- The beginning of a token, at a character that is not blank. -/
def tokenBlock (char : Char) : Block :=
  if char = '(' then single leftParenthesis
  else if char = ')' then single rightParenthesis
  else if char = '+' then single plus
  else if isDigit char then .advance false (.jump numberLoop)
  else if isWordStart char then .advance false (.jump wordLoop)
  else if char = '/' then
    .advance false <| .look fun next _ =>
      if next = '/' then .advance false (.jump commentLoop) else .stop false
  else .stop false

/-- Consumes characters as long as they belong to the token, then accepts it. -/
def loopBlock (belongs : Char → Bool → Bool) (label symbol : Nat) : Block :=
  .look fun char atEnd =>
    if belongs char atEnd then .advance false (.jump label) else .accept symbol (.stop true)

/-- The scan program: blanks are skipped, then one token is read. -/
def program : ScanProgram
  | 0 => .look fun char atEnd =>
    if atEnd then .stop false
    else if isBlank char then .advance true (.jump 0)
    else tokenBlock char
  | 1 => loopBlock (fun char _ => isDigit char) numberLoop number
  | 2 => loopBlock (fun char _ => isWordPart char) wordLoop variableName
  | _ => loopBlock (fun char atEnd => !atEnd && char != '\n') commentLoop comment

/-! ## The grammar -/

open Parsing

/-- An expression that is only a missing number. -/
def missingOperand : Parsing CompleteNode := do
  let node ← start
  missing number
  complete node expressionSymbol

mutual

/-- Parses an operand, if one begins here. -/
def operand : Nat → Parsing (Option CompleteNode)
  | 0 => throw .endless
  | fuel + 1 => do
    match ← reuse operandState with
    | some node => return some node
    | none =>
      let kind ← peek
      let node ← start
      if kind = number ∨ kind = variableName then
        bump
        finishOperand node
      else if kind = leftParenthesis then
        bump
        if (← expression fuel).isNone then
          discard missingOperand
        discard <| expect rightParenthesis
        finishOperand node
      else
        abandon node
        return none
where
  /-- Completes an operand and gives it the state in which it may be used again. -/
  finishOperand (node : OpenNode) : Parsing (Option CompleteNode) := do
    let operand ← complete node expressionSymbol
    setState operand operandState
    return some operand

/-- Parses an expression, if one begins here. -/
def expression : Nat → Parsing (Option CompleteNode)
  | 0 => throw .endless
  | fuel + 1 => do
    match ← operand fuel with
    | none => return none
    | some first => return some (← sums fuel first)

/-- Parses the operands that are added to a complete expression. -/
def sums : Nat → CompleteNode → Parsing CompleteNode
  | 0, _ => throw .endless
  | fuel + 1, left => do
    if ← at? plus then
      setField left leftField
      let node ← precede left
      bump
      let right ← do
        match ← operand fuel with
        | some right => pure right
        | none => missingOperand
      setField right rightField
      let whole ← complete node sum
      let wrapper ← precede whole
      sums fuel (← complete wrapper expressionSymbol)
    else return left

end

/-- Parses expressions up to the end of the input; tokens between them are errors. -/
def expressions (fuel : Nat) : Nat → Parsing Unit
  | 0 => throw .endless
  | turns + 1 => do
    if !(← atEnd) then
      if (← expression fuel).isNone then
        skipToken
      expressions fuel turns

/-- The grammar. -/
def grammar : Parsing Unit := do
  let budget := (← get).budget
  expressions budget budget

end Arithmetic

/-- The arithmetic language under a given number. -/
def Language.arithmetic (identity : Nat) : Language where
  identity := identity
  vocabulary := Arithmetic.vocabulary
  program := Arithmetic.program
  grammar := Arithmetic.grammar

end Reparse
