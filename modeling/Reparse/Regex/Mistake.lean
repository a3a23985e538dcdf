/-!
# Malformed regular expressions

The ways in which the text of a regular expression can be malformed, with their wording.
-/

namespace Reparse

namespace Regex

/-- The depth to which expressions and sets may be nested. -/
def depthLimit : Nat := 250

/-- What is wrong with the text of a regular expression. -/
inductive Mistake where
  /-- A set has an escape that is no character and no set. -/
  | escapeInSet
  | rangeReversed
  | rangeBound
  | setUnclosed
  | countMissing
  | countTooLarge
  | countUnclosed
  | countReversed
  | nothingToRepeat
  | hexMissing
  | hexDigit
  | hexNoCharacter
  | escapeUnfinished
  | escapeUnknown
  | backreference
  | propertyLetter
  | boundaryUnclosed
  | boundaryUnknown
  /-- An open brace after a word boundary begins neither a count nor a kind of boundary. -/
  | boundaryUnfinished
  | flagUnknown
  | flagRepeated
  | flagsUnfinished
  | negationDangling
  | negationRepeated
  | nameEmpty
  | nameCharacter
  | nameUnfinished
  | nameRepeated
  | groupUnclosed
  | groupUnopened
  | lookAround
  | tooDeep
  deriving DecidableEq, Repr

/-- The wording of a mistake. -/
def Mistake.message : Mistake → String
  | escapeInSet => "invalid escape sequence found in character class"
  | rangeReversed => "invalid character class range, the start must be <= the end"
  | rangeBound => "invalid range boundary, must be a literal"
  | setUnclosed => "unclosed character class"
  | countMissing => "repetition quantifier expects a valid decimal"
  | countTooLarge => "decimal literal invalid"
  | countUnclosed => "unclosed counted repetition"
  | countReversed => "invalid repetition count range, the start must be <= the end"
  | nothingToRepeat => "repetition operator missing expression"
  | hexMissing => "hexadecimal literal empty"
  | hexDigit => "invalid hexadecimal digit"
  | hexNoCharacter => "hexadecimal literal is not a Unicode scalar value"
  | escapeUnfinished => "incomplete escape sequence, reached end of pattern prematurely"
  | escapeUnknown => "unrecognized escape sequence"
  | backreference => "backreferences are not supported"
  | propertyLetter => "invalid Unicode character class"
  | boundaryUnclosed =>
    "special word boundary assertion is either unclosed or contains an invalid character"
  | boundaryUnknown =>
    "unrecognized special word boundary assertion, valid choices are: start, end, start-half " ++
      "or end-half"
  | boundaryUnfinished =>
    "found either the beginning of a special word boundary or a bounded repetition on a \\b " ++
      "with an opening brace, but no closing brace"
  | flagUnknown => "unrecognized flag"
  | flagRepeated => "duplicate flag"
  | flagsUnfinished => "expected flag but got end of regex"
  | negationDangling => "dangling flag negation operator"
  | negationRepeated => "flag negation operator repeated"
  | nameEmpty => "empty capture group name"
  | nameCharacter => "invalid capture group character"
  | nameUnfinished => "unclosed capture group name"
  | nameRepeated => "duplicate capture group name"
  | groupUnclosed => "unclosed group"
  | groupUnopened => "unopened group"
  | lookAround => "look-around, including look-ahead and look-behind, is not supported"
  | tooDeep =>
    "exceed the maximum number of nested parentheses/brackets (" ++ toString depthLimit ++ ")"

end Regex

end Reparse
