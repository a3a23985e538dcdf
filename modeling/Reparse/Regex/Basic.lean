import Reparse.Regex.Depth
import Reparse.Regex.Excerpt
import Reparse.Regex.Grammar
import Reparse.Regex.Meaning
import Reparse.Regex.Size

/-!
# Regular expressions

`Regex.compile` reads a regular expression and gives it its meaning, and `Regex.matchesIn` tells
whether a text has a match for it.

Compilation fails in two ways. The text may be malformed, which has a place; or the expression may
be refused as a whole, which is told by a message that shows the part in question.
-/

namespace Reparse

/-- A regular expression that can be matched. -/
structure Regex where
  matcher : Regex.Matcher

/-- Why a text is no regular expression. -/
inductive RegexError where
  /-- The text is malformed at an offset in bytes. -/
  | malformed (offset : Nat) (mistake : Regex.Mistake)
  | refused (refusal : Regex.Refusal)
  deriving DecidableEq, Repr

namespace Regex

/-- The wording of a refusal of the expression that a text writes. -/
def Refusal.message (text : String) : Refusal → String
  | .meaningless stretch objection => excerpt text stretch objection.message
  | .tooLarge => "Compiled regex exceeds size limit of " ++ toString sizeLimit ++ " bytes."

/-- The regular expression that a text writes. -/
def compile (text : String) : Except RegexError Regex := do
  let expression ← (read text).mapError fun misreading =>
    RegexError.malformed misreading.offset misreading.mistake
  if let some start := expression.tooDeep? 0 then throw (.malformed start .tooDeep)
  let (matcher, _) ← (expression.matcher.run Modes.initial).mapError RegexError.refused
  if sizeLimit < matcher.size then throw (.refused .tooLarge)
  return ⟨matcher⟩

/-- Whether a text has a match anywhere. -/
def matchesIn (regex : Regex) (text : Text) : Bool := regex.matcher.matchesIn text

end Regex

end Reparse
