import Reparse.Regex.Expression
import Reparse.Regex.Matcher
import Reparse.Unicode.CaseFolding

/-!
# The meaning of regular expressions

An expression means a matcher once the flags are known that hold where its parts stand. A flag that
an expression sets holds up to the end of the group around it.

Where Unicode is turned off, sets are sets of bytes, so they can have no character above ASCII, and
there are no properties; but a character outside sets still means its bytes. An expression that is
well formed can therefore be refused. So can one that asks for an unknown property, or whose matcher
would be too large.
-/

namespace Reparse

namespace Regex

/-- The flags that hold where a part stands. -/
structure Modes where
  ignoreCase : Bool
  manyLines : Bool
  dotMatchesNewline : Bool
  unicode : Bool
  carriageReturn : Bool
  deriving DecidableEq, Repr

namespace Modes

/-- The flags that hold at the start of an expression. -/
def initial : Modes := ⟨false, false, false, true, false⟩

/-- Turns a flag on or off. Some flags make no difference to what matches. -/
def turn (modes : Modes) (entry : Flag × Bool) : Modes :=
  match entry with
  | (.ignoreCase, isOn) => { modes with ignoreCase := isOn }
  | (.manyLines, isOn) => { modes with manyLines := isOn }
  | (.dotMatchesNewline, isOn) => { modes with dotMatchesNewline := isOn }
  | (.unicode, isOn) => { modes with unicode := isOn }
  | (.carriageReturn, isOn) => { modes with carriageReturn := isOn }
  | (.swapGreed, _) | (.ignoreBlank, _) => modes

/-- The flags after a change. -/
def apply (modes : Modes) (setting : FlagSetting) : Modes := setting.foldl turn modes

end Modes

/-- Why a part of a well-formed expression means nothing. -/
inductive Objection where
  | needsUnicode
  | property (fault : PropertyFault)
  deriving DecidableEq, Repr

/-- The wording of an objection. -/
def Objection.message : Objection → String
  | needsUnicode => "Unicode not allowed here"
  | property .unknownProperty => "Unicode property not found"
  | property .unknownValue => "Unicode property value not found"

/-- Why an expression is refused. -/
inductive Refusal where
  | meaningless (stretch : Stretch) (objection : Objection)
  | tooLarge
  deriving DecidableEq, Repr

/-! ## Sets -/

/-- The members of a set of ASCII characters. -/
def AsciiSet.codes : AsciiSet → CodeSet
  | alnum => ⟨[0x30, 0x3A, 0x41, 0x5B, 0x61, 0x7B]⟩
  | alpha => ⟨[0x41, 0x5B, 0x61, 0x7B]⟩
  | ascii => ⟨[0, 0x80]⟩
  | blank => ⟨[0x9, 0xA, 0x20, 0x21]⟩
  | cntrl => ⟨[0, 0x20, 0x7F, 0x80]⟩
  | digit => ⟨[0x30, 0x3A]⟩
  | graph => ⟨[0x21, 0x7F]⟩
  | lower => ⟨[0x61, 0x7B]⟩
  | print => ⟨[0x20, 0x7F]⟩
  | punct => ⟨[0x21, 0x30, 0x3A, 0x41, 0x5B, 0x61, 0x7B, 0x7F]⟩
  | space => ⟨[0x9, 0xE, 0x20, 0x21]⟩
  | upper => ⟨[0x41, 0x5B]⟩
  | word => ⟨[0x30, 0x3A, 0x41, 0x5B, 0x5F, 0x60, 0x61, 0x7B]⟩
  | xdigit => ⟨[0x30, 0x3A, 0x41, 0x47, 0x61, 0x67]⟩

/-- The members of a set with a letter, those of all scripts or those in ASCII. -/
def Shorthand.codes (unicode : Bool) : Shorthand → CodeSet
  | digit => if unicode then digitCharacters else AsciiSet.codes .digit
  | space => if unicode then spaceCharacters else AsciiSet.codes .space
  | word => if unicode then wordCharacters else AsciiSet.codes .word

namespace Modes

variable (modes : Modes)

/-- A set with what it also means while case is ignored. -/
def fold (set : CodeSet) : CodeSet :=
  if !modes.ignoreCase then set
  else if modes.unicode then set.foldCase
  else set.foldCaseAscii

/-- A set, or its complement. -/
def negate (negated : Bool) (set : CodeSet) : CodeSet := if negated then set.complement else set

/-- The code of a character in a set. -/
def literalCode (literal : Literal) : Except Refusal Nat :=
  let code := literal.char.toNat
  if modes.unicode || code < 0x80 || (literal.isCode && code < 0x100) then .ok code
  else .error (.meaningless literal.stretch .needsUnicode)

/-- The members of a set that an escape asks for. -/
def escapedCodes : EscapedSet → Except Refusal CodeSet
  | .shorthand kind negated => .ok (negate negated (kind.codes modes.unicode))
  | .property name value negated stretch =>
    if !modes.unicode then .error (.meaningless stretch .needsUnicode)
    else
      let found := match value with
        | none => namedCharacters name
        | some value => valuedCharacters name value
      match found with
      | .ok set => .ok (negate negated (modes.fold set))
      | .error fault => .error (.meaningless stretch (.property fault))

mutual

/-- The members of a set, which are characters or bytes. -/
def setCodes : SetExpression → Except Refusal CodeSet
  | .empty => .ok CodeSet.empty
  | .literal literal => return CodeSet.single (← modes.literalCode literal)
  | .range first last =>
    return CodeSet.range (← modes.literalCode first) (← modes.literalCode last)
  | .ascii kind negated => .ok (negate negated (modes.fold kind.codes))
  | .escaped set => modes.escapedCodes set
  | .bracketed _ negated body => return negate negated (modes.fold (← setCodes body))
  | .several _ members => memberCodes members
  | .operation _ operator left right => do
    let left := modes.fold (← setCodes left)
    let right := modes.fold (← setCodes right)
    match operator with
    | .intersection => return left.inter right
    | .difference => return left.sdiff right
    | .symmetricDifference => return left.symmDiff right

/-- The members of any of some sets. -/
def memberCodes : List SetExpression → Except Refusal CodeSet
  | [] => .ok CodeSet.empty
  | set :: sets => return (← setCodes set).union (← memberCodes sets)

end

/-! ## Expressions -/

/-- What matches a member of a set. -/
def oneOf (set : CodeSet) : Matcher := if modes.unicode then .char set else .byte set

/-- What matches a literal. Two hexadecimal digits mean a byte where Unicode is turned off. -/
def literalMatcher (literal : Literal) : Matcher :=
  let code := literal.char.toNat
  if !modes.unicode && literal.isCode && 0x80 ≤ code && code < 0x100 then
    .byte (CodeSet.single code)
  else .char (modes.fold (CodeSet.single code))

/-- What a dot matches. -/
def dot : Matcher :=
  modes.oneOf <|
    if modes.dotMatchesNewline then CodeSet.empty.complement
    else if modes.carriageReturn then (CodeSet.ofList [10, 13]).complement
    else (CodeSet.single 10).complement

/-- What an assertion asks for. -/
def look : Assertion → Look
  | .lineStart => if modes.manyLines then .lineStart modes.carriageReturn else .textStart
  | .lineEnd => if modes.manyLines then .lineEnd modes.carriageReturn else .textEnd
  | .textStart => .textStart
  | .textEnd => .textEnd
  | .boundary => .boundary modes.unicode
  | .noBoundary => .noBoundary modes.unicode
  | .wordStart => .wordStart modes.unicode
  | .wordEnd => .wordEnd modes.unicode
  | .wordStartHalf => .wordStartHalf modes.unicode
  | .wordEndHalf => .wordEndHalf modes.unicode

end Modes

/-- Gives meaning to parts of an expression in order, keeping the flags that hold. -/
abbrev Meaning := StateT Modes (Except Refusal)

mutual

/-- What an expression means. -/
def Expression.matcher : Expression → Meaning Matcher
  | .empty => return .nothing
  | .flags setting => do
    modify fun modes => modes.apply setting
    return .nothing
  | .literal written => return (← get).literalMatcher written
  | .dot => return (← get).dot
  | .assertion asked => return .look ((← get).look asked)
  | .oneOf set => do
    let modes ← get
    return modes.oneOf (← (modes.setCodes set : Except Refusal CodeSet))
  | .repetition _ least most body => return .repetition least most (← body.matcher)
  | .group _ setting body => do
    let modes ← get
    set (modes.apply setting)
    let matcher ← body.matcher
    set modes
    return matcher
  | .sequence _ parts => Expression.sequenceMatcher parts
  | .choice _ choices => Expression.choiceMatcher choices

/-- What expressions one after the other mean. -/
def Expression.sequenceMatcher : List Expression → Meaning Matcher
  | [] => return .nothing
  | [part] => part.matcher
  | part :: parts => do
    let first ← part.matcher
    return .sequence first (← Expression.sequenceMatcher parts)

/-- What expressions to choose from mean. -/
def Expression.choiceMatcher : List Expression → Meaning Matcher
  | [] => return .nothing
  | [part] => part.matcher
  | part :: choices => do
    let first ← part.matcher
    return .choice first (← Expression.choiceMatcher choices)

end

end Regex

end Reparse
