/-!
# Regular expressions as they are written

An expression keeps what its text says, before the flags that decide how it is meant are applied.
Parts whose meaning can be refused know the stretch of text they were written in, and parts that
count towards the depth of nesting know where they start.
-/

namespace Reparse

namespace Regex

/-- A stretch of the text of an expression, in bytes. -/
structure Stretch where
  start : Nat
  stop : Nat
  deriving DecidableEq, Repr

/-- A character that stands for itself. `isCode` tells that it was written by two hexadecimal
digits, so that it can mean a byte. -/
structure Literal where
  char : Char
  isCode : Bool
  stretch : Stretch
  deriving DecidableEq, Repr

/-- What is asked of a place between characters. -/
inductive Assertion where
  | lineStart
  | lineEnd
  | textStart
  | textEnd
  | boundary
  | noBoundary
  | wordStart
  | wordEnd
  | wordStartHalf
  | wordEndHalf
  deriving DecidableEq, Repr

/-- The sets with a letter of their own. -/
inductive Shorthand where
  | digit
  | space
  | word
  deriving DecidableEq, Repr

/-- The sets of ASCII characters with a name. -/
inductive AsciiSet where
  | alnum
  | alpha
  | ascii
  | blank
  | cntrl
  | digit
  | graph
  | lower
  | print
  | punct
  | space
  | upper
  | word
  | xdigit
  deriving DecidableEq, Repr

/-- A set of characters asked for by an escape. -/
inductive EscapedSet where
  | shorthand (kind : Shorthand) (negated : Bool)
  /-- A property by its name, or by a name and a value. -/
  | property (name : String) (value : Option String) (negated : Bool) (stretch : Stretch)
  deriving DecidableEq, Repr

/-- How two sets are combined. -/
inductive SetOperator where
  | intersection
  | difference
  | symmetricDifference
  deriving DecidableEq, Repr

/-- A set of characters, and what stands in one between brackets. -/
inductive SetExpression where
  | empty
  | literal (literal : Literal)
  | range (first last : Literal)
  | ascii (kind : AsciiSet) (negated : Bool)
  | escaped (set : EscapedSet)
  | bracketed (start : Nat) (negated : Bool) (body : SetExpression)
  /-- Two members or more side by side. -/
  | several (start : Nat) (members : List SetExpression)
  | operation (start : Nat) (operator : SetOperator) (left right : SetExpression)

/-- The ways of matching that a flag turns on or off. -/
inductive Flag where
  | ignoreCase
  | manyLines
  | dotMatchesNewline
  | swapGreed
  | unicode
  | carriageReturn
  | ignoreBlank
  deriving DecidableEq, Repr

/-- Flags with whether they are turned on. -/
abbrev FlagSetting := List (Flag × Bool)

/-- A regular expression. Which of several matches is preferred does not show in whether there is
one, so it is not kept. -/
inductive Expression where
  | empty
  | flags (setting : FlagSetting)
  | literal (literal : Literal)
  | dot
  | assertion (assertion : Assertion)
  | oneOf (set : SetExpression)
  | repetition (start : Nat) (least : Nat) (most : Option Nat) (body : Expression)
  | group (start : Nat) (setting : FlagSetting) (body : Expression)
  /-- Two parts or more, one after the other. -/
  | sequence (start : Nat) (parts : List Expression)
  /-- Two choices or more. -/
  | choice (start : Nat) (choices : List Expression)

end Regex

end Reparse
