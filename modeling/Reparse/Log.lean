/-!
# The log of a parse

A parse reports what it does as a list of notices, some by the scanner and the rest by the parser.
A notice keeps the names it mentions; `Notice.text` gives its wording.
-/

namespace Reparse

/-- Something a parse reports about itself. -/
inductive Notice where
  /-- A character became part of a token, or was skipped before it. -/
  | passed (skip : Bool) (char : Char)
  | began
  | lexed (symbol : String) (size : Nat)
  | unrecognized
  | shifted (symbol : String)
  | inserted (symbol : String)
  | skipped (symbol : String)
  | droppedLookahead
  | reused (symbol : String)
  | completed (symbol : String)
  | halted (limit : Nat)
  | finished
  deriving DecidableEq, Repr

namespace Notice

/-- Whether the scanner reports it, rather than the parser. -/
def isLexical : Notice → Bool
  | .passed _ _ => true
  | _ => false

/-- A printable ASCII character is shown in quotes and any other by its number. -/
def shownCharacter (char : Char) : String :=
  if ' ' ≤ char ∧ char < '\x7f' then "'" ++ char.toString ++ "'" else toString char.toNat

def text : Notice → String
  | .passed skip char =>
    (if skip then "skip" else "consume") ++ " character:" ++ shownCharacter char
  | .began => "new_parse"
  | .lexed symbol size => "lexed_lookahead sym:" ++ symbol ++ ", size:" ++ toString size
  | .unrecognized => "skip_unrecognized_character"
  | .shifted symbol => "shift sym:" ++ symbol
  | .inserted symbol => "recover_with_missing symbol:" ++ symbol
  | .skipped symbol => "skip_token symbol:" ++ symbol
  | .droppedLookahead => "discard_lookahead"
  | .reused symbol => "reuse_node symbol:" ++ symbol
  | .completed symbol => "reduce sym:" ++ symbol
  | .halted limit => "halt operation_limit:" ++ toString limit
  | .finished => "done"

end Notice

end Reparse
