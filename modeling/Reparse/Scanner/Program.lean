import Reparse.Scanner.Basic

/-!
# Scan programs

A language finds its tokens with a program that sees the scanner only through a few questions: the
next character, whether the input has ended, the column, and whether an included span starts here.
The program is a family of blocks numbered by labels. A block asks and acts until it stops or jumps
to a label; local variables of any kind can be coded into the labels.

Between two jumps the scanner has to move forward. A program that jumps without having moved would
do so for ever, since it sees the same input again, and its scan has no result.
-/

namespace Reparse

/-- A stretch of a scan program. -/
inductive Block where
  /-- Ends the scan and says whether a token was found. -/
  | stop (found : Bool)
  | jump (label : Nat)
  /-- Asks for the next character and whether the input has ended. -/
  | look (next : Char → Bool → Block)
  | column (next : Nat → Block)
  | atSpanStart (next : Bool → Block)
  | advance (skip : Bool) (next : Block)
  | markEnd (next : Block)
  | accept (symbol : Nat) (next : Block)

/-- How a block ends. -/
inductive BlockEnd where
  | stopped (found : Bool)
  | jumped (label : Nat)
  deriving DecidableEq, Repr

namespace Block

/-- Runs a block up to its stop or jump. -/
def run (scanner : Scanner) : Block → BlockEnd × Scanner
  | stop found => (.stopped found, scanner)
  | jump label => (.jumped label, scanner)
  | look next => (next scanner.lookahead scanner.atEnd).run scanner
  | column next => (next scanner.column).run scanner
  | atSpanStart next => (next scanner.atSpanStart).run scanner
  | advance skip next => next.run (scanner.advance skip)
  | markEnd next => next.run scanner.markEnd
  | accept symbol next => next.run (scanner.accept symbol)

end Block

/-- The blocks of a scan program; the scan of a token begins with block 0. -/
abbrev ScanProgram := Nat → Block

namespace ScanProgram

/-- Runs a program from a label on: whether it found a token, and the scanner after it. -/
def runFrom (program : ScanProgram) (label : Nat) (scanner : Scanner) : Option (Bool × Scanner) :=
  match (program label).run scanner with
  | (.stopped found, reached) => some (found, reached)
  | (.jumped label, reached) =>
    if reached.remaining < scanner.remaining then program.runFrom label reached else none
termination_by scanner.remaining

/-- Scans one token. -/
def run (program : ScanProgram) (scanner : Scanner) : Option (Bool × Scanner) :=
  program.runFrom 0 scanner

end ScanProgram

end Reparse
