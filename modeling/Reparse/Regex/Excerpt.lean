import Reparse.Regex.Expression

/-!
# Excerpts

An objection to a part of an expression is shown under the text of the expression, with carets under
the part. The lines of a text of several lines are numbered and set between dividers, and a part
that goes over several lines is told by its ends instead.
-/

namespace Reparse

namespace Regex

/-- A place in a text by line and column, in characters and counted from one. -/
structure LinePlace where
  line : Nat
  column : Nat
  deriving DecidableEq, Repr

/-- The place of the character at an offset in bytes, from a place on. -/
def LinePlace.ofOffset (place : LinePlace) (offset : Nat) : List Char → LinePlace
  | [] => place
  | char :: rest =>
    if offset = 0 then place
    else
      let next := if char = '\n' then ⟨place.line + 1, 1⟩ else ⟨place.line, place.column + 1⟩
      LinePlace.ofOffset next (offset - char.utf8Size) rest

/-- The lines of a text without the characters that end them. The line that is being read is given,
the last character first. -/
def linesFrom (line : List Char) : List Char → List (List Char)
  | [] => if line.isEmpty then [] else [line.reverse]
  | char :: rest =>
    if char = '\n' then
      let line := match line with
        | '\r' :: line => line
        | line => line
      line.reverse :: linesFrom [] rest
    else linesFrom (char :: line) rest

/-- A number of copies of a character. -/
def copies (count : Nat) (char : Char) : String := String.ofList (List.replicate count char)

/-- A number in at least `width` places. -/
def inWidth (width number : Nat) : String :=
  let digits := toString number
  copies (width - digits.length) ' ' ++ digits

/-- The carets under a stretch of a line. A stretch without characters has one. -/
def carets (margin : Nat) (start stop : LinePlace) : String :=
  copies (margin + start.column - 1) ' ' ++ copies (max 1 (stop.column - start.column)) '^' ++ "\n"

/-- The lines of a text from line `number` on, each behind its number in `width` places or behind a
margin if there are no numbers, with the carets of the stretch if it begins there. -/
def excerptLines (width number : Nat) (stretch : Option (LinePlace × LinePlace)) :
    List (List Char) → String
  | [] => ""
  | line :: lines =>
    let lead := if width = 0 then "    " else inWidth width number ++ ": "
    let marks := match stretch with
      | some (start, stop) =>
        if start.line = number then carets (if width = 0 then 4 else width + 2) start stop else ""
      | none => ""
    lead ++ String.ofList line ++ "\n" ++ marks ++ excerptLines width (number + 1) stretch lines

/-- An objection to a stretch of a text. -/
def excerpt (text : String) (stretch : Stretch) (objection : String) : String :=
  let chars := text.toList
  let start := LinePlace.ofOffset ⟨1, 1⟩ stretch.start chars
  let stop := LinePlace.ofOffset ⟨1, 1⟩ stretch.stop chars
  let lines := linesFrom [] chars
  let count := lines.length + if chars.getLast? = some '\n' then 1 else 0
  let width := if count ≤ 1 then 0 else (toString count).length
  let marked := if start.line = stop.line then some (start, stop) else none
  let shown := excerptLines width 1 marked lines
  if chars.contains '\n' then
    let divider := copies 79 '~' ++ "\n"
    let note :=
      if start.line = stop.line then ""
      else
        "on line " ++ toString start.line ++ " (column " ++ toString start.column ++
          ") through line " ++ toString stop.line ++ " (column " ++ toString (stop.column - 1) ++
          ")\n"
    "regex parse error:\n" ++ divider ++ shown ++ divider ++ note ++ "error: " ++ objection
  else "regex parse error:\n" ++ shown ++ "error: " ++ objection

end Regex

end Reparse
