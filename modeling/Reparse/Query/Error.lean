import Reparse.Text.Slice

/-!
# Query errors

An error in a query text has a kind and a place. Errors in the form of the text quote the line with
a caret under the place; the others name what is wrong.
-/

namespace Reparse

/-- What is wrong with a query. -/
inductive QueryErrorKind where
  | form
  | nodeType
  | field
  | capture
  | predicate
  | structural
  deriving DecidableEq, Repr

def QueryErrorKind.title : QueryErrorKind → String
  | form => "Invalid syntax"
  | nodeType => "Invalid node type"
  | field => "Invalid field name"
  | capture => "Invalid capture name"
  | predicate => "Invalid predicate"
  | structural => "Impossible pattern"

/-- An error with its place in rows and byte columns, counted from zero. -/
structure QueryError where
  kind : QueryErrorKind
  row : Nat
  column : Nat
  offset : Nat
  message : String
  deriving DecidableEq, Repr

namespace QueryError

/-- The text of an error as a user sees it, rows and columns counted from one. -/
def display (error : QueryError) : String :=
  error.kind.title ++ " at " ++ toString (error.row + 1) ++ ":" ++ toString (error.column + 1) ++
    ": " ++ error.message

/-- Where the last line begins in some bytes: behind the last line break, or at the start. -/
def lineStart (bytes : List UInt8) : Nat :=
  bytes.length - (bytes.reverse.takeWhile (· != 10)).length

/-- The error at a byte offset of a query text. An offset past the end means the end. -/
def located (text : List Char) (kind : QueryErrorKind) (offset : Nat) (message : String) :
    QueryError :=
  let bytes := Utf8.encode text
  let offset := min offset bytes.length
  let before := bytes.take offset
  { kind, offset, message
    row := before.count 10
    column := offset - lineStart before }

/-- The line around a byte offset, and a caret under the offset. -/
def quotation? (text : List Char) (offset : Nat) : Option String := do
  let bytes := Utf8.encode text
  let offset := min offset bytes.length
  let start := lineStart (bytes.take offset)
  let tail ← Utf8.from? start text
  let line ← Utf8.slice? start (start + Utf8.width (tail.takeWhile (· != '\n'))) text
  return String.ofList line ++ "\n" ++ String.ofList (List.replicate (offset - start) ' ') ++ "^"

end QueryError

end Reparse
