import Reparse.Language.Basic
import Reparse.Query.Pattern
import Reparse.Query.Predicate

/-!
# Queries

A query is a list of patterns for the nodes of one language. Captures are numbered by their first
occurrence in the query text. A pattern may describe several siblings in a row.
-/

namespace Reparse

/-- A pattern of a query and what goes with it. -/
structure QueryPattern where
  /-- Where the pattern begins in the query text. -/
  start : Nat
  /-- The siblings that it describes. -/
  sequence : List Pattern
  tests : List TextTest
  predicates : List Predicate

/-- A compiled query. -/
structure Query where
  language : Language
  patterns : Array QueryPattern
  captureNames : List String
  /-- The strings among the arguments of predicates, each once. -/
  strings : List String

namespace Query

def captureIndex? (query : Query) (name : String) : Option Nat :=
  query.captureNames.findIdx? (· == name)

/-- The predicates of a pattern that are left to whoever runs the query. -/
def predicatesOf (query : Query) (pattern : Nat) : List Predicate :=
  match query.patterns[pattern]? with
  | some pattern => pattern.predicates
  | none => []

/-- The bytes of a text from `start` to `stop`, none if it does not reach that far. -/
def sliceOf (text : Text) (start stop : Nat) : Text :=
  if start ≤ stop ∧ stop ≤ text.size then text.extract start stop else #[]

/-- Whether the text tests of a pattern are met by captured byte ranges of a source. -/
def isSatisfied (query : Query) (pattern : Nat) (captures : List (Nat × Nat × Nat))
    (source : Text) : Bool :=
  match query.patterns[pattern]? with
  | none => true
  | some pattern =>
    let texts (index : Nat) : List Text :=
      (captures.filter fun capture => capture.1 == index).map fun (_, start, stop) =>
        sliceOf source start stop
    pattern.tests.all fun test => test.isMet texts

/-- How a query is shown to a developer. -/
def summary (query : Query) : String :=
  "Query \x7b language: " ++ query.language.summary ++ ", pattern_count: " ++
    toString query.patterns.size ++ ", capture_names: [" ++
    ", ".intercalate (query.captureNames.map quoted) ++ "] \x7d"

end Query

end Reparse
