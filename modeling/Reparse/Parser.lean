import Reparse.Document
import Reparse.Parse.Context

/-!
# Parsers

A parser holds the settings of a parse: the language, the spans of the text it may see, a limit on
the number of operations, and whether somebody listens to its log. Parsing a text gives a document.

Given the edited document of an earlier parse, the parser takes over subtrees from it. It does so
only if that document has the same language and now includes the same spans.
-/

namespace Reparse

/-- The settings of a parse. -/
structure Parser where
  language : Option Language
  /-- The spans that a parse may see, all of the text if there are none. -/
  spans : List Span
  /-- The number of operations allowed, without limit if zero. -/
  limit : Nat
  hasLogger : Bool

/-- What a parse gives: the document, the log, and the remarks of the grammar. -/
structure Parsed where
  document : Document
  log : List Notice
  remarks : List Remark

/-- A language whose tables are of a version that the parser does not know. -/
structure VersionError where
  version : Nat
  deriving DecidableEq, Repr

def VersionError.message (error : VersionError) : String :=
  "Incompatible language version " ++ toString error.version ++
    ". Expected a version between " ++ toString oldestVersion ++ " and " ++ toString newestVersion

/-- Spans that are out of order or overlap, from the given one on. -/
structure SpanOrderError where
  index : Nat
  deriving DecidableEq, Repr

def SpanOrderError.message (error : SpanOrderError) : String :=
  "Incorrect range by index: " ++ toString error.index

namespace Parser

def new : Parser := ⟨none, [], 0, false⟩

/-- Sets the language, unless its tables are too old or too new. -/
def setLanguage (parser : Parser) (language : Language) : Except VersionError Parser :=
  let version := language.vocabulary.version
  if oldestVersion ≤ version ∧ version ≤ newestVersion then
    .ok { parser with language := some language }
  else .error ⟨version⟩

/-- Sets the spans that a parse may see, if they are in order and do not overlap. -/
def setSpans (parser : Parser) (spans : List Span) : Except SpanOrderError Parser :=
  match Span.firstMisplaced spans with
  | none => .ok { parser with spans }
  | some index => .error ⟨index⟩

/-- The spans that a parse may see. -/
def included (parser : Parser) : List Span :=
  if parser.spans.isEmpty then [Span.whole] else parser.spans

/-- The tree whose subtrees a parse may take over. -/
def reusableTree (parser : Parser) (language : Language) (old : Option Document) : Option Tree :=
  match old with
  | none => none
  | some old =>
    if old.language.isSame language ∧ old.spans = parser.included then some old.tree else none

/-- Parses a text in a language. -/
def parseIn (parser : Parser) (language : Language) (text : Text) (old : Option Document) :
    Except Fault Parsed :=
  let older := parser.reusableTree language old
  let context :=
    Context.new language.vocabulary language.program text parser.included older parser.limit
  match StateT.run (Parsing.wholeTree language.grammar) context with
  | .error fault => .error fault
  | .ok (tree, context) =>
    .ok
      { document := Document.new language text tree parser.included
        log := context.scanner.log.reverse
        remarks := context.remarks.reverse }

/-- How a point is shown among the settings. -/
def shownPoint (point : Point) : String :=
  "Point \x7b row: " ++ toString point.row ++ ", column: " ++ toString point.column ++ " \x7d"

/-- How a span is shown among the settings. -/
def shownSpan (span : Span) : String :=
  "Range \x7b start_byte: " ++ toString span.start.bytes ++ ", end_byte: " ++
    toString span.stop.bytes ++ ", start_point: " ++ shownPoint span.start.point ++
    ", end_point: " ++ shownPoint span.stop.point ++ " \x7d"

/-- How the settings are shown to a developer. -/
def summary (parser : Parser) : String :=
  let language := match parser.language with
    | none => "None"
    | some language => "Some(" ++ language.summary ++ ")"
  "Parser \x7b language: " ++ language ++ ", included_ranges: [" ++
    ", ".intercalate (parser.spans.map shownSpan) ++ "], operation_limit: " ++
    toString parser.limit ++ ", logger: " ++ toString parser.hasLogger ++ " \x7d"

end Parser

end Reparse
