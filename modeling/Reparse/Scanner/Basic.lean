import Reparse.Log
import Reparse.Text.Span
import Reparse.Text.Utf8

/-!
# The scanner

A scanner reads a text character by character. It sees only the included spans: where a span ends,
it goes on at the start of the next one, and after the last it is at the end. While it scans a
token it remembers where the token starts, which moves along over skipped characters, and where it
ends.

A token that ends just where the scanner entered a span ends at the end of the span before it, so
that no token reaches into text that is not included.
-/

namespace Reparse

/-- The state of reading a text. -/
structure Scanner where
  text : Text
  /-- All included spans. -/
  spans : List Span
  /-- The span before the current one. -/
  previous : Option Span
  /-- The current span and those after it, empty at the end. -/
  ahead : List Span
  position : Extent
  tokenStart : Extent
  tokenStop : Option Extent
  /-- The character at the position, unless the scanner is at the end or was just placed there. -/
  loaded : Option (Char × Nat)
  /-- Whether the character read last stands for a malformed byte. -/
  malformed : Bool
  /-- The symbol of the token scanned last. -/
  symbol : Nat
  /-- What the parse reported so far, latest first. -/
  log : List Notice

namespace Scanner

/-- Nothing is left to read. -/
def atEnd (scanner : Scanner) : Bool := scanner.ahead.isEmpty

/-- The character at the position, NUL at the end. -/
def lookahead (scanner : Scanner) : Char :=
  match scanner.loaded with
  | some (char, _) => char
  | none => '\x00'

/-- The column of the position, counted in characters. -/
def column (scanner : Scanner) : Nat :=
  Utf8.countCharacters scanner.text
    (scanner.position.bytes - scanner.position.point.column) scanner.position.bytes

/-- Whether the position is the first byte of an included span. -/
def atSpanStart (scanner : Scanner) : Bool :=
  match scanner.ahead with
  | [] => false
  | span :: _ => scanner.position.bytes == span.start.bytes

def report (scanner : Scanner) (notice : Notice) : Scanner :=
  { scanner with log := notice :: scanner.log }

/-- Reads the character at the position. The end of the text is the end, whatever the spans say. -/
def load (scanner : Scanner) : Scanner :=
  match Utf8.next? scanner.text scanner.position.bytes with
  | some decoded =>
    { scanner with
      loaded := some (decoded.char, decoded.size)
      malformed := decoded.malformed }
  | none => { scanner with ahead := [], loaded := none, malformed := false }

/-- Passes over the spans that end at or before `position` and over empty ones. The result is the
place to read next, the span before it and the spans from there on. -/
def settle (position : Extent) (previous : Option Span) :
    List Span → Extent × Option Span × List Span
  | [] => (position, previous, [])
  | span :: rest =>
    if position.bytes < span.stop.bytes ∧ span.stop.bytes ≠ span.start.bytes then
      (position, previous, span :: rest)
    else
      match rest with
      | [] => (position, some span, [])
      | next :: _ => settle next.start (some span) rest

/-- Finds the first span that has text after `position`, and the span before it. -/
def locate (position : Extent) (previous : Option Span) :
    List Span → Option Span × List Span
  | [] => (previous, [])
  | span :: rest =>
    if position.bytes < span.stop.bytes ∧ span.start.bytes < span.stop.bytes then
      (previous, span :: rest)
    else locate position (some span) rest

/-- Places the scanner at the first included position from `position` on, without reading. -/
def goTo (scanner : Scanner) (position : Extent) : Scanner :=
  match locate position none scanner.spans with
  | (previous, span :: rest) =>
    { scanner with
      previous
      ahead := span :: rest
      position := if position.bytes ≤ span.start.bytes then span.start else position
      loaded := none }
  | (previous, []) =>
    { scanner with
      previous
      ahead := []
      position := match scanner.spans.getLast? with
        | some last => last.stop
        | none => position
      loaded := none }

/-- Places the scanner at `position` unless it is there. -/
def reset (scanner : Scanner) (position : Extent) : Scanner :=
  if position.bytes = scanner.position.bytes then scanner else scanner.goTo position

/-- A scanner at the first included position of a text. -/
def new (text : Text) (spans : List Span) : Scanner :=
  goTo
    { text, spans
      previous := none
      ahead := spans
      position := Extent.zero
      tokenStart := Extent.zero
      tokenStop := none
      loaded := none
      malformed := false
      symbol := 0
      log := [] }
    Extent.zero

/-- The place just after a character of the given size. -/
def past (position : Extent) (char : Char) (size : Nat) : Extent :=
  if char = '\n' then ⟨position.bytes + size, ⟨position.point.row + 1, 0⟩⟩
  else ⟨position.bytes + size, ⟨position.point.row, position.point.column + size⟩⟩

/-- Moves past the character at the position. -/
def step (scanner : Scanner) (skip : Bool) : Scanner :=
  let reached := match scanner.loaded with
    | some (char, size) => past scanner.position char size
    | none => scanner.position
  let (position, previous, ahead) := settle reached scanner.previous scanner.ahead
  let moved := { scanner with
    position, previous, ahead
    tokenStart := if skip then position else scanner.tokenStart }
  if ahead.isEmpty then { moved with loaded := none, malformed := false } else moved.load

/-- Moves past the character at the position and reports it. At the end nothing happens. -/
def advance (scanner : Scanner) (skip : Bool) : Scanner :=
  if scanner.atEnd then scanner
  else (scanner.report (.passed skip scanner.lookahead)).step skip

/-- Where a token that is complete at the position ends. -/
def tokenBoundary (scanner : Scanner) : Extent :=
  match scanner.ahead, scanner.previous with
  | span :: _, some previous =>
    if scanner.position.bytes = span.start.bytes then previous.stop else scanner.position
  | _, _ => scanner.position

/-- Ends the token at the position. -/
def markEnd (scanner : Scanner) : Scanner :=
  { scanner with tokenStop := some scanner.tokenBoundary }

/-- Ends the token at the position and gives it a symbol. -/
def accept (scanner : Scanner) (symbol : Nat) : Scanner := { scanner with symbol }.markEnd

/-- Where the token ends, the position if that was not said. -/
def tokenEnd (scanner : Scanner) : Extent := scanner.tokenStop.getD scanner.position

/-- The mark that may stand at the beginning of a text and belongs to no token. -/
def byteOrderMark : Char := '\uFEFF'

/-- Begins a token at the position. -/
def start (scanner : Scanner) : Scanner :=
  let fresh := { scanner with
    tokenStart := scanner.position
    tokenStop := none
    symbol := 0 }
  if fresh.atEnd then fresh
  else
    let fresh := if fresh.loaded.isNone then fresh.load else fresh
    if fresh.position.bytes = 0 ∧ fresh.lookahead = byteOrderMark then fresh.step true else fresh

/-- Finishes a token. The second result is the end of the bytes its scan depended on: the byte after
the position, and four more if a malformed byte was read there. -/
def finish (scanner : Scanner) : Scanner × Nat :=
  let scanner := if scanner.tokenStop.isNone then scanner.markEnd else scanner
  let scanner :=
    if scanner.tokenEnd.bytes < scanner.tokenStart.bytes then
      { scanner with tokenStart := scanner.tokenEnd }
    else scanner
  let seen := min (scanner.position.bytes + 1) maxOffset
  (scanner, if scanner.malformed then min (seen + 4) maxOffset else seen)

/-- A bound on the characters left: every step that does not reach the end makes it smaller. -/
def remaining (scanner : Scanner) : Nat :=
  scanner.ahead.length * (scanner.text.size + 1) + (scanner.text.size - scanner.position.bytes)

/-- Moves past characters until the end. The run stops if a step does not move forward, which no
step past a loaded character does. -/
def runToEnd (scanner : Scanner) : Scanner :=
  if scanner.atEnd then scanner
  else
    let next := scanner.step false
    if next.remaining < scanner.remaining then runToEnd next else next
termination_by scanner.remaining

/-- Moves to the end without reporting. -/
def skipToEnd (scanner : Scanner) : Scanner :=
  if scanner.atEnd || scanner.loaded.isSome then scanner.runToEnd else scanner.load.runToEnd

end Scanner

end Reparse
