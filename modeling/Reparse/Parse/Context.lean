import Reparse.Parse.Event
import Reparse.Parse.Root
import Reparse.Scanner.Program
import Reparse.Syntax.Reuse

/-!
# The parsing interface

A grammar parses by looking at the next token (`peek`), consuming it (`bump`) and bracketing what it
consumed: `start` opens a node, `complete` closes it around everything added since, `abandon` gives
it up, and `precede` opens a node around one that is already complete. Tokens that are extras never
show in `peek`; they are added to the tree where they appear. With `reuse` a grammar takes over a
subtree of an older tree in place of parsing it again.

Every token scanned, every node completed and every subtree reused counts as one operation. Once
their number exceeds the limit the parse is halted: from then on the input seems to have ended.

A grammar is a program in the monad `Parsing`. Its loops are bounded by `Context.budget`, so that a
grammar that would go on for ever has the fault `endless` instead of no answer.
-/

namespace Reparse

/-- Something a grammar remarks on while it runs. -/
inductive Remark where
  | ate (found : Bool)
  | expected (found : Bool)
  | peeked (symbol : Nat)
  | halted (isHalted : Bool)
  | language (name : String)
  | reused (found : Bool)
  deriving DecidableEq, Repr

/-- The state of a parse. -/
structure Context where
  vocabulary : Vocabulary
  program : ScanProgram
  scanner : Scanner
  events : Array Event
  /-- A token that was scanned but not consumed. -/
  lookahead : Option Tree
  /-- The end of everything consumed. -/
  position : Extent
  /-- The edited older tree, where there is one to take subtrees from. -/
  older : Option Tree
  operations : Nat
  /-- The number of operations allowed, without limit if zero. -/
  limit : Nat
  isHalted : Bool
  /-- What the grammar remarked, latest first. -/
  remarks : List Remark

/-- A program that runs in a parse. -/
abbrev Parsing := StateT Context (Except Fault)

/-- A node that was opened, named by the place of its opening among the events. -/
structure OpenNode where
  place : Nat
  deriving DecidableEq, Repr

/-- A node that is complete, named by the place of its event. -/
structure CompleteNode where
  place : Nat
  deriving DecidableEq, Repr

namespace Context

/-- A parse that has not begun. -/
def new (vocabulary : Vocabulary) (program : ScanProgram) (text : Text) (spans : List Span)
    (older : Option Tree) (limit : Nat) : Context where
  vocabulary := vocabulary
  program := program
  scanner := Scanner.new text spans
  events := #[]
  lookahead := none
  position := Extent.zero
  older := older
  operations := 0
  limit := limit
  isHalted := false
  remarks := []

/-- More turns than any loop needs that consumes text or counts operations in every turn. -/
def budget (context : Context) : Nat := 4 * (context.scanner.text.size + context.limit) + 16

def report (context : Context) (notice : Notice) : Context :=
  { context with scanner := context.scanner.report notice }

/-- Counts an operation, and halts the parse if it was one too many. -/
def tick (context : Context) : Context :=
  let operations := context.operations + 1
  if 0 < context.limit ∧ context.limit < operations ∧ !context.isHalted then
    { context.report (.halted context.limit) with operations, isHalted := true }
  else { context with operations }

/-- Adds an event. -/
def record (context : Context) (event : Event) : Context :=
  { context with events := context.events.push event }

/-- Adds a token and moves past it. -/
def consume (context : Context) (token : Tree) : Context :=
  { context with
    position := context.position + token.total
    events := context.events.push (.added token none 0) }

/-- The token that the scanner found. -/
def foundToken (vocabulary : Vocabulary) (scanner : Scanner) (start : Extent) : Tree × Scanner :=
  let (scanner, seen) := scanner.finish
  let stop := scanner.tokenEnd
  (Tree.leaf scanner.symbol (scanner.tokenStart - start) (stop - scanner.tokenStart)
    (seen - stop.bytes) (vocabulary.kind scanner.symbol) (vocabulary.isExtra scanner.symbol),
    scanner)

/-- The token that ends the input. -/
def endToken (vocabulary : Vocabulary) (scanner : Scanner) (start skippedTo : Extent) :
    Tree × Scanner :=
  let (scanner, seen) := scanner.finish
  (Tree.leaf endSymbol (skippedTo - start) Extent.zero (seen - skippedTo.bytes)
    (vocabulary.kind endSymbol) false, scanner)

/-- One character as an unexpected leaf, where no token was found after the skipped text. -/
def unexpectedToken (scanner : Scanner) (start skippedTo : Extent) : Tree × Scanner :=
  let scanner := (scanner.reset skippedTo).start
  let char := scanner.lookahead
  let (scanner, seen) := (((scanner.report .unrecognized).advance false).markEnd).finish
  let stop := scanner.tokenEnd
  (Tree.unexpected (some char) (skippedTo - start) (stop - skippedTo) (seen - stop.bytes), scanner)

/-- Scans the token at the position, if the scan ends, and counts it as an operation. -/
def scanToken (context : Context) : Option (Tree × Context) :=
  let start := context.position
  match context.program.run (context.scanner.reset start).start with
  | none => none
  | some (found, scanner) =>
    let skippedTo := scanner.tokenStart
    let (token, scanner) :=
      if found then foundToken context.vocabulary scanner start
      else if scanner.atEnd ∧ scanner.position.bytes = skippedTo.bytes then
        endToken context.vocabulary scanner start skippedTo
      else unexpectedToken scanner start skippedTo
    let scanner := scanner.reset (start + token.total)
    let notice :=
      Notice.lexed (context.vocabulary.symbolName token.info.symbol) token.info.size.bytes
    some (token, (Context.report { context with scanner } notice).tick)

/-- Scans until a token that is no extra lies ahead, in at most `fuel` scans. -/
def fill (context : Context) : Nat → Option Context
  | 0 => none
  | fuel + 1 =>
    if context.isHalted ∨ context.lookahead.isSome then some context
    else
      match context.scanToken with
      | none => none
      | some (token, context) =>
        if context.isHalted then some context
        else if token.info.extra then (context.consume token).fill fuel
        else some { context with lookahead := some token }

/-- The symbol of the token that lies ahead, the end of the input if the parse is halted. -/
def ahead (context : Context) : Nat :=
  if context.isHalted then endSymbol
  else
    match context.lookahead with
    | some token => token.info.symbol
    | none => endSymbol

end Context

namespace Parsing

def report (notice : Notice) : Parsing Unit := modify (·.report notice)

def remark (remark : Remark) : Parsing Unit :=
  modify fun context => { context with remarks := remark :: context.remarks }

/-- The name of a symbol, as notices show it. -/
def symbolName (symbol : Nat) : Parsing String := return (← get).vocabulary.symbolName symbol

/-- The symbol of the next token that is no extra. -/
def peek : Parsing Nat := do
  let context ← get
  match context.fill context.budget with
  | none => throw .endless
  | some context =>
    set context
    return context.ahead

/-- Whether the next token has the symbol. -/
def at? (symbol : Nat) : Parsing Bool := return (← peek) == symbol

/-- Whether the input has ended, or seems so because the parse is halted. -/
def atEnd : Parsing Bool := at? endSymbol

/-- Consumes the next token, unless it is the end of the input. -/
def bump : Parsing Unit := do
  if (← peek) ≠ endSymbol then
    match (← get).lookahead with
    | none => return
    | some token =>
      report (.shifted (← symbolName token.info.symbol))
      modify fun context => { context with lookahead := none }.consume token

/-- Consumes the next token if it has the symbol. -/
def eat (symbol : Nat) : Parsing Bool := do
  if ← at? symbol then
    bump
    return true
  else return false

/-- Adds a missing token of the symbol. -/
def missing (symbol : Nat) : Parsing Unit := do
  report (.inserted (← symbolName symbol))
  modify fun context =>
    context.record (.added (Tree.missing symbol (context.vocabulary.kind symbol)) none 0)

/-- Consumes the next token if it has the symbol, and adds a missing one if it has not. -/
def expect (symbol : Nat) : Parsing Bool := do
  if ← eat symbol then return true
  else
    missing symbol
    return false

/-- Opens a node. -/
def start : Parsing OpenNode := do
  let place := (← get).events.size
  modify (·.record Event.blank)
  return ⟨place⟩

/-- Completes an open node around everything added since it was opened. -/
def complete (node : OpenNode) (symbol : Nat) : Parsing CompleteNode := do
  match (← get).events[node.place]? with
  | some (.opening _ wrapper field state) =>
    let completed := Event.opening (some symbol) wrapper field state
    modify fun context =>
      { context with
        events := (context.events.setIfInBounds node.place completed).push .closing }
    report (.completed (← symbolName symbol))
    modify (·.tick)
    return ⟨node.place⟩
  | some _ => throw .notOpen
  | none => throw .wrapperMissing

/-- Gives up an open node; what was added since belongs to the node around it. -/
def abandon (node : OpenNode) : Parsing Unit :=
  modify fun context =>
    if node.place + 1 = context.events.size then
      { context with events := context.events.pop }
    else context

/-- Opens a node around one that is complete. -/
def precede (node : CompleteNode) : Parsing OpenNode := do
  let wrapper ← start
  let distance := wrapper.place - node.place
  match (← get).events[node.place]? with
  | some (.opening symbol _ field state) =>
    modify fun context =>
      { context with
        events := context.events.setIfInBounds node.place
          (.opening symbol (some distance) field state) }
    return wrapper
  | some (.added tree _ field) =>
    modify fun context =>
      { context with
        events := context.events.setIfInBounds node.place (.added tree (some distance) field) }
    return wrapper
  | some .closing => throw .notOpen
  | none => throw .wrapperMissing

/-- Puts a complete node into a field of the node around it. -/
def setField (node : CompleteNode) (field : Nat) : Parsing Unit := do
  match (← get).events[node.place]? with
  | some (.opening symbol wrapper _ state) =>
    modify fun context =>
      { context with
        events := context.events.setIfInBounds node.place (.opening symbol wrapper field state) }
  | some (.added tree wrapper _) =>
    modify fun context =>
      { context with
        events := context.events.setIfInBounds node.place (.added tree wrapper field) }
  | some .closing => throw .notOpen
  | none => throw .wrapperMissing

/-- Sets the state in which a complete node may be used again. A reused subtree keeps its own. -/
def setState (node : CompleteNode) (state : Nat) : Parsing Unit := do
  match (← get).events[node.place]? with
  | some (.opening symbol wrapper field _) =>
    modify fun context =>
      { context with
        events := context.events.setIfInBounds node.place (.opening symbol wrapper field state) }
  | some _ => return
  | none => throw .wrapperMissing

/-- Wraps the next token in an error node, unless it is the end of the input. -/
def skipToken : Parsing Unit := do
  let symbol ← peek
  if symbol ≠ endSymbol then
    report (.skipped (← symbolName symbol))
    let node ← start
    bump
    discard <| complete node errorSymbol

/-- Takes over the subtree of the older tree that begins here and was completed in `state`. A token
that was scanned ahead is dropped and scanned again after the subtree. -/
def reuse (state : Nat) : Parsing (Option CompleteNode) := do
  let context ← get
  if context.isHalted then return none
  match context.older with
  | none => return none
  | some older =>
    match older.findReusable context.scanner.text.size context.position.bytes state with
    | none => return none
    | some tree =>
      if context.lookahead.isSome then
        modify fun context => { context with lookahead := none }
        report .droppedLookahead
      report (.reused (← symbolName tree.info.symbol))
      modify fun context =>
        let position := context.position + tree.total
        { context with position, scanner := context.scanner.reset position }
      let place := (← get).events.size
      modify fun context => (context.record (.added tree none 0)).tick
      return some ⟨place⟩

def isHalted : Parsing Bool := return (← get).isHalted

/-- Wraps every token up to the end of the input in an error node, in at most `fuel` turns. -/
def skipRest : Nat → Parsing Unit
  | 0 => throw .endless
  | fuel + 1 => do
    if !(← atEnd) then
      skipToken
      skipRest fuel

end Parsing

namespace Context

/-- The token that ends the tree. A halted parse first takes in all text it has not looked at as one
unexpected leaf. -/
def lastToken (context : Context) : Tree × Context :=
  match context.lookahead, context.isHalted with
  | some token, false => (token, { context with lookahead := none })
  | _, _ =>
    let scanner := (context.scanner.reset context.position).skipToEnd
    let stop := scanner.position
    let context := { context with scanner, lookahead := none }
    let context :=
      if context.position.bytes < stop.bytes then
        context.consume (Tree.unexpected none Extent.zero (stop - context.position) 0)
      else context
    (Tree.leaf endSymbol Extent.zero Extent.zero 0 (context.vocabulary.kind endSymbol) false,
      context)

end Context

/-- Runs a grammar on a parse and builds the tree. -/
def Parsing.wholeTree (grammar : Parsing Unit) : Parsing Tree := do
  report .began
  grammar
  skipRest (← get).budget
  let (last, context) := (← get).lastToken
  set context
  let items ← liftM (Event.fold? context.vocabulary context.events)
  report .finished
  return Tree.root context.vocabulary (items ++ [⟨0, last⟩])

end Reparse
