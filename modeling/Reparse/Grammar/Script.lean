import Reparse.Language.Basic

/-!
# Scripted languages

A language can be given as data. A list of token rules says which characters begin, continue and
follow a token; a set of named rules, each a list of actions, says how trees are built.

A rule that is called has registers of its own, for the nodes it opened and for those it completed.
Completing or abandoning a node empties its register. A rule must not end, and must not reuse a
register, while a node in it is open.
-/

namespace Reparse

namespace Script

/-! ## Tokens -/

/-- A rule for a token, or for text to skip. -/
structure TokenRule where
  /-- The characters it begins with, any if absent. -/
  first : Option (List Char)
  /-- The column it begins in, where it matters. -/
  column : Option Nat
  /-- Whether it begins where an included span does, where it matters. -/
  atSpanStart : Option Bool
  skip : Bool
  /-- The characters it goes on with. -/
  more : List Char
  /-- The characters after it that the scan looks at. -/
  beyond : List Char
  symbol : Nat
  deriving Repr

namespace TokenRule

/-- Looks at the characters after a token, in a loop with the given label. -/
def beyondBlock (rule : TokenRule) (label : Nat) : Block :=
  .look fun char atEnd =>
    if !atEnd && rule.beyond.contains char then .advance false (.jump label) else .stop true

/-- Consumes the rest of a token, in a loop with the given label, and then looks beyond it. -/
def moreBlock (rule : TokenRule) (label beyondLabel : Nat) : Block :=
  .look fun char atEnd =>
    if !atEnd && rule.more.contains char then .advance false (.jump label)
    else .accept rule.symbol (rule.beyondBlock beyondLabel)

/-- Begins a token, or skips a character and begins again. -/
def beginBlock (rule : TokenRule) (label : Nat) : Block :=
  if rule.skip then .advance true (.jump 0) else .advance false (.jump label)

/-- Goes on with `chosen` if the rule applies at the next character, else with `otherwise`. -/
def chooseBlock (rule : TokenRule) (chosen otherwise : Block) : Block :=
  let spanTest := match rule.atSpanStart with
    | none => chosen
    | some wanted => .atSpanStart fun here => if here == wanted then chosen else otherwise
  let columnTest := match rule.column with
    | none => spanTest
    | some wanted => .column fun column => if column == wanted then spanTest else otherwise
  match rule.first with
  | none => columnTest
  | some chars => .look fun char _ => if chars.contains char then columnTest else otherwise

end TokenRule

/-- Chooses the first rule that applies; rule number `n` has the labels `2n + 1` and `2n + 2`. -/
def chooseFrom (number : Nat) : List TokenRule → Block
  | [] => .stop false
  | rule :: rest =>
    rule.chooseBlock (rule.beginBlock (2 * number + 1)) (chooseFrom (number + 1) rest)

/-- The scan program of a list of token rules. -/
def program (rules : Array TokenRule) : ScanProgram
  | 0 => .look fun _ atEnd => if atEnd then .stop false else chooseFrom 0 rules.toList
  | label + 1 =>
    match rules[label / 2]? with
    | none => .stop false
    | some rule =>
      if label % 2 = 0 then rule.moreBlock (label + 1) (label + 2) else rule.beyondBlock (label + 1)

/-! ## Actions -/

/-- A test of the state of a parse. -/
inductive Condition where
  /-- The next token has one of the symbols. -/
  | at (symbols : List Nat)
  | atEnd
  | isHalted
  /-- The register holds a complete node. -/
  | holds (register : String)
  | negation (condition : Condition)
  deriving Repr

/-- An action of a rule. Nodes are named by registers. -/
inductive Action where
  | start (node : String)
  | complete (node : String) (symbol : Nat) (result : Option String)
  | abandon (node : String)
  | precede (node wrapper : String)
  | setField (node : String) (field : Nat)
  | setState (node : String) (state : Nat)
  | bump
  | missing (symbol : Nat)
  | skipToken
  | eat (symbol : Nat)
  | expect (symbol : Nat)
  | peek
  | isHalted
  | language
  | reuse (state : Nat) (result : String)
  | call (rule : String) (result : Option String)
  | finish (result : Option String)
  | branch (condition : Condition) (positive negative : List Action)
  | loop (condition : Condition) (body : List Action)

/-- The registers of a rule that runs. -/
structure Registers where
  opened : List (String × OpenNode)
  completed : List (String × CompleteNode)

namespace Registers

def empty : Registers := ⟨[], []⟩

/-- Removes a register. -/
def without {α : Type} (name : String) (registers : List (String × α)) : List (String × α) :=
  registers.filter fun register => register.1 != name

/-- Puts a complete node into a register, or empties the register. -/
def put (registers : Registers) (name : String) (node : Option CompleteNode) : Registers :=
  match node with
  | some node => { registers with completed := (name, node) :: without name registers.completed }
  | none => { registers with completed := without name registers.completed }

/-- Puts an opened node into a register, which must not hold one that is still open. -/
def open? (registers : Registers) (name : String) (node : OpenNode) : Parsing Registers :=
  if (registers.opened.lookup name).isSome then throw .leftOpen
  else return { registers with opened := (name, node) :: registers.opened }

/-- Takes an open node out of its register. -/
def takeOpen (registers : Registers) (name : String) : Parsing (OpenNode × Registers) :=
  match registers.opened.lookup name with
  | some node => return (node, { registers with opened := without name registers.opened })
  | none => throw .unknownNode

/-- Reads the complete node in a register. -/
def get (registers : Registers) (name : String) : Parsing CompleteNode :=
  match registers.completed.lookup name with
  | some node => return node
  | none => throw .unknownNode

/-- The value of a rule that ends with these registers. -/
def result (registers : Registers) (name : Option String) : Parsing (Option CompleteNode) :=
  if registers.opened.isEmpty then
    return name.bind fun name => registers.completed.lookup name
  else throw .leftOpen

end Registers

open Parsing (remark)

/-- Whether the next token has one of the symbols, which are tried in order. -/
def atAny : List Nat → Parsing Bool
  | [] => return false
  | symbol :: rest => do if ← Parsing.at? symbol then return true else atAny rest

def Condition.test (registers : Registers) : Condition → Parsing Bool
  | .at symbols => atAny symbols
  | .atEnd => Parsing.atEnd
  | .isHalted => Parsing.isHalted
  | .holds register => return (registers.completed.lookup register).isSome
  | .negation condition => return !(← condition.test registers)

/-- An action that neither branches nor calls a rule. -/
def Action.perform (registers : Registers) : Action → Parsing Registers
  | .start name => do registers.open? name (← Parsing.start)
  | .complete name symbol result => do
    let (node, registers) ← registers.takeOpen name
    let node ← Parsing.complete node symbol
    match result with
    | some result => return registers.put result (some node)
    | none => return registers
  | .abandon name => do
    let (node, registers) ← registers.takeOpen name
    Parsing.abandon node
    return registers
  | .precede name wrapper => do
    let node ← registers.get name
    let node ← Parsing.precede node
    (registers.put name none).open? wrapper node
  | .setField name field => do
    Parsing.setField (← registers.get name) field
    return registers
  | .setState name state => do
    Parsing.setState (← registers.get name) state
    return registers
  | .bump => do
    Parsing.bump
    return registers
  | .missing symbol => do
    Parsing.missing symbol
    return registers
  | .skipToken => do
    Parsing.skipToken
    return registers
  | .eat symbol => do
    remark (.ate (← Parsing.eat symbol))
    return registers
  | .expect symbol => do
    remark (.expected (← Parsing.expect symbol))
    return registers
  | .peek => do
    remark (.peeked (← Parsing.peek))
    return registers
  | .isHalted => do
    remark (.halted (← Parsing.isHalted))
    return registers
  | .language => do
    remark (.language (← get).vocabulary.name)
    return registers
  | .reuse state result => do
    let node ← Parsing.reuse state
    remark (.reused node.isSome)
    return registers.put result node
  | _ => return registers

/-- The named rules of a grammar. -/
abbrev Rules := List (String × List Action)

/-- Runs the actions of a rule and gives its value. A branch or a turn of a loop puts its actions in
front of the rest, so that ending the rule inside them drops the rest too. -/
def run (rules : Rules) : Nat → List Action → Registers → Parsing (Option CompleteNode)
  | 0, _, _ => throw .endless
  | _ + 1, [], registers => registers.result none
  | fuel + 1, action :: rest, registers =>
    match action with
    | .finish result => registers.result result
    | .branch condition positive negative => do
      if ← condition.test registers then run rules fuel (positive ++ rest) registers
      else run rules fuel (negative ++ rest) registers
    | .loop condition body => do
      if ← condition.test registers then run rules fuel (body ++ action :: rest) registers
      else run rules fuel rest registers
    | .call name result =>
      match rules.lookup name with
      | none => throw .unknownNode
      | some actions => do
        let value ← run rules fuel actions Registers.empty
        match result with
        | some result => run rules fuel rest (registers.put result value)
        | none => run rules fuel rest registers
    | _ => do
      let registers ← action.perform registers
      run rules fuel rest registers

/-- The number of actions allowed for each unit of a parse's budget. -/
def actionsPerUnit : Nat := 1000

/-- The grammar that runs the rule `main`. -/
def grammar (rules : Rules) : Parsing Unit := do
  match rules.lookup "main" with
  | none => throw .unknownNode
  | some actions =>
    discard <| run rules (actionsPerUnit * (← get).budget) actions Registers.empty

end Script

end Reparse
