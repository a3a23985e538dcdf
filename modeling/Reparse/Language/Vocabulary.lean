/-!
# Vocabularies

A language names its symbols and fields by number. Symbol 0 is the end of the input and the largest
16-bit number is the error symbol, which every language has and no vocabulary lists. Field 0 means
"no field". For each symbol the vocabulary says whether its nodes are visible and whether they are
named; a number past the table is neither.

Looking up a name gives 0 where there is none: neither the end of the input nor "no field" can be
asked for.
-/

namespace Reparse

/-- The symbol of the token that ends the input. -/
def endSymbol : Nat := 0

/-- The symbol of error nodes. -/
def errorSymbol : Nat := 65535

/-- The state of nodes that are never reused. -/
def noState : Nat := 0

/-- The oldest and the newest version of the tables that a parser accepts. -/
def oldestVersion : Nat := 13
def newestVersion : Nat := 15

/-- Whether the nodes of a symbol appear in navigation, and whether they count as named there. -/
structure SymbolKind where
  visible : Bool
  named : Bool
  deriving DecidableEq, Repr, Inhabited

namespace SymbolKind

def regular : SymbolKind := ⟨true, true⟩
def anonymous : SymbolKind := ⟨true, false⟩
def auxiliary : SymbolKind := ⟨false, true⟩
def unknown : SymbolKind := ⟨false, false⟩

end SymbolKind

/-- How a symbol is classified for a reader of the tables. -/
inductive SymbolClass where
  | regular
  | anonymous
  | auxiliary
  deriving DecidableEq, Repr

def SymbolClass.label : SymbolClass → String
  | .regular => "Regular"
  | .anonymous => "Anonymous"
  | .auxiliary => "Auxiliary"

/-- The symbols that a node may have as children: those in each field, and those in no field. -/
structure NodeType where
  symbol : Nat
  fields : List (Nat × List Nat)
  children : List Nat
  deriving Repr

/-- The tables of a language. -/
structure Vocabulary where
  name : String
  version : Nat
  symbols : Array String
  kinds : Array SymbolKind
  fields : Array String
  extras : List Nat
  nodeTypes : List NodeType
  deriving Repr

namespace Vocabulary

def symbolCount (vocabulary : Vocabulary) : Nat := vocabulary.symbols.size

/-- The number of fields, "no field" not counted. -/
def fieldCount (vocabulary : Vocabulary) : Nat := vocabulary.fields.size - 1

def symbolName? (vocabulary : Vocabulary) (symbol : Nat) : Option String :=
  if symbol = errorSymbol then some "ERROR" else vocabulary.symbols[symbol]?

/-- The name of a symbol, empty for a number that names none. -/
def symbolName (vocabulary : Vocabulary) (symbol : Nat) : String :=
  (vocabulary.symbolName? symbol).getD ""

def kind (vocabulary : Vocabulary) (symbol : Nat) : SymbolKind :=
  if symbol = errorSymbol then .regular else (vocabulary.kinds[symbol]?).getD .unknown

def symbolClass (vocabulary : Vocabulary) (symbol : Nat) : SymbolClass :=
  match vocabulary.kind symbol with
  | ⟨true, true⟩ => .regular
  | ⟨true, false⟩ => .anonymous
  | ⟨false, _⟩ => .auxiliary

/-- Whether a number is a symbol of the language or the error symbol. -/
def isSymbol (vocabulary : Vocabulary) (symbol : Nat) : Bool :=
  symbol == errorSymbol || decide (symbol < vocabulary.symbolCount)

/-- The first visible symbol from number `index` on with the given name and namedness, 0 if none. -/
def findSymbol (vocabulary : Vocabulary) (name : String) (named : Bool) (index : Nat) :
    List String → Nat
  | [] => 0
  | candidate :: rest =>
    let kind := vocabulary.kind index
    if kind.visible && kind.named == named && candidate == name then index
    else vocabulary.findSymbol name named (index + 1) rest

/-- The visible symbol with this name and namedness, 0 if there is none. -/
def symbolNamed (vocabulary : Vocabulary) (name : String) (named : Bool) : Nat :=
  if named && name == "ERROR" then errorSymbol
  else vocabulary.findSymbol name named 0 vocabulary.symbols.toList

def fieldName? (vocabulary : Vocabulary) (field : Nat) : Option String :=
  if field = 0 then none else vocabulary.fields[field]?

/-- The number of the field with this name, 0 if there is none. -/
def fieldNamed (vocabulary : Vocabulary) (name : String) : Nat :=
  match (vocabulary.fields.toList.drop 1).findIdx? (· == name) with
  | some index => index + 1
  | none => 0

def isExtra (vocabulary : Vocabulary) (symbol : Nat) : Bool := vocabulary.extras.contains symbol

def nodeType? (vocabulary : Vocabulary) (symbol : Nat) : Option NodeType :=
  vocabulary.nodeTypes.find? fun nodeType => nodeType.symbol == symbol

end Vocabulary

end Reparse
