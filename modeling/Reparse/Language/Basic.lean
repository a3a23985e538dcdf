import Reparse.Parse.Context
import Reparse.Text.Quoted

/-!
# Languages

A language is its vocabulary, the program that finds its tokens and the grammar that builds its
trees. Languages with the same contents are still different languages: a number tells them apart.
-/

namespace Reparse

/-- A language that texts can be parsed in. -/
structure Language where
  /-- The number that tells this language from others. -/
  identity : Nat
  vocabulary : Vocabulary
  program : ScanProgram
  grammar : Parsing Unit

namespace Language

def name (language : Language) : String := language.vocabulary.name

/-- Whether two languages are the same one. -/
def isSame (left right : Language) : Bool := left.identity == right.identity

/-- How a language is shown to a developer. -/
def summary (language : Language) : String := "Language(" ++ quoted language.name ++ ")"

/-- How the tables of a language are shown to a developer. -/
def tableSummary (language : Language) : String :=
  "LanguageDefinition \x7b name: " ++ quoted language.name ++ ", abi_version: " ++
    toString language.vocabulary.version ++ ", symbol_count: " ++
    toString language.vocabulary.symbolCount ++ ", .. \x7d"

end Language

/-- A symbol number that a language does not have. -/
structure UnknownSymbol where
  symbol : Nat
  language : String
  count : Nat
  deriving DecidableEq, Repr

def UnknownSymbol.message (unknown : UnknownSymbol) : String :=
  "Symbol id " ++ toString unknown.symbol ++ " is out of range for language " ++ unknown.language ++
    " with " ++ toString unknown.count ++ " symbols"

/-- The name of a symbol that must be one of the vocabulary's. -/
def Vocabulary.checkedName (vocabulary : Vocabulary) (symbol : Nat) :
    Except UnknownSymbol String :=
  if vocabulary.isSymbol symbol then .ok (vocabulary.symbolName symbol)
  else .error ⟨symbol, vocabulary.name, vocabulary.symbolCount⟩

/-- The class of a symbol that must be one of the vocabulary's. -/
def Vocabulary.checkedClass (vocabulary : Vocabulary) (symbol : Nat) :
    Except UnknownSymbol SymbolClass :=
  if vocabulary.isSymbol symbol then .ok (vocabulary.symbolClass symbol)
  else .error ⟨symbol, vocabulary.name, vocabulary.symbolCount⟩

end Reparse
