import Reparse.Unicode.CodeSet

/-!
# Named sets of characters

The tables of character properties are lists of sets with their names. Names are compared loosely:
in lower case and without blanks, hyphens and low lines (`looseName`), which is how the tables spell
them.
-/

namespace Reparse

/-- A set of code points with the names it goes by, spelled loosely, and the steps between its
boundaries. -/
structure NamedSet where
  names : List String
  steps : List String

namespace NamedSet

/-- The members of the set. -/
def codes (set : NamedSet) : CodeSet := CodeSet.ofSteps set.steps

/-- The set of a table that goes by a name. -/
def find? (table : List NamedSet) (name : String) : Option NamedSet :=
  table.find? fun set => set.names.contains name

end NamedSet

/-- The letters of a name that count when names are compared, in lower case. -/
def looseLetters (letters : List Char) : List Char :=
  (letters.filter fun char => char < '\x80' && !" _-".contains char).map Char.toLower

/-- A name as the tables spell it. An initial "is" does not count, but in "isc" it does, because "c"
alone names something else. -/
def looseName (name : String) : String :=
  match name.toList with
  | first :: second :: letters =>
    if first.toLower == 'i' && second.toLower == 's' then
      let rest := looseLetters letters
      String.ofList (if rest == ['c'] then ['i', 's', 'c'] else rest)
    else String.ofList (looseLetters (first :: second :: letters))
  | letters => String.ofList (looseLetters letters)

end Reparse
