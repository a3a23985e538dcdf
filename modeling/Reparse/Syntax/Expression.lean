import Reparse.Syntax.Tree

/-!
# Trees as S-expressions

The S-expression of a tree lists its named nodes, each in parentheses behind the name of its field.
A missing token is shown even if it is anonymous, then in quotes, and an unexpected character is
shown itself. A hidden node passes its field on to its children; an extra has no field.
-/

namespace Reparse

/-- How an unexpected character is shown: in quotes if it is printable ASCII or has an escape, else
by its number. -/
def shownUnexpected (char : Char) : String :=
  if char = '\x00' then "'\\0'"
  else if char = '\n' then "'\\n'"
  else if char = '\t' then "'\\t'"
  else if char = '\r' then "'\\r'"
  else if ' ' ≤ char ∧ char ≤ '~' then "'" ++ char.toString ++ "'"
  else toString char.toNat

namespace Tree

/-- Whether a node appears in the S-expression. -/
def isShown (info : Info) : Bool := info.missing || (info.visible && info.named)

/-- What stands behind the opening parenthesis of a node. -/
def heading (vocabulary : Vocabulary) (info : Info) (children : List (Edge Tree)) : String :=
  let name := vocabulary.symbolName info.symbol
  let ordinary :=
    if info.missing then "MISSING " ++ (if info.named then name else "\"" ++ name ++ "\"") else name
  match info.unexpected with
  | some char =>
    if info.isError && children.isEmpty && decide (0 < info.size.bytes) then
      "UNEXPECTED " ++ shownUnexpected char
    else ordinary
  | none => ordinary

/-- The field under which a child appears: its own, or the one its hidden parent appears under. -/
def shownField (vocabulary : Vocabulary) (parentShown : Bool) (inherited : Option String)
    (field : Nat) (child : Info) : Option String :=
  if child.extra then none
  else (vocabulary.fieldName? field).or (if parentShown then none else inherited)

mutual

/-- Writes a tree behind `written`; every node but the outermost one is set off by a space. -/
def writeExpression (vocabulary : Vocabulary) (written : String) (field : Option String)
    (outermost : Bool) : Tree → String
  | node info children =>
    if isShown info then
      let written := if outermost then written else written ++ " "
      let written := match field with
        | some name => written ++ name ++ ": "
        | none => written
      let written := written ++ "(" ++ heading vocabulary info children
      writeChildren vocabulary written true field children ++ ")"
    else writeChildren vocabulary written false field children

def writeChildren (vocabulary : Vocabulary) (written : String) (parentShown : Bool)
    (inherited : Option String) : List (Edge Tree) → String
  | [] => written
  | ⟨field, child⟩ :: rest =>
    let shown := shownField vocabulary parentShown inherited field child.info
    writeChildren vocabulary (writeExpression vocabulary written shown false child) parentShown
      inherited rest

end

/-- The S-expression of a tree. -/
def expression (vocabulary : Vocabulary) (tree : Tree) : String :=
  tree.writeExpression vocabulary "" none true

end Tree

end Reparse
