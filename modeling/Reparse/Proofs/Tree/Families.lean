import Reparse.Proofs.Tree.Layout
import Reparse.Parse.Root

/-!
# Families of trees

What a parser builds is made of tokens and of nodes around what it built before, and it may take
over subtrees of older trees. A property that is handed on in this way is one that all its trees have,
whatever its tokens are (`Tree.IsFamily`) or if the tokens have it that it scans
(`Tree.IsHereditary`).
-/

namespace Reparse

/-- The record counts no nodes below it. -/
structure Info.CountsNothing (info : Info) : Prop where
  visibleChildren : info.visibleChildren = 0
  namedChildren : info.namedChildren = 0
  visibleDescendants : info.visibleDescendants = 0

namespace Tree

/-- All trees on some edges are in a family. -/
def Among (family : Tree → Prop) (children : List (Edge Tree)) : Prop :=
  ∀ edge ∈ children, family edge.tree

/-- Tokens are in the family, and with some trees also their children and the nodes around them. -/
structure IsFamily (family : Tree → Prop) : Prop where
  token {info : Info} (bare : info.CountsNothing) : family (node info [])
  branch {symbol state : Nat} {kind : SymbolKind} {children : List (Edge Tree)}
    (among : Among family children) : family (branch symbol state kind children)
  children {tree : Tree} (member : family tree) : Among family tree.children

/-- The leaves that a parse adds without a scan are in the family, and with some trees also their
children and the nodes around them. -/
structure IsHereditary (family : Tree → Prop) : Prop where
  ending (kind : SymbolKind) : family (leaf endSymbol Extent.zero Extent.zero 0 kind false)
  unexpected (char : Option Char) (padding size : Extent) (lookahead : Nat) :
    family (unexpected char padding size lookahead)
  missing (symbol : Nat) (kind : SymbolKind) : family (missing symbol kind)
  branch {symbol state : Nat} {kind : SymbolKind} {children : List (Edge Tree)}
    (among : Among family children) : family (branch symbol state kind children)
  children {tree : Tree} (member : family tree) : Among family tree.children

section Among

variable {family : Tree → Prop}

@[simp]
theorem among_nil : Among family [] := by simp [Among]

@[simp]
theorem among_cons {edge : Edge Tree} {rest : List (Edge Tree)} :
    Among family (edge :: rest) ↔ family edge.tree ∧ Among family rest := by
  simp [Among]

@[simp]
theorem among_append {left right : List (Edge Tree)} :
    Among family (left ++ right) ↔ Among family left ∧ Among family right := by
  simp only [Among, List.mem_append, or_imp, forall_and]

@[simp]
theorem among_reverse {children : List (Edge Tree)} :
    Among family children.reverse ↔ Among family children := by
  simp [Among]

/-- With some trees also the children of the root that is made of them are in the family. -/
theorem among_rootChildren (children : ∀ {tree}, family tree → Among family tree.children)
    {items : List (Edge Tree)} (among : Among family items) :
    Among family (rootChildren items) := by
  induction items with
  | nil => exact among
  | cons edge rest ih =>
      rcases among_cons.mp among with ⟨here, later⟩
      rw [rootChildren]
      split
      · exact among_append.mpr ⟨children here, ih later⟩
      · exact among_cons.mpr ⟨here, ih later⟩

end Among

/-- The leaves that a parse adds are tokens. -/
theorem IsFamily.isHereditary {family : Tree → Prop} (closed : IsFamily family) :
    IsHereditary family where
  ending _ := closed.token ⟨rfl, rfl, rfl⟩
  unexpected _ _ _ _ := closed.token ⟨rfl, rfl, rfl⟩
  missing _ _ := closed.token ⟨rfl, rfl, rfl⟩
  branch := closed.branch
  children := closed.children

namespace IsHereditary

variable {family : Tree → Prop}

section

variable (closed : IsHereditary family)

include closed

theorem error {children : List (Edge Tree)} (among : Among family children) :
    family (error children) := by
  apply closed.branch
  simpa [Among] using among

theorem rootChildren {items : List (Edge Tree)} (among : Among family items) :
    Among family (rootChildren items) :=
  among_rootChildren closed.children among

theorem root (vocabulary : Vocabulary) {items : List (Edge Tree)} (among : Among family items) :
    family (root vocabulary items) := by
  unfold Tree.root
  split
  · split
    · exact closed.error among
    · exact closed.branch (closed.rootChildren among)
  · exact closed.error among

end

mutual

/-- The subtrees of a tree of the family are in it. -/
theorem of_at (closed : IsHereditary family) {tree found : Tree} {path : List Nat}
    {offset : Nat} : tree.At path offset found → family tree → family found
  | .here _, member => member
  | .inside among, member => closed.of_atAmong among (closed.children member)

theorem of_atAmong (closed : IsHereditary family) {children : List (Edge Tree)}
    {found : Tree} {number : Nat} {path : List Nat} {offset : Nat} :
    AtAmong children number path offset found → Among family children → family found
  | .first within, member => closed.of_at within (among_cons.mp member).1
  | .later among, member => closed.of_atAmong among (among_cons.mp member).2

end

end IsHereditary

namespace IsFamily

variable {family : Tree → Prop} (closed : IsFamily family)

include closed

theorem error {children : List (Edge Tree)} (among : Among family children) :
    family (error children) :=
  closed.isHereditary.error among

theorem root (vocabulary : Vocabulary) {items : List (Edge Tree)} (among : Among family items) :
    family (root vocabulary items) :=
  closed.isHereditary.root vocabulary among

end IsFamily

end Tree

end Reparse
