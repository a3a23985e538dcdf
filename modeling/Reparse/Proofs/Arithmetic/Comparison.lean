import Reparse.Proofs.Arithmetic.Rounds
import Reparse.Proofs.Difference.Alike
import Reparse.Proofs.Difference.Faithful

/-!
# Comparing a document with a new parse of its text

A comparison passes over two nodes whose records agree without looking into them. In the arithmetic
language that is safe: if one of them is in a document that was edited along with its text, and the
other one in a new parse of that text, they are equal, missing tokens included
(`Arithmetic.bare_eq_of_ofPlaces_equal`). Only operands carry a state that they may be used again in,
so nodes that are taken for equal are operands; the text of an operand that no edit touched is still
there, and from the same text the same operand is derived.
-/

namespace Reparse

namespace Arithmetic

open Reparse.Tree (Among)

/-! ## States -/

/-- Every node of the tree has the state of operands or none. -/
def Staged (tree : Tree) : Prop :=
  tree.Everywhere fun info _ => info.state = noState ∨ info.state = operandState

theorem staged_node {info : Info} {children : List (Edge Tree)} :
    Staged (.node info children) ↔
      (info.state = noState ∨ info.state = operandState) ∧ Among Staged children := by
  unfold Staged
  rw [Tree.everywhere_node, Tree.everywhereAmong_iff]
  rfl

theorem staged_branch {symbol state : Nat} {kind : SymbolKind} {items : List (Edge Tree)}
    (staged : state = noState ∨ state = operandState) (among : Among Staged items) :
    Staged (Tree.branch symbol state kind items) := staged_node.mpr ⟨staged, among⟩

theorem staged_error {items : List (Edge Tree)} (among : Among Staged items) :
    Staged (Tree.error items) := by
  apply staged_branch (Or.inl rfl)
  simpa [Among] using among

theorem Staged.children {tree : Tree} (staged : Staged tree) : Among Staged tree.children := by
  cases tree with
  | node info children => exact (staged_node.mp staged).2

theorem Staged.state_of_at {tree found : Tree} {path : List Nat} {offset : Nat}
    (staged : Staged tree) (at_ : tree.At path offset found) (used : found.info.state ≠ noState) :
    found.info.state = operandState := by
  have below : Staged found := at_.everywhere staged
  cases found with
  | node info children => exact (staged_node.mp below).1.resolve_left used

section Expressions

variable {text : Text} {offset stop : Nat}

theorem Scanned.staged {token : Tree} (scanned : Scanned text offset token stop) : Staged token := by
  cases scanned <;> exact staged_node.mpr ⟨Or.inl rfl, Tree.among_nil⟩

theorem isOperandFamily_staged (text : Text) : IsOperandFamily text Staged where
  token scanned _ := scanned.staged
  missing _ _ := staged_node.mpr ⟨Or.inl rfl, Tree.among_nil⟩
  branch := staged_branch

theorem Expressions.staged {items : List (Edge Tree)} (expressions : Expressions text offset items) :
    Among Staged items := by
  have closed := isOperandFamily_staged text
  induction expressions with
  | ended extras scanned =>
      simpa using ⟨extras.in_family closed, scanned.staged⟩
  | expression extras first sums _ ih =>
      have items := sums.in_family closed (first.in_family closed)
      simpa using ⟨extras.in_family closed, items, ih⟩
  | skipped extras scanned _ _ _ _ ih =>
      have error : Staged (Tree.error [⟨0, _⟩]) :=
        staged_error (Tree.among_cons.mpr ⟨scanned.staged, Tree.among_nil⟩)
      simpa using ⟨extras.in_family closed, error, ih⟩

theorem Expressions.staged_root {items : List (Edge Tree)}
    (expressions : Expressions text offset items) : Staged (Tree.root vocabulary items) := by
  have among := expressions.staged
  unfold Tree.root
  split
  · split
    · exact staged_error among
    · exact staged_branch (Or.inl rfl) (Tree.among_rootChildren Staged.children among)
  · exact staged_error among

end Expressions

variable {parser : Parser} {identity : Nat} {document current next : Document}
  {text currentText : Text}

/-- A node of a derived tree that may be used again is an operand. -/
theorem Derives.operand_of_state (derives : Derives document text) {path : List Nat} {offset : Nat}
    {found : Tree} (at_ : document.tree.At path offset found)
    (used : found.info.state ≠ noState) :
    found.info.state = operandState ∧ ∃ stop, Operand text offset found stop := by
  rcases derives with ⟨items, expressions, treeEq⟩
  rw [treeEq] at at_
  have state := expressions.staged_root.state_of_at at_ used
  rcases expressions.root.1 path offset found at_ state with ⟨stop, operand⟩
  rw [Nat.zero_add] at operand
  exact ⟨state, stop, operand⟩

/-! ## Nodes that are taken for equal -/

/-- Operands of two texts are the same if the one text reads there as the other does and their
contents are equally long. -/
theorem Operand.bare_eq {other : Text} {source target stop last : Nat} {tree again : Tree}
    (operand : Operand text source tree stop) (operandAgain : Operand other target again last)
    (mirrors : text.Mirrors other source target stop) (beginning : source = 0 → target = 0)
    (size : tree.info.size.bytes = again.info.size.bytes) : tree.bare = again.bare := by
  have whole := operand.part.bytes_total
  have wholeAgain := operandAgain.part.bytes_total
  rcases operand.first with ⟨token, inner, scanned, within, opens, _, padding⟩
  rcases operandAgain.first with ⟨tokenAgain, _, scannedAgain, _, _, _, paddingAgain⟩
  have start : Alongside text other source target stop (stop - source + target) :=
    ⟨mirrors, by omega, beginning⟩
  have first := (scanned.alike start (known_of_opensOperand opens) within scannedAgain).1
  have paddings : tree.info.padding = again.info.padding := by
    rw [padding, paddingAgain]
    have infos := congrArg Tree.info first
    simp only [Tree.info_bare, Info.mk.injEq] at infos
    exact infos.2.2.1
  have ends : last + source = stop + target := by
    simp only [Tree.total, Info.total, Extent.bytes_add, paddings] at whole wholeAgain
    omega
  exact (operand.alike ⟨mirrors, ends, beginning⟩ (Nat.le_refl _) operandAgain (Nat.le_refl _)).1

/-- An unmarked node of a document that was edited along with its text is the same as a node of a
derivation of that text if they begin together, their contents are equally long and both may be
used again. -/
theorem Derives.bare_eq (derives : Derives document text) (obtained : document.Obtained)
    (revised : document.Revised text current currentText) (again : Derives next currentText)
    {oldPath newPath : List Nat} {offset : Nat} {old new : Tree}
    (oldAt : current.tree.At oldPath offset old) (newAt : next.tree.At newPath offset new)
    (unmarked : old.info.changed = false) (oldUsed : old.info.state ≠ noState)
    (newUsed : new.info.state ≠ noState) (size : old.info.size.bytes = new.info.size.bytes) :
    old.bare = new.bare := by
  rcases revised.agree obtained oldAt unmarked with ⟨_, before, _⟩
  have state := (derives.operand_of_state before oldUsed).1
  rcases derives.operand_of_unmarked obtained revised oldAt state unmarked with
    ⟨source, stop, operand, mirrors, beginning⟩
  rcases again.operand_of_state newAt newUsed with ⟨_, last, operandAgain⟩
  exact operand.bare_eq operandAgain mirrors beginning size

/-- A new parse of an edited text, with the edited document or without it, gives a tree whose nodes
are equal to those of the edited tree that a comparison takes them for: the trees below them are the
same, but for the record of the bytes that scans looked at. -/
theorem bare_eq_of_ofPlaces_equal (round : Round identity document text)
    (revised : document.Revised text current currentText) (unconfined : parser.Unconfined)
    (short : currentText.size < maxOffset) {older : Option Document}
    (taken : older = none ∨ older = some current) :
    ∃ result, parser.parseIn (Language.arithmetic identity) currentText older = .ok result ∧
      ∀ ⦃old new : Walker⦄ ⦃oldEntry newEntry : WalkEntry⦄,
        Trace current.tree old.stack → Trace result.document.tree new.stack →
        old.visibleNode? = some oldEntry → new.visibleNode? = some newEntry →
        Comparison.ofPlaces old new = .equal → oldEntry.tree.bare = newEntry.tree.bare := by
  have parses : ∃ result,
      parser.parseIn (Language.arithmetic identity) currentText older = .ok result ∧
        Derives result.document currentText := by
    rcases taken with rfl | rfl
    · exact exists_derives_of_scratch unconfined short
    · exact round.derives.exists_reparse round.obtained revised unconfined short
  rcases parses with ⟨result, run, again⟩
  refine ⟨result, run, ?_⟩
  intro old new oldEntry newEntry oldTrace newTrace oldFound newFound equal
  rcases Walker.at_of_visibleNode oldTrace oldFound with ⟨oldPath, oldAt⟩
  rcases Walker.at_of_visibleNode newTrace newFound with ⟨newPath, newAt⟩
  rcases Tree.agree_of_ofPlaces_equal oldFound newFound equal with
    ⟨_, start, size, oldUsed, newUsed, unmarked⟩
  rw [← start] at newAt
  exact round.derives.bare_eq round.obtained revised again oldAt newAt unmarked oldUsed newUsed size

/-- In `12+(3`, whose first number is replaced by `457`, the operand in parentheses is taken for equal.
Its closing parenthesis is missing in both trees. -/
theorem bare_eq_of_ofPlaces_equal_missing :
    ∃ (document reparsed : Parsed) (old new : Walker) (oldEntry newEntry : WalkEntry),
      Parser.new.parseIn (Language.arithmetic 0) #[49, 50, 43, 40, 51] none = .ok document ∧
      Parser.new.parseIn (Language.arithmetic 0) #[52, 53, 55, 43, 40, 51]
        (some (document.document.edit ⟨⟨0, ⟨0, 0⟩⟩, ⟨2, ⟨0, 2⟩⟩, ⟨3, ⟨0, 3⟩⟩⟩)) = .ok reparsed ∧
      Trace (document.document.edit ⟨⟨0, ⟨0, 0⟩⟩, ⟨2, ⟨0, 2⟩⟩, ⟨3, ⟨0, 3⟩⟩⟩).tree old.stack ∧
      Trace reparsed.document.tree new.stack ∧
      old.visibleNode? = some oldEntry ∧ new.visibleNode? = some newEntry ∧
      Comparison.ofPlaces old new = .equal ∧ 0 < oldEntry.tree.info.cost ∧
      oldEntry.tree.bare = newEntry.tree.bare := by
  let edit : Edit := ⟨⟨0, ⟨0, 0⟩⟩, ⟨2, ⟨0, 2⟩⟩, ⟨3, ⟨0, 3⟩⟩⟩
  -- two nodes down to the one that stands over the byte 4
  let below (tree : Tree) : Walker := (((Walker.new tree).descend 4).2.descend 4).2
  have traced {tree : Tree} (begun : tree.info.padding.bytes ≤ 4) :
      Trace tree (below tree).stack := by
    have first := Walker.seek_spec (Walker.stands_new tree begun) (by simp [Walker.new])
    have second := Walker.seek_spec first.stands first.inhabited
    exact second.stands.trace second.inhabited
  have facts : ((Parser.new.parseIn (Language.arithmetic 0) #[49, 50, 43, 40, 51] none).toOption.any
      fun old => (Parser.new.parseIn (Language.arithmetic 0) #[52, 53, 55, 43, 40, 51]
        (some (old.document.edit edit))).toOption.any fun new =>
          let before := below (old.document.edit edit).tree
          let after := below new.document.tree
          decide ((old.document.edit edit).tree.info.padding.bytes ≤ 4) &&
            decide (new.document.tree.info.padding.bytes ≤ 4) &&
            (before.visibleNode?.any fun entry => decide (0 < entry.tree.info.cost)) &&
            after.visibleNode?.isSome &&
            decide (Comparison.ofPlaces before after = .equal)) = true := by decide +kernel
  have unconfined : Parser.new.Unconfined := ⟨rfl, rfl⟩
  cases run : Parser.new.parseIn (Language.arithmetic 0) #[49, 50, 43, 40, 51] none with
  | error fault => simp [run, Except.toOption] at facts
  | ok old =>
      have fits : edit.Fits #[49, 50, 43, 40, 51] #[52, 53, 55] :=
        ⟨by decide, by decide, by decide⟩
      rcases bare_eq_of_ofPlaces_equal (.scratch unconfined (by decide) run)
        (.edited .unedited fits) unconfined (by decide) (Or.inr rfl) with ⟨new, again, sound⟩
      have again : Parser.new.parseIn (Language.arithmetic 0) #[52, 53, 55, 43, 40, 51]
          (some (old.document.edit edit)) = .ok new := again
      simp only [run, again, Except.toOption, Option.any_some, Bool.and_eq_true, decide_eq_true_eq,
        Option.any_eq_true, Option.isSome_iff_exists] at facts
      rcases facts with ⟨⟨⟨⟨oldBegun, newBegun⟩, oldEntry, oldFound, cost⟩, newEntry, newFound⟩, equal⟩
      exact ⟨old, new, _, _, oldEntry, newEntry, rfl, again, traced oldBegun, traced newBegun, oldFound,
        newFound, equal, cost, sound (traced oldBegun) (traced newBegun) oldFound newFound equal⟩

end Arithmetic

end Reparse
