import Reparse.Grammar.Script
import Reparse.Proofs.Difference.Canonical
import Reparse.Proofs.Document.Obtained

/-!
# Comparisons of documents

A comparison of two documents ends unless the root of one of them is hidden, that of the other one is
not, and the tree with the hidden root is at least as long as the other tree. Such a comparison goes
on for ever in its first round.

Where it ends, and both roots are visible, it lists stretches in order (`changedSpans_canonical`).
-/

namespace Reparse

open Reparse.Tree (Comparable)
open Reparse.Tree.Diffing (Reaches begin)

/-- The comparison of two documents ends if and only if their trees are comparable. If they are not,
no number of moves and rounds is enough. No walker ever gets to a depth below zero. -/
theorem comparison_ends_iff {old new : Document} (oldObtained : old.Obtained)
    (newObtained : new.Obtained) :
    ((old.changedSpans new).isSome = true ↔ Comparable old.tree new.tree) ∧
      (¬ Comparable old.tree new.tree → ∀ included moves fuel,
        (begin old.tree new.tree included).run moves fuel = none) ∧
      ∀ included moves diffing walker, Reaches moves (begin old.tree new.tree included) diffing →
        diffing.Passes walker → 0 ≤ walker.depth := by
  have oldLaid := oldObtained.sound.laid
  have newLaid := newObtained.sound.laid
  refine ⟨Tree.isSome_changedSpans_iff oldLaid newLaid _, ?_, ?_⟩
  · intro incomparable included moves fuel
    exact Tree.Diffing.run_begin_eq_none oldLaid newLaid included incomparable moves fuel
  · intro included moves diffing walker reaches passes
    exact (reaches.ready oldLaid newLaid).depth_nonneg oldLaid newLaid passes

/-- A new parse of `12+3` after its first number became `457`, without the old tree. -/
theorem comparison_ends_iff_replaced :
    ∃ old new : Document, old.Obtained ∧ new.Obtained ∧
      (old.changedSpans new).isSome = true := by
  let edit : Edit := ⟨⟨0, ⟨0, 0⟩⟩, ⟨2, ⟨0, 2⟩⟩, ⟨3, ⟨0, 3⟩⟩⟩
  have facts : (match Parser.new.parseIn (Language.arithmetic 0) #[49, 50, 43, 51] none,
        Parser.new.parseIn (Language.arithmetic 0) #[52, 53, 55, 43, 51] none with
      | .ok old, .ok new =>
        (old.document.edit edit).tree.info.visible && new.document.tree.info.visible
      | _, _ => false) = true := by decide +kernel
  cases oldRun : Parser.new.parseIn (Language.arithmetic 0) #[49, 50, 43, 51] none with
  | error fault => simp [oldRun] at facts
  | ok old =>
      cases newRun : Parser.new.parseIn (Language.arithmetic 0) #[52, 53, 55, 43, 51] none with
      | error fault => simp [oldRun, newRun] at facts
      | ok new =>
          simp only [oldRun, newRun, Bool.and_eq_true] at facts
          have oldObtained : old.document.Obtained :=
            .parsed Arithmetic.byInterface_grammar (by simp) oldRun
          have newObtained : new.document.Obtained :=
            .parsed Arithmetic.byInterface_grammar (by simp) newRun
          have forward : edit.Forward := ⟨by decide, by decide⟩
          refine ⟨old.document.edit edit, new.document, oldObtained.edited forward, newObtained,
            (comparison_ends_iff (oldObtained.edited forward) newObtained).1.mpr ?_⟩
          exact Tree.comparable_of_visible (facts.1.trans facts.2.symm)

/-! ## What a comparison lists -/

/-- Wraps the token `a` in a node and takes no other text. -/
def veiledRules : Script.Rules :=
  [("main", [.branch (.at [1]) [.start "m", .bump, .complete "m" 2 none] []])]

/-- A language in which `a` is a text with a hidden root. -/
def Language.veiled : Language where
  identity := 1
  vocabulary :=
    { name := "veiled"
      version := newestVersion
      symbols := #["end", "a", "root"]
      kinds := #[.auxiliary, .regular, .auxiliary]
      fields := #[""]
      extras := []
      nodeTypes := [] }
  program := Script.program #[⟨some ['a'], none, none, false, [], [], 1⟩]
  grammar := Script.grammar veiledRules

theorem byInterface_veiled : Parsing.ByInterface Language.veiled.grammar :=
  Script.byInterface_grammar veiledRules

/-- The text `b` has no token and gives an error node as its root, which is visible. It is as long as
`a`, whose root is hidden. -/
theorem comparison_of_veiled_endless :
    ∃ old new : Parsed,
      Parser.new.parseIn Language.veiled #[97] none = .ok old ∧
      Parser.new.parseIn Language.veiled #[98] none = .ok new ∧
      old.document.Obtained ∧ new.document.Obtained ∧
      old.document.changedSpans new.document = none := by
  have facts : (match Parser.new.parseIn Language.veiled #[97] none,
        Parser.new.parseIn Language.veiled #[98] none with
      | .ok old, .ok new => (old.document.changedSpans new.document).isNone
      | _, _ => false) = true := by decide +kernel
  cases oldRun : Parser.new.parseIn Language.veiled #[97] none with
  | error fault => simp [oldRun] at facts
  | ok old =>
      cases newRun : Parser.new.parseIn Language.veiled #[98] none with
      | error fault => simp [oldRun, newRun] at facts
      | ok new =>
          simp only [oldRun, newRun, Option.isNone_iff_eq_none] at facts
          exact ⟨old, new, rfl, rfl, .parsed byInterface_veiled (by simp) oldRun,
            .parsed byInterface_veiled (by simp) newRun, facts⟩

end Reparse
