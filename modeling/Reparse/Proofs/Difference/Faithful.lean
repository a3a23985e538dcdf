import Reparse.Proofs.Tree.Kinds
import Reparse.Syntax.Difference

/-!
# Nodes that are taken for equal

A comparison looks at the records of two nodes only. It can pass over both if nodes that agree in
their records also agree in what is below them (`Tree.Faithful`), as it is where both come from the
same text and one of them may have been taken over from the tree of the other.
-/

namespace Reparse

/-- A walker that stands in a node which begins at `start`. -/
def Walker.at (tree : Tree) (start : Extent) : Walker := ⟨[⟨tree, start, true, []⟩], 1, false⟩

namespace Tree

/-- Visible nodes of two trees that a comparison takes for equal have the same kinds over every
byte. -/
def Faithful (old new : Tree) : Prop :=
  ∀ ⦃oldPath newPath : List Nat⦄ ⦃oldStart newStart : Extent⦄ ⦃oldNode newNode : Tree⦄,
    old.At oldPath oldStart.bytes oldNode → new.At newPath newStart.bytes newNode →
    oldNode.info.visible = true → newNode.info.visible = true →
    Comparison.ofPlaces (Walker.at oldNode oldStart) (Walker.at newNode newStart) = .equal →
    ∀ byte, oldNode.kindsAt byte oldStart.bytes = newNode.kindsAt byte newStart.bytes

theorem visibleNode_at {tree : Tree} (visible : tree.info.visible = true) (start : Extent) :
    (Walker.at tree start).visibleNode? = some ⟨tree, start, true, []⟩ := by
  simp [Walker.visibleNode?, Walker.at, visible]

/-- What two walkers say about each other is what their innermost visible nodes say. -/
theorem ofPlaces_eq {old new : Walker} {oldEntry newEntry : WalkEntry}
    (oldFound : old.visibleNode? = some oldEntry) (newFound : new.visibleNode? = some newEntry)
    (oldVisible : oldEntry.tree.info.visible = true)
    (newVisible : newEntry.tree.info.visible = true) :
    Comparison.ofPlaces old new =
      Comparison.ofPlaces (Walker.at oldEntry.tree oldEntry.start)
        (Walker.at newEntry.tree newEntry.start) := by
  simp only [Comparison.ofPlaces, oldFound, newFound, visibleNode_at oldVisible,
    visibleNode_at newVisible]

/-- Nodes that are taken for equal agree in symbol, place and size. Both have a state to be used again
in, and no edit touched the old one. -/
theorem agree_of_ofPlaces_equal {old new : Walker} {oldEntry newEntry : WalkEntry}
    (oldFound : old.visibleNode? = some oldEntry) (newFound : new.visibleNode? = some newEntry)
    (equal : Comparison.ofPlaces old new = .equal) :
    oldEntry.tree.info.symbol = newEntry.tree.info.symbol ∧
      oldEntry.start.bytes = newEntry.start.bytes ∧
      oldEntry.tree.info.size.bytes = newEntry.tree.info.size.bytes ∧
      oldEntry.tree.info.state ≠ noState ∧ newEntry.tree.info.state ≠ noState ∧
      oldEntry.tree.info.changed = false := by
  simp only [Comparison.ofPlaces, oldFound, newFound] at equal
  split at equal
  · cases equal
  · rename_i same
    split at equal
    · cases equal
    · rename_i agree
      simp only [not_or, Bool.not_eq_true] at agree
      rcases agree with ⟨start, _, size, oldState, newState, _, unmarked⟩
      exact ⟨Decidable.not_not.mp same, Decidable.not_not.mp start, Decidable.not_not.mp size,
        oldState, newState, unmarked⟩

/-- Nodes that are taken for equal begin together, and have the same symbol and states to be used
again in. -/
theorem of_ofPlaces_equal {oldNode newNode : Tree} {oldStart newStart : Extent}
    (oldVisible : oldNode.info.visible = true) (newVisible : newNode.info.visible = true)
    (equal : Comparison.ofPlaces (Walker.at oldNode oldStart)
      (Walker.at newNode newStart) = .equal) :
    oldNode.info.symbol = newNode.info.symbol ∧ oldStart.bytes = newStart.bytes ∧
      oldNode.info.state ≠ noState ∧ newNode.info.state ≠ noState := by
  rcases agree_of_ofPlaces_equal (visibleNode_at oldVisible oldStart)
    (visibleNode_at newVisible newStart) equal with ⟨symbol, start, _, oldState, newState, _⟩
  exact ⟨symbol, start, oldState, newState⟩

/-- Nodes that do not count as different have the same kind. -/
theorem ofPlaces_ne_different {old new : Walker}
    (alike : Comparison.ofPlaces old new ≠ .different) :
    (old.visibleNode? = none ∧ new.visibleNode? = none) ∨
      ∃ oldEntry newEntry, old.visibleNode? = some oldEntry ∧ new.visibleNode? = some newEntry ∧
        oldEntry.tree.info.symbol = newEntry.tree.info.symbol := by
  cases oldFound : old.visibleNode? with
  | none =>
      cases newFound : new.visibleNode? with
      | none => exact Or.inl ⟨rfl, rfl⟩
      | some newEntry => simp [Comparison.ofPlaces, oldFound, newFound] at alike
  | some oldEntry =>
      cases newFound : new.visibleNode? with
      | none => simp [Comparison.ofPlaces, oldFound, newFound] at alike
      | some newEntry =>
          refine Or.inr ⟨oldEntry, newEntry, rfl, rfl, ?_⟩
          by_cases same : oldEntry.tree.info.symbol = newEntry.tree.info.symbol
          · exact same
          · simp [Comparison.ofPlaces, oldFound, newFound, same] at alike

end Tree

end Reparse
