import Reparse.Grammar.Arithmetic
import Reparse.Proofs.Document.Obtained

/-!
# The search for reusable subtrees misses nothing

The search goes down a single path: at every level it enters one child, the one that the position
lies in. In a tree that is laid out this is enough, since the subtrees that begin at a position and
are not empty lie within each other, and what stands beside them begins or ends elsewhere.
-/

namespace Reparse

namespace Tree

/-- Child numbers lead to a subtree, other than the whole tree, that begins at the position and can
be used again there. -/
structure Offers (tree : Tree) (length position state : Nat) (path : List Nat) (found : Tree) :
    Prop where
  proper : path ≠ []
  place : tree.At path position found
  reusable : found.info.isReusable state length (position + found.total.bytes) = true

variable {tree found : Tree} {length position state : Nat} {path : List Nat}

theorem offers_iff :
    tree.Offers length position state path found ↔
      ServesBelow position state length 0 tree path found := by
  constructor
  · rintro ⟨proper, place, reusable⟩
    exact ⟨proper, position, place, Nat.zero_add _, Info.suits_iff.mp reusable⟩
  · rintro ⟨proper, offset, at_, place, suits⟩
    rw [Nat.zero_add] at place
    exact ⟨proper, place ▸ at_, Info.suits_iff.mpr suits⟩

theorem outermost_findReusable (laid : tree.Laid) (known : state ≠ noState)
    (length position : Nat) :
    Outermost (tree.Offers length position state) (tree.findReusable length position state) := by
  rw [findReusable, if_neg known]
  exact (outermost_findBelow 0 tree laid).lift id (fun _ _ le => le) (fun _ _ => offers_iff.mpr)
    fun path found offers => ⟨path, rfl, offers_iff.mp offers⟩

/-- In a tree that is laid out the search finds nothing if and only if no subtree begins at the
position and can be used again there, and what it finds is the one that all others lie in. -/
theorem findReusable_outermost (laid : tree.Laid) (known : state ≠ noState)
    (length position : Nat) :
    (tree.findReusable length position state = none ↔
        ∀ path found, ¬tree.Offers length position state path found) ∧
      ∀ found, tree.findReusable length position state = some found ↔
        ∃ path, tree.Offers length position state path found ∧
          ∀ other below, tree.Offers length position state other below → path <+: other := by
  have sought := outermost_findReusable laid known length position
  generalize tree.findReusable length position state = result at sought
  cases sought with
  | missing absent =>
      refine ⟨iff_of_true rfl absent, fun found => iff_of_false nofun ?_⟩
      rintro ⟨path, offers, _⟩
      exact absent path found offers
  | @found path here offers outer =>
      refine ⟨iff_of_false nofun fun absent => absent path here offers, fun found => ?_⟩
      constructor
      · intro same
        exact ⟨path, Option.some.inj same ▸ offers, outer⟩
      · rintro ⟨again, offered, around⟩
        have front : again = path :=
          (around path here offers).eq_of_length_le (outer again found offered).length_le
        subst front
        exact congrArg some (offers.place.unique offered.place).2

end Tree

/-- After the second number of `12+3` became `45` the first operand can be used again, and the
search finds the outermost subtree that can. -/
theorem Tree.findReusable_outermost_operand :
    let edit : Edit := ⟨⟨3, 0, 3⟩, ⟨4, 0, 4⟩, ⟨5, 0, 5⟩⟩
    ∃ parsed, Parser.new.parseIn (Language.arithmetic 0) #[49, 50, 43, 51] none = .ok parsed ∧
      let tree := (parsed.document.edit edit).tree
      tree.Laid ∧ Arithmetic.operandState ≠ noState ∧
        ∃ found path, tree.findReusable 5 0 Arithmetic.operandState = some found ∧
          tree.Offers 5 0 Arithmetic.operandState path found ∧
          ∀ other below, tree.Offers 5 0 Arithmetic.operandState other below → path <+: other := by
  intro edit
  have facts : (match Parser.new.parseIn (Language.arithmetic 0) #[49, 50, 43, 51] none with
      | .ok parsed =>
        ((parsed.document.edit edit).tree.findReusable 5 0 Arithmetic.operandState).isSome
      | .error _ => false) = true := by decide +kernel
  cases run : Parser.new.parseIn (Language.arithmetic 0) #[49, 50, 43, 51] none with
  | error fault => simp [run] at facts
  | ok parsed =>
      have obtained := Document.Obtained.fresh Arithmetic.byInterface_grammar run
      have forward : edit.Forward := ⟨by decide, by decide⟩
      have laid := (obtained.edited forward).sound.laid
      have known : Arithmetic.operandState ≠ noState := by decide
      rw [run] at facts
      rcases Option.isSome_iff_exists.mp facts with ⟨found, some⟩
      rcases ((Tree.findReusable_outermost laid known 5 0).2 found).mp some with
        ⟨path, offers, outer⟩
      exact ⟨parsed, rfl, laid, known, found, path, some, offers, outer⟩

end Reparse
