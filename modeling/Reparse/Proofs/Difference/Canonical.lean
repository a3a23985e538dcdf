import Reparse.Proofs.Difference.Complete

/-!
# The list that a comparison makes

The stretches that a comparison lists are in order, none is empty and no two of them meet
(`Span.Listed`). Each round adds a stretch that begins where the round before ended, so that the
latest stretch never gets shorter. When the walk is over, the stretch by which one tree is longer is
added; what was found before begins no later than the end of the shorter tree, and that is why
nothing of this last stretch gets lost (`Tree.Diffing.listed_closing`).
-/

namespace Reparse

namespace Span

variable {latest : List Span} {start stop : Extent} {byte : Nat}

/-- All stretches of a list begin at the latest at some place. -/
def Begun (latest : List Span) (place : Nat) : Prop :=
  ∀ span ∈ latest, span.start.bytes ≤ place

theorem Begun.extend {place : Nat} (begun : Begun latest place) (le : start.bytes ≤ place) :
    Begun (extend latest start stop) place := by
  cases latest with
  | nil =>
      rw [Span.extend]
      split <;> simp [Begun, le]
  | cons last rest =>
      simp only [Begun, List.forall_mem_cons] at begun
      rw [Span.extend]
      split
      · simpa [Begun] using begun
      · split <;> simpa [Begun, le] using begun

/-- An extension covers all of its stretch if what is there begins before it. -/
theorem covers_extend_of_begun (begun : Begun latest start.bytes) (reached : start.bytes ≤ byte)
    (inside : byte < stop.bytes) : Covers (extend latest start stop) byte := by
  cases latest with
  | nil =>
      rw [extend, if_pos (by omega)]
      exact ⟨⟨start, stop⟩, by simp, reached, inside⟩
  | cons last rest =>
      have lastBegun := begun last List.mem_cons_self
      rw [extend]
      split
      · exact ⟨⟨last.start, stop⟩, by simp, by dsimp only; omega, inside⟩
      · rw [if_pos (by omega)]
        exact ⟨⟨start, stop⟩, by simp, reached, inside⟩

end Span

namespace Tree

namespace Diffing

variable {old new : Tree} {diffing : Diffing}

/-- The stretches found lie behind the place that was reached and begin within both trees. -/
structure Kept (old new : Tree) (diffing : Diffing) : Prop where
  listed : Span.Listed diffing.found (min old.info.padding.bytes new.info.padding.bytes)
    diffing.reached.bytes
  begun : Span.Begun diffing.found (min old.total.bytes new.total.bytes)
  reached : min old.info.padding.bytes new.info.padding.bytes ≤ diffing.reached.bytes
  within : diffing.reached.bytes ≤ max old.total.bytes new.total.bytes

/-! ## Rounds -/

/-- As long as both walkers are in their trees, the place that was reached lies in both trees. -/
theorem Even.reached_lt (even : Even old new diffing) (oldLaid : old.Laid) (newLaid : new.Laid) :
    diffing.reached.bytes < min old.total.bytes new.total.bytes := by
  have oldInside := even.oldStands.stop_le oldLaid
  have newInside := even.newStands.stop_le newLaid
  have oldAhead := even.oldAhead
  have newAhead := even.newAhead
  omega

theorem Kept.advanced (kept : Kept old new diffing) (even : Even old new diffing)
    (oldLaid : old.Laid) (newLaid : new.Laid) {isChanged : Bool} {chosen : Diffing}
    (choice : diffing.Chosen (isChanged, chosen)) (oldLast newLast : Walker) :
    Kept old new (chosen.advanced isChanged oldLast newLast) := by
  rcases choice.keeps with ⟨reached, _, found⟩
  have le := even.reached_le choice
  have inside := even.reached_lt oldLaid newLaid
  refine ⟨?_, ?_, Nat.le_trans kept.reached le, even.next_le oldLaid newLaid choice⟩
  · cases isChanged
    · simpa [Diffing.advanced, found] using kept.listed.mono le
    · simpa [Diffing.advanced, found, reached] using kept.listed.extend kept.reached le
  · cases isChanged
    · simpa [Diffing.advanced, found] using kept.begun
    · simpa [Diffing.advanced, found, reached] using kept.begun.extend (Nat.le_of_lt inside)

theorem Kept.run (kept : Kept old new diffing) (even : Even old new diffing) (oldLaid : old.Laid)
    (newLaid : new.Laid) (visible : old.info.visible = new.info.visible) {moves : Nat}
    (oldEnough : 2 * old.count < moves) (newEnough : 2 * new.count < moves) {fuel : Nat}
    {last : Diffing} (run : diffing.run moves fuel = some last) : Kept old new last := by
  induction fuel generalizing diffing with
  | zero => cases run
  | succ fuel ih =>
      rcases diffing.exists_choice with ⟨isChanged, chosen, choice, chosenSpec⟩
      rcases even.round oldLaid newLaid visible oldEnough newEnough with ⟨next, round, goesOn⟩
      rcases advanced_of_round choice round with ⟨oldLast, newLast, rfl⟩
      have nextKept := kept.advanced even oldLaid newLaid chosenSpec oldLast newLast
      rw [Diffing.run, round] at run
      dsimp only at run
      split at run
      · cases run
        exact nextKept
      · rename_i inside
        simp only [Bool.or_eq_true, not_or, Bool.not_eq_true] at inside
        exact ih nextKept (goesOn inside.1 inside.2).1 run

/-! ## The beginning and the end -/

theorem kept_begin (old new : Tree) (included : List Span)
    (ahead : (begin old new included).reached.bytes < min old.total.bytes new.total.bytes) :
    Kept old new (begin old new included) := by
  rcases found_begin old new included with ⟨low, high, lowBytes, highBytes, found⟩
  have reached := reached_begin old new included
  refine ⟨?_, ?_, by omega, by omega⟩
  · rw [found, reached, ← highBytes]
    exact (Span.listed_nil _ low.bytes).extend (by omega) (by omega)
  · rw [found]
    apply Span.Begun.extend
    · simp [Span.Begun]
    · omega

/-- What a comparison lists: stretches in order, from the first content on up to the end of the
longer tree, which cover all that the longer tree has more than the other. -/
structure Lists (old new : Tree) (found : List Span) : Prop where
  listed : Span.Listed found (min old.info.padding.bytes new.info.padding.bytes)
    (max old.total.bytes new.total.bytes)
  covers : ∀ byte, min old.total.bytes new.total.bytes ≤ byte →
    byte < max old.total.bytes new.total.bytes → Span.Covers found byte

theorem Kept.lists (kept : Kept old new diffing) : Lists old new (closing old new diffing.found) := by
  rcases closing_eq old new diffing.found with ⟨low, high, lowBytes, highBytes, same⟩
  have oldPadding := padding_le_total old
  have newPadding := padding_le_total new
  have within := kept.within
  have begun := kept.begun
  rw [← lowBytes] at begun
  rw [same]
  split
  · refine ⟨?_, fun byte reached inside => ?_⟩
    · rw [← highBytes]
      exact kept.listed.extend (by omega) (by omega)
    · exact Span.covers_extend_of_begun begun (by omega) (by omega)
  · exact ⟨kept.listed.mono within, fun byte reached inside => by omega⟩

theorem lists_of_passed (oldLaid : old.Laid) (newLaid : new.Laid) (included : List Span)
    (passed : old.total.bytes ≤ (begin old new included).reached.bytes ∨
      new.total.bytes ≤ (begin old new included).reached.bytes)
    {isChanged : Bool} {chosen : Diffing}
    (choice : (begin old new included).Chosen (isChanged, chosen)) (oldLast newLast : Walker) :
    Lists old new (closing old new (chosen.advanced isChanged oldLast newLast).found) := by
  have oldPadding := padding_le_total old
  have newPadding := padding_le_total new
  rcases closing_of_passed oldLaid newLaid included passed choice oldLast newLast with
    ⟨start, stop, begins, ends, one⟩
  rw [one]
  split
  · refine ⟨?_, fun byte reached inside => ?_⟩
    · rw [← ends]
      exact (Span.listed_nil _ _).cons ‹_› (by omega) (Nat.zero_le _) (by simp)
    · exact ⟨⟨start, stop⟩, by simp, by dsimp only; omega, by dsimp only; omega⟩
  · exact ⟨Span.listed_nil _ _, fun byte reached inside => by omega⟩

theorem lists_of_run (oldLaid : old.Laid) (newLaid : new.Laid)
    (visible : old.info.visible = new.info.visible) (included : List Span) {moves fuel : Nat}
    (oldEnough : 2 * old.count < moves) (newEnough : 2 * new.count < moves) {last : Diffing}
    (run : (begin old new included).run moves fuel = some last) :
    Lists old new (closing old new last.found) := by
  by_cases ahead : (begin old new included).reached.bytes < old.total.bytes ∧
      (begin old new included).reached.bytes < new.total.bytes
  · have kept := kept_begin old new included (by omega)
    have even := even_begin included ahead.1 ahead.2
    exact (kept.run even oldLaid newLaid visible oldEnough newEnough run).lists
  · rcases ends_at_once oldLaid newLaid visible included oldEnough newEnough (by omega) run with
      ⟨isChanged, chosen, oldLast, newLast, chosenSpec, rfl⟩
    exact lists_of_passed oldLaid newLaid included (by omega) chosenSpec oldLast newLast

end Diffing

/-- A comparison of trees with equally visible roots ends with a list of stretches in order. -/
theorem exists_lists_changedSpans {old new : Tree} (oldLaid : old.Laid) (newLaid : new.Laid)
    (visible : old.info.visible = new.info.visible) (included : List Span) :
    ∃ found, old.changedSpans new included = some found.reverse ∧ Diffing.Lists old new found := by
  have comparable := comparable_of_visible visible
  rcases Option.isSome_iff_exists.mp
    ((isSome_changedSpans_iff oldLaid newLaid included).mpr comparable) with ⟨spans, some⟩
  rw [some]
  dsimp only [changedSpans] at some
  split at some
  · cases some
  · rename_i last run
    rw [Option.some.injEq] at some
    refine ⟨Diffing.closing old new last.found, ?_, ?_⟩
    · rw [← some]
      rfl
    · exact Diffing.lists_of_run oldLaid newLaid visible included (by omega) (by omega) run

end Tree

end Reparse
