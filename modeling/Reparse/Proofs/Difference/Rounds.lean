import Reparse.Proofs.Difference.Moves

/-!
# The rounds of a comparison

A round of a comparison chooses where to go, brings both walkers past that place and raises them to
the same depth. Before a round both walkers stand ahead of the position that was reached, at the same
depth (`Tree.Diffing.Even`), and so they do after it unless one of them has left its tree.
-/

namespace Reparse

namespace Walker

variable {root : Tree} {walker : Walker} {position : Nat}

/-- What comes of looking for a visible node below a place, from padding or from content. -/
structure Sought (root : Tree) (walker : Walker) (position : Nat) (result : Bool × Walker) :
    Prop where
  stands : result.2.Stands root position
  inhabited : result.2.stack ≠ []
  moved : result.2 = walker ∨ position < result.2.stop.bytes
  success : result.1 = true →
    walker.inPadding = false ∧ position < result.2.stop.bytes ∧
      ((result.2.inPadding = true ∧ result.2.kinds = walker.kinds) ∨
        (result.2.Flush ∧ result.2.kinds.tail = walker.kinds))
  failure : result.1 = false →
    result.2.kinds = walker.kinds ∧ (result.2.Flush → result.2 = walker)
  bare : result.1 = false → result.2.inPadding = false → ∀ entry ∈ result.2.stack.head?,
    entry.tree.children = [] ∨
      entry.start.bytes + Tree.widthOf entry.tree.children ≤ position

theorem seek_spec (stands : walker.Stands root position) (inhabited : walker.stack ≠ []) :
    Sought root walker position (walker.descend position) := by
  cases place : walker.inPadding
  · cases stack : walker.stack with
    | nil => exact absurd stack inhabited
    | cons entry around =>
        have entered := descend_spec _ stands (Nat.le_refl _) place stack
        refine ⟨entered.stands, entered.inhabited, entered.moved, fun found => ?_, fun failed => ?_,
          fun failed _ => entered.bare failed⟩
        · exact ⟨place, entered.ahead (Or.inl found), entered.success found⟩
        · exact ⟨(entered.failure failed).2.1, (entered.failure failed).2.2⟩
  · have step : walker.descend position = (false, walker) := by simp [descend, place]
    rw [step]
    refine ⟨stands, inhabited, Or.inl rfl, by simp, fun _ => ⟨rfl, fun _ => rfl⟩, ?_⟩
    intro _ content
    rw [place] at content
    cases content

theorem Sought.ahead {result : Bool × Walker} (sought : Sought root walker position result)
    (ahead : position < walker.stop.bytes) : position < result.2.stop.bytes := by
  rcases sought.moved with same | ahead
  · rw [same]
    exact ahead
  · exact ahead

/-- A walker in a tree stands ahead of nothing past the end of the tree. -/
theorem Stands.stop_le (rootLaid : root.Laid) (stands : walker.Stands root position) :
    walker.stop.bytes ≤ root.total.bytes := by
  cases stack : walker.stack with
  | nil => simp [stop, stack, Extent.zero]
  | cons entry around =>
      have trace := stands.trace (by simp [stack])
      rw [stack] at trace
      rcases trace.placed with ⟨path, at_⟩
      have inside := at_.le_total rootLaid
      have ends := entry.content_le_stop
      simp only [WalkEntry.content, WalkEntry.stop] at ends
      simp only [stop, stack]
      split <;> simp only [Extent.bytes_add] <;> omega

end Walker

namespace Tree

open Walker (Stands Past Raised Sought surplus)

namespace Diffing

/-! ## Choosing -/

/-- What a round can choose: where it goes, with which walkers, and whether the stretch up to there
changed. -/
inductive Chosen (diffing : Diffing) : Bool × Diffing → Prop where
  | equal (same : diffing.compare = .equal) :
      Chosen diffing (false, { diffing with next := diffing.old.stop })
  | different (differ : diffing.compare = .different) :
      Chosen diffing (true, { diffing with next := diffing.old.stop.shorter diffing.new.stop })
  | below {old new : Walker} (maybe : diffing.compare = .maybeDifferent)
      (oldFound : diffing.old.descend diffing.reached.bytes = (true, old))
      (newFound : diffing.new.descend diffing.reached.bytes = (true, new)) :
      Chosen diffing (false, { diffing with old, new })
  | onlyOld {old new : Walker} (maybe : diffing.compare = .maybeDifferent)
      (oldFound : diffing.old.descend diffing.reached.bytes = (true, old))
      (newFailed : diffing.new.descend diffing.reached.bytes = (false, new)) :
      Chosen diffing (true, { diffing with old, new, next := old.stop })
  | onlyNew {old new : Walker} (maybe : diffing.compare = .maybeDifferent)
      (oldFailed : diffing.old.descend diffing.reached.bytes = (false, old))
      (newFound : diffing.new.descend diffing.reached.bytes = (true, new)) :
      Chosen diffing (true, { diffing with old, new, next := new.stop })
  | neither {old new : Walker} (maybe : diffing.compare = .maybeDifferent)
      (oldFailed : diffing.old.descend diffing.reached.bytes = (false, old))
      (newFailed : diffing.new.descend diffing.reached.bytes = (false, new)) :
      Chosen diffing (false, { diffing with old, new, next := old.stop.shorter new.stop })

theorem chosen_choose (diffing : Diffing) : diffing.Chosen diffing.choose := by
  unfold choose
  dsimp only
  split
  · exact .equal ‹_›
  · exact .different ‹_›
  · split
    · split
      · exact .below ‹_› ‹_› ‹_›
      · exact .onlyOld ‹_› ‹_› ‹_›
    · split
      · exact .onlyNew ‹_› ‹_› ‹_›
      · exact .neither ‹_› ‹_› ‹_›

theorem exists_choice (diffing : Diffing) :
    ∃ isChanged chosen, diffing.choose = (isChanged, chosen) ∧
      diffing.Chosen (isChanged, chosen) :=
  ⟨_, _, rfl, diffing.chosen_choose⟩

/-! ## Going on -/

variable {old new : Tree} {diffing : Diffing}

/-- The state after a round that brought the walkers to `oldLast` and `newLast`. -/
def advanced (chosen : Diffing) (isChanged : Bool) (oldLast newLast : Walker) : Diffing where
  old := oldLast
  new := newLast
  reached := chosen.next
  next := chosen.next
  pending := chosen.pending.dropWhile fun span => span.stop.bytes ≤ chosen.next.bytes
  found :=
    if isChanged then Span.extend chosen.found chosen.reached chosen.next else chosen.found

theorem round_eq_bind {isChanged : Bool} {chosen : Diffing} {fuel : Nat} {oldPast newPast : Walker}
    (choice : diffing.choose = (isChanged, chosen))
    (oldRun : chosen.old.advancePast chosen.next.bytes fuel = some oldPast)
    (newRun : chosen.new.advancePast chosen.next.bytes fuel = some newPast) :
    diffing.round fuel =
      (oldPast.raiseTo newPast.depth).bind fun oldLast =>
        (newPast.raiseTo oldLast.depth).map fun newLast =>
          chosen.advanced isChanged oldLast newLast := by
  simp only [round, choice, oldRun, newRun]
  cases oldPast.raiseTo newPast.depth with
  | none => rfl
  | some oldLast =>
      dsimp only [Option.bind_some]
      cases newPast.raiseTo oldLast.depth with
      | none => rfl
      | some newLast => rfl

theorem round_eq {isChanged : Bool} {chosen : Diffing} {fuel : Nat}
    {oldPast newPast oldLast newLast : Walker} (choice : diffing.choose = (isChanged, chosen))
    (oldRun : chosen.old.advancePast chosen.next.bytes fuel = some oldPast)
    (newRun : chosen.new.advancePast chosen.next.bytes fuel = some newPast)
    (oldRaise : oldPast.raiseTo newPast.depth = some oldLast)
    (newRaise : newPast.raiseTo oldLast.depth = some newLast) :
    diffing.round fuel = some (chosen.advanced isChanged oldLast newLast) := by
  rw [round_eq_bind choice oldRun newRun, oldRaise, Option.bind_some, newRaise, Option.map_some]

/-- The second half of a round: both walkers are brought past the place to go to, and then raised to
the depth of the other one. -/
structure Settled (old new : Tree) (chosen : Diffing) (oldPast newPast oldLast newLast : Walker) :
    Prop where
  oldAdvances : Past old chosen.old chosen.next.bytes oldPast
  newAdvances : Past new chosen.new chosen.next.bytes newPast
  oldRises : Raised old oldPast chosen.next.bytes newPast.depth oldLast
  newRises : Raised new newPast chosen.next.bytes oldLast.depth newLast

/-- A round comes to an end, if the roots are equally visible. -/
theorem round_spec (oldLaid : old.Laid) (newLaid : new.Laid)
    (visible : old.info.visible = new.info.visible) {isChanged : Bool} {chosen : Diffing}
    (choice : diffing.choose = (isChanged, chosen))
    (oldStands : chosen.old.Stands old chosen.next.bytes)
    (newStands : chosen.new.Stands new chosen.next.bytes) {fuel : Nat}
    (oldEnough : 2 * old.count < fuel) (newEnough : 2 * new.count < fuel) :
    ∃ oldPast newPast oldLast newLast,
      diffing.round fuel = some (chosen.advanced isChanged oldLast newLast) ∧
      Settled old new chosen oldPast newPast oldLast newLast := by
  have sameSurplus : surplus old = surplus new := by simp [surplus, visible]
  rcases Walker.advancePast_spec oldLaid oldStands
    (Nat.lt_of_le_of_lt oldStands.potential_le oldEnough) with ⟨oldPast, oldRun, oldSpec⟩
  rcases Walker.advancePast_spec newLaid newStands
    (Nat.lt_of_le_of_lt newStands.potential_le newEnough) with ⟨newPast, newRun, newSpec⟩
  have newDepth := newSpec.stands.depth
  rcases Walker.raiseTo_spec oldLaid oldSpec.stands oldSpec.ahead newPast.depth
    (by omega) with ⟨oldLast, oldRaise, oldRaised⟩
  have oldDepth := oldRaised.stands.depth
  rcases Walker.raiseTo_spec newLaid newSpec.stands newSpec.ahead oldLast.depth
    (by omega) with ⟨newLast, newRaise, newRaised⟩
  exact ⟨oldPast, newPast, oldLast, newLast, round_eq choice oldRun newRun oldRaise newRaise,
    ⟨oldSpec, newSpec, oldRaised, newRaised⟩⟩

/-- Both walkers stand in their trees ahead of the position that was reached, at the same depth. -/
structure Even (old new : Tree) (diffing : Diffing) : Prop where
  oldStands : diffing.old.Stands old diffing.reached.bytes
  newStands : diffing.new.Stands new diffing.reached.bytes
  oldInhabited : diffing.old.stack ≠ []
  newInhabited : diffing.new.stack ≠ []
  oldAhead : diffing.reached.bytes < diffing.old.stop.bytes
  newAhead : diffing.reached.bytes < diffing.new.stop.bytes
  level : diffing.old.depth = diffing.new.depth
  next : diffing.next.bytes = diffing.reached.bytes

section Settled

variable {chosen : Diffing} {oldPast newPast oldLast newLast : Walker}
  (settled : Settled old new chosen oldPast newPast oldLast newLast)

include settled

theorem Settled.level : oldLast.depth = newLast.depth :=
  (settled.newRises.least settled.oldRises.low).symm

/-- After a round the walkers are even again, unless one of them has left its tree. -/
theorem Settled.even (isChanged : Bool) (oldInhabited : oldLast.stack ≠ [])
    (newInhabited : newLast.stack ≠ []) :
    Even old new (chosen.advanced isChanged oldLast newLast) where
  oldStands := settled.oldRises.stands
  newStands := settled.newRises.stands
  oldInhabited := oldInhabited
  newInhabited := newInhabited
  oldAhead := settled.oldRises.ahead oldInhabited
  newAhead := settled.newRises.ahead newInhabited
  level := settled.level
  next := rfl

end Settled

theorem shorter_eq_or (left right : Extent) :
    left.shorter right = left ∨ left.shorter right = right := by
  unfold Extent.shorter
  split
  · exact Or.inl rfl
  · exact Or.inr rfl

/-- Where a round goes to from even walkers: further on, to where a walker's place ends, or nowhere,
with both walkers having descended. -/
theorem Even.chosen (even : Even old new diffing) {isChanged : Bool} {chosen : Diffing}
    (choice : diffing.Chosen (isChanged, chosen)) :
    chosen.old.Stands old diffing.reached.bytes ∧ chosen.new.Stands new diffing.reached.bytes ∧
      ((diffing.reached.bytes < chosen.next.bytes ∧
          (chosen.next = chosen.old.stop ∨ chosen.next = chosen.new.stop) ∧
          chosen.old.stack ≠ [] ∧ chosen.new.stack ≠ []) ∨
        (chosen.next.bytes = diffing.reached.bytes ∧
          Sought old diffing.old diffing.reached.bytes (true, chosen.old) ∧
          Sought new diffing.new diffing.reached.bytes (true, chosen.new))) := by
  have oldSought := Walker.seek_spec even.oldStands even.oldInhabited
  have newSought := Walker.seek_spec even.newStands even.newInhabited
  cases choice with
  | equal same =>
      exact ⟨even.oldStands, even.newStands,
        Or.inl ⟨even.oldAhead, Or.inl rfl, even.oldInhabited, even.newInhabited⟩⟩
  | different differ =>
      refine ⟨even.oldStands, even.newStands,
        Or.inl ⟨?_, shorter_eq_or _ _, even.oldInhabited, even.newInhabited⟩⟩
      rcases shorter_eq_or diffing.old.stop diffing.new.stop with same | same <;> simp only [same]
      · exact even.oldAhead
      · exact even.newAhead
  | below maybe oldFound newFound =>
      rw [oldFound] at oldSought
      rw [newFound] at newSought
      exact ⟨oldSought.stands, newSought.stands, Or.inr ⟨even.next, oldSought, newSought⟩⟩
  | onlyOld maybe oldFound newFailed =>
      rw [oldFound] at oldSought
      rw [newFailed] at newSought
      exact ⟨oldSought.stands, newSought.stands, Or.inl ⟨oldSought.ahead even.oldAhead,
        Or.inl rfl, oldSought.inhabited, newSought.inhabited⟩⟩
  | onlyNew maybe oldFailed newFound =>
      rw [oldFailed] at oldSought
      rw [newFound] at newSought
      exact ⟨oldSought.stands, newSought.stands, Or.inl ⟨newSought.ahead even.newAhead,
        Or.inr rfl, oldSought.inhabited, newSought.inhabited⟩⟩
  | @neither oldBelow newBelow maybe oldFailed newFailed =>
      rw [oldFailed] at oldSought
      rw [newFailed] at newSought
      refine ⟨oldSought.stands, newSought.stands,
        Or.inl ⟨?_, shorter_eq_or _ _, oldSought.inhabited, newSought.inhabited⟩⟩
      rcases shorter_eq_or oldBelow.stop newBelow.stop with same | same <;> simp only [same]
      · exact oldSought.ahead even.oldAhead
      · exact newSought.ahead even.newAhead

/-- A round does not go back from even walkers. -/
theorem Even.reached_le (even : Even old new diffing) {isChanged : Bool} {chosen : Diffing}
    (choice : diffing.Chosen (isChanged, chosen)) :
    diffing.reached.bytes ≤ chosen.next.bytes := by
  rcases (even.chosen choice).2.2 with ⟨further, _⟩ | ⟨same, _⟩
  · exact Nat.le_of_lt further
  · exact Nat.le_of_eq same.symm

end Diffing

end Tree

end Reparse
