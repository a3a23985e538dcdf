import Reparse.Proofs.Difference.Alike
import Reparse.Proofs.Difference.Ends
import Reparse.Proofs.Difference.Faithful
import Reparse.Proofs.Difference.Stretches

/-!
# A comparison misses nothing

Every byte over which the visible structure of two trees differs lies in a stretch that their
comparison lists, provided that the nodes it takes for equal are equal
(`Tree.changedSpans_complete`). At every place that is not listed the nodes around the walkers are
the same and the walkers have nothing below them, or they stand in nodes that are equal.
-/

namespace Reparse

namespace Tree

open Walker (Sought surplus)

namespace Diffing

variable {old new : Tree} {diffing : Diffing}

/-! ## What a round keeps -/

/-- Every byte behind the position over which the trees differ is covered. -/
structure Recorded (old new : Tree) (diffing : Diffing) : Prop where
  before : Span.LiesBefore diffing.found diffing.reached.bytes
  covers : ∀ byte < diffing.reached.bytes, old.kindsAt byte 0 ≠ new.kindsAt byte 0 →
    Span.Covers diffing.found byte

/-- Both walkers are even, and the kinds around them are ends of one list. -/
structure Alike (old new : Tree) (diffing : Diffing) : Prop where
  even : Even old new diffing
  under : ∃ kinds, diffing.old.Under kinds ∧ diffing.new.Under kinds
  begun : old.info.padding.bytes ≤ diffing.reached.bytes ∧
    new.info.padding.bytes ≤ diffing.reached.bytes
  pending : diffing.pending = []

theorem compare_of_pending (pending : diffing.pending = []) :
    diffing.compare = Comparison.ofPlaces diffing.old diffing.new := by
  unfold compare
  rw [pending]
  split
  · rename_i same
    rw [same]
    rfl
  · rfl

theorem Even.length_kinds_eq (even : Even old new diffing)
    (visible : old.info.visible = new.info.visible) :
    diffing.old.kinds.length = diffing.new.kinds.length := by
  have sameSurplus : Walker.surplus old = Walker.surplus new := by simp [Walker.surplus, visible]
  have oldDepth := even.oldStands.depth
  have newDepth := even.newStands.depth
  have level := even.level
  omega

theorem Alike.tail_eq (alike : Alike old new diffing)
    (visible : old.info.visible = new.info.visible) :
    diffing.old.kinds.tail = diffing.new.kinds.tail := by
  rcases alike.under with ⟨kinds, oldUnder, newUnder⟩
  exact Walker.tail_kinds_eq oldUnder newUnder (alike.even.length_kinds_eq visible)

/-- The kinds around two walkers agree unless their places are known to differ. -/
theorem Alike.kinds_eq (alike : Alike old new diffing)
    (visible : old.info.visible = new.info.visible) (same : diffing.compare ≠ .different) :
    diffing.old.kinds = diffing.new.kinds := by
  rw [compare_of_pending alike.pending] at same
  have tails := alike.tail_eq visible
  rcases ofPlaces_ne_different same with ⟨oldNone, newNone⟩ | ⟨oldEntry, newEntry, oldFound,
    newFound, symbol⟩
  · rw [Walker.visibleNode_eq_none oldNone, Walker.visibleNode_eq_none newNone]
  · rcases Walker.visibleNode_eq_some oldFound with ⟨_, _, _, _, oldKinds⟩
    rcases Walker.visibleNode_eq_some newFound with ⟨_, _, _, _, newKinds⟩
    rw [oldKinds, newKinds, List.tail_cons, List.tail_cons] at tails
    rw [oldKinds, newKinds, symbol, tails]

/-- Nodes that are taken for equal have the same kinds over the place of the old walker. -/
theorem Alike.kindsAt_of_equal (alike : Alike old new diffing) (oldLaid : old.Laid)
    (newLaid : new.Laid) (oldVisible : old.info.visible = true)
    (newVisible : new.info.visible = true) (faithful : Faithful old new)
    (same : diffing.compare = .equal) {byte : Nat}
    (begun : diffing.reached.bytes ≤ byte) (inside : byte < diffing.old.stop.bytes) :
    old.kindsAt byte 0 = new.kindsAt byte 0 := by
  have equal : diffing.old.kinds = diffing.new.kinds :=
    alike.kinds_eq (oldVisible.trans newVisible.symm) (by rw [same]; nofun)
  rw [compare_of_pending alike.pending] at same
  rcases ofPlaces_ne_different (by rw [same]; nofun) with ⟨oldNone, _⟩ | ⟨oldEntry, newEntry,
    oldFound, newFound, symbol⟩
  · exact absurd (Walker.visibleNode_eq_none oldNone)
      (alike.even.oldStands.kinds_ne_nil oldVisible alike.begun.1 alike.even.oldInhabited
        alike.even.oldAhead)
  · rcases alike.even.oldStands.visibleNode oldLaid oldFound with
      ⟨oldAround, oldTrace, oldKinds, oldStop, oldContent, oldEntered⟩
    rcases alike.even.newStands.visibleNode newLaid newFound with
      ⟨newAround, newTrace, newKinds, newStop, newContent, newEntered⟩
    have oldShown := (Walker.visibleNode_eq_some oldFound).1
    have newShown := (Walker.visibleNode_eq_some newFound).1
    rw [ofPlaces_eq oldFound newFound oldShown newShown] at same
    rcases oldTrace.placed with ⟨oldPath, oldAt⟩
    rcases newTrace.placed with ⟨newPath, newAt⟩
    have nodes := faithful oldAt newAt oldShown newShown same byte
    have oldBegun : oldEntry.start.bytes ≤ byte := by
      simp only [WalkEntry.content] at oldContent
      omega
    have newBegun : newEntry.start.bytes ≤ byte := by
      simp only [WalkEntry.content] at newContent
      omega
    have oldInside : byte < oldEntry.stop := by omega
    -- the new node stands over the byte, since the old one does
    have newInside : byte < newEntry.stop := by
      apply Nat.lt_of_not_le
      intro after
      rw [kindsAt_of_after _ _ (newTrace.laid newLaid) after,
        kindsAt_of_inside oldShown (Nat.le_trans oldContent begun) oldInside] at nodes
      cases nodes
    have around : Walker.kindsOf oldAround = Walker.kindsOf newAround := by
      rw [oldKinds, newKinds, symbol] at equal
      exact List.tail_eq_of_cons_eq equal
    rw [oldTrace.kindsAt_eq oldLaid oldBegun oldInside fun other member shown =>
        Nat.le_trans (oldEntered other member shown) begun,
      newTrace.kindsAt_eq newLaid newBegun newInside fun other member shown =>
        Nat.le_trans (newEntered other member shown) begun, nodes, around]

/-- Where neither walker finds a node below its place there is none up to the end of the place. -/
theorem kindsBelow_of_bare {root : Tree} {walker below : Walker} {position byte : Nat}
    (sought : Sought root walker position (false, below)) (rootLaid : root.Laid)
    (begun : position ≤ byte) : below.kindsBelow byte = [] := by
  have bare := sought.bare rfl
  have trace := sought.stands.trace sought.inhabited
  dsimp only at bare trace
  unfold Walker.kindsBelow
  cases stack : below.stack with
  | nil => rfl
  | cons entry around =>
      rw [stack] at trace bare
      cases place : below.inPadding
      · rcases bare place entry rfl with childless | ended
        · simp [childless]
        · have laid := trace.laid rootLaid
          rcases entry with ⟨⟨info, children⟩, start, first, later⟩
          exact kindsAmong_of_after _ _ laid.children (Nat.le_trans ended begun)
      · rfl

/-- Up to the place that a round goes to without a change both trees have the same kinds. -/
theorem Alike.kindsAt_of_unchanged (alike : Alike old new diffing) (oldLaid : old.Laid)
    (newLaid : new.Laid) (oldVisible : old.info.visible = true)
    (newVisible : new.info.visible = true) (faithful : Faithful old new) {chosen : Diffing}
    (choice : diffing.Chosen (false, chosen)) {byte : Nat} (begun : diffing.reached.bytes ≤ byte)
    (inside : byte < chosen.next.bytes) : old.kindsAt byte 0 = new.kindsAt byte 0 := by
  have oldSought := Walker.seek_spec alike.even.oldStands alike.even.oldInhabited
  have newSought := Walker.seek_spec alike.even.newStands alike.even.newInhabited
  cases choice with
  | equal same =>
      exact alike.kindsAt_of_equal oldLaid newLaid oldVisible newVisible faithful same begun inside
  | below maybe oldFound newFound =>
      have stays := alike.even.next
      dsimp only at inside
      omega
  | @neither oldBelow newBelow maybe oldFailed newFailed =>
      rw [oldFailed] at oldSought
      rw [newFailed] at newSought
      dsimp only at inside
      rw [Extent.bytes_shorter] at inside
      have equal : oldBelow.kinds = newBelow.kinds := by
        rw [(oldSought.failure rfl).1, (newSought.failure rfl).1]
        exact alike.kinds_eq (oldVisible.trans newVisible.symm) (by rw [maybe]; nofun)
      have oldInside : byte < oldBelow.stop.bytes := by omega
      have newInside : byte < newBelow.stop.bytes := by omega
      rw [oldSought.stands.kindsAt_eq oldLaid oldSought.inhabited begun oldInside,
        newSought.stands.kindsAt_eq newLaid newSought.inhabited begun newInside,
        kindsBelow_of_bare oldSought oldLaid begun, kindsBelow_of_bare newSought newLaid begun,
        equal]

/-- The walkers that a round chooses are under one list of kinds. -/
theorem Alike.under_chosen (alike : Alike old new diffing)
    (visible : old.info.visible = new.info.visible) {isChanged : Bool} {chosen : Diffing}
    (choice : diffing.Chosen (isChanged, chosen)) :
    ∃ kinds, chosen.old.Under kinds ∧ chosen.new.Under kinds := by
  have oldUnder :=
    (Walker.seek_spec alike.even.oldStands alike.even.oldInhabited).under
  have newUnder :=
    (Walker.seek_spec alike.even.newStands alike.even.newInhabited).under
  have equal (maybe : diffing.compare = .maybeDifferent) : diffing.new.kinds = diffing.old.kinds :=
    (alike.kinds_eq visible (by rw [maybe]; nofun)).symm
  cases choice with
  | equal same => exact alike.under
  | different differ => exact alike.under
  | below maybe oldFound newFound | onlyOld maybe oldFound newFound
  | onlyNew maybe oldFound newFound | neither maybe oldFound newFound =>
      rw [oldFound] at oldUnder
      rw [newFound, equal maybe] at newUnder
      exact ⟨diffing.old.kinds, oldUnder, newUnder⟩

/-! ## Rounds -/

theorem Chosen.keeps {isChanged : Bool} {chosen : Diffing}
    (choice : diffing.Chosen (isChanged, chosen)) :
    chosen.reached = diffing.reached ∧ chosen.pending = diffing.pending ∧
      chosen.found = diffing.found := by
  cases choice <;> exact ⟨rfl, rfl, rfl⟩

theorem Recorded.advanced (recorded : Recorded old new diffing) {isChanged : Bool}
    {chosen : Diffing} (choice : diffing.Chosen (isChanged, chosen))
    (le : diffing.reached.bytes ≤ chosen.next.bytes)
    (unchanged : isChanged = false → ∀ byte, diffing.reached.bytes ≤ byte →
      byte < chosen.next.bytes → old.kindsAt byte 0 = new.kindsAt byte 0)
    (oldLast newLast : Walker) :
    Recorded old new (chosen.advanced isChanged oldLast newLast) := by
  rcases choice.keeps with ⟨reached, _, found⟩
  cases isChanged
  · refine ⟨?_, fun byte inside differ => ?_⟩
    · simp only [Diffing.advanced, Bool.false_eq_true, if_false, found]
      exact recorded.before.mono le
    · simp only [Diffing.advanced, Bool.false_eq_true, if_false, found] at inside ⊢
      by_cases behind : byte < diffing.reached.bytes
      · exact recorded.covers byte behind differ
      · exact absurd (unchanged rfl byte (by omega) inside) differ
  · simp only [Diffing.advanced, if_true, found, reached]
    refine ⟨recorded.before.extend le, fun byte inside differ => ?_⟩
    apply Span.covers_extend (recorded.before.mono le)
    by_cases behind : byte < diffing.reached.bytes
    · exact Or.inl (recorded.covers byte behind differ)
    · exact Or.inr ⟨by omega, inside, recorded.before.mono (by omega)⟩

section Settled

variable {chosen : Diffing} {oldPast newPast oldLast newLast : Walker}
  (settled : Settled old new chosen oldPast newPast oldLast newLast)

include settled

theorem Settled.under
    (under : ∃ kinds, chosen.old.Under kinds ∧ chosen.new.Under kinds) :
    ∃ kinds, oldLast.Under kinds ∧ newLast.Under kinds := by
  rcases under with ⟨kinds, oldUnder, newUnder⟩
  exact ⟨kinds,
    (oldUnder.past settled.oldAdvances).raised settled.oldAdvances.stands settled.oldRises,
    (newUnder.past settled.newAdvances).raised settled.newAdvances.stands settled.newRises⟩

/-- A walker is outside of its tree only if one of the trees has ended. -/
theorem Settled.ended (oldVisible : old.info.visible = true) (newVisible : new.info.visible = true)
    (begun : old.info.padding.bytes ≤ chosen.next.bytes ∧
      new.info.padding.bytes ≤ chosen.next.bytes)
    (oldInhabited : chosen.old.stack ≠ []) (newInhabited : chosen.new.stack ≠ [])
    (done : oldLast.stack = [] ∨ newLast.stack = []) :
    old.total.bytes ≤ chosen.next.bytes ∨ new.total.bytes ≤ chosen.next.bytes := by
  by_cases oldLeft : oldPast.stack = []
  · exact Or.inl (settled.oldAdvances.left oldInhabited oldLeft)
  by_cases newLeft : newPast.stack = []
  · exact Or.inr (settled.newAdvances.left newInhabited newLeft)
  -- otherwise both walkers are in visible nodes, and so they are after they were raised
  have oldSome := List.length_pos_iff.mpr (settled.oldAdvances.stands.kinds_ne_nil oldVisible
    begun.1 oldLeft (settled.oldAdvances.ahead oldLeft))
  have newSome := List.length_pos_iff.mpr (settled.newAdvances.stands.kinds_ne_nil newVisible
    begun.2 newLeft (settled.newAdvances.ahead newLeft))
  have oldDepth := settled.oldAdvances.stands.depth
  have newDepth := settled.newAdvances.stands.depth
  have deep : 1 ≤ oldLast.depth := by
    by_cases low : oldPast.depth ≤ newPast.depth
    · rw [settled.oldRises.same low]
      omega
    · rw [settled.oldRises.least (by omega)]
      omega
  have level := settled.level
  have oldSurplus : surplus old = 0 := by simp [surplus, oldVisible]
  have newSurplus : surplus new = 0 := by simp [surplus, newVisible]
  rcases done with oldDone | newDone
  · have shallow := settled.oldRises.stands.depth
    rw [Walker.kinds_of_stack_nil oldDone, oldSurplus, List.length_nil] at shallow
    omega
  · have shallow := settled.newRises.stands.depth
    rw [Walker.kinds_of_stack_nil newDone, newSurplus, List.length_nil] at shallow
    omega

end Settled

/-- A comparison in which one of the trees has ended. -/
structure Ended (old new : Tree) (last : Diffing) : Prop where
  recorded : Recorded old new last
  ended : old.total.bytes ≤ last.reached.bytes ∨ new.total.bytes ≤ last.reached.bytes
  within : last.reached.bytes ≤ max old.total.bytes new.total.bytes

/-- No round goes past the end of both trees. -/
theorem Ready.next_le (ready : Ready old new diffing) (oldLaid : old.Laid) (newLaid : new.Laid)
    (le : diffing.next.bytes ≤ max old.total.bytes new.total.bytes) {isChanged : Bool}
    {chosen : Diffing} (choice : diffing.Chosen (isChanged, chosen)) :
    chosen.next.bytes ≤ max old.total.bytes new.total.bytes := by
  have chosenReady := (ready.chosen choice).2
  have oldInside := chosenReady.old.stands.stop_le oldLaid
  have newInside := chosenReady.new.stands.stop_le newLaid
  cases choice with
  | equal same => exact Nat.le_trans oldInside (Nat.le_max_left _ _)
  | below maybe oldFound newFound => exact le
  | onlyOld maybe oldFound newFailed => exact Nat.le_trans oldInside (Nat.le_max_left _ _)
  | onlyNew maybe oldFailed newFound => exact Nat.le_trans newInside (Nat.le_max_right _ _)
  | different differ | neither maybe oldFailed newFailed =>
      dsimp only at oldInside newInside ⊢
      rw [Extent.bytes_shorter]
      omega

theorem Even.next_le (even : Even old new diffing) (oldLaid : old.Laid) (newLaid : new.Laid)
    {isChanged : Bool} {chosen : Diffing} (choice : diffing.Chosen (isChanged, chosen)) :
    chosen.next.bytes ≤ max old.total.bytes new.total.bytes := by
  have inside := even.oldStands.stop_le oldLaid
  have ahead := even.oldAhead
  have next := even.next
  exact even.ready.next_le oldLaid newLaid (by omega) choice

/-- A round keeps what is known, and leads to walkers that are alike again unless one of the trees
has ended. -/
theorem Alike.round (alike : Alike old new diffing) (recorded : Recorded old new diffing)
    (oldLaid : old.Laid) (newLaid : new.Laid) (oldVisible : old.info.visible = true)
    (newVisible : new.info.visible = true) (faithful : Faithful old new) {fuel : Nat}
    (oldEnough : 2 * old.count < fuel) (newEnough : 2 * new.count < fuel) :
    ∃ last, diffing.round fuel = some last ∧
      (last.old.isDone = false ∧ last.new.isDone = false →
        Alike old new last ∧ Recorded old new last) ∧
      (last.old.isDone = true ∨ last.new.isDone = true → Ended old new last) := by
  have visible := oldVisible.trans newVisible.symm
  rcases diffing.exists_choice with ⟨isChanged, chosen, choice, chosenSpec⟩
  have le := alike.even.reached_le chosenSpec
  rcases alike.even.chosen chosenSpec with ⟨oldStands, newStands, goes⟩
  have inhabited : chosen.old.stack ≠ [] ∧ chosen.new.stack ≠ [] := by
    rcases goes with ⟨_, _, oldSome, newSome⟩ | ⟨_, oldSought, newSought⟩
    · exact ⟨oldSome, newSome⟩
    · exact ⟨oldSought.inhabited, newSought.inhabited⟩
  rcases round_spec oldLaid newLaid visible choice (oldStands.mono le) (newStands.mono le)
    oldEnough newEnough with ⟨oldPast, newPast, oldLast, newLast, run, settled⟩
  have begun : old.info.padding.bytes ≤ chosen.next.bytes ∧
      new.info.padding.bytes ≤ chosen.next.bytes :=
    ⟨Nat.le_trans alike.begun.1 le, Nat.le_trans alike.begun.2 le⟩
  have kept : Recorded old new (chosen.advanced isChanged oldLast newLast) := by
    refine recorded.advanced chosenSpec le (fun same byte reached inside => ?_) oldLast newLast
    subst same
    exact alike.kindsAt_of_unchanged oldLaid newLaid oldVisible newVisible faithful chosenSpec
      reached inside
  refine ⟨_, run, fun inside => ⟨?_, kept⟩, fun done => ⟨kept, ?_, ?_⟩⟩
  · have oldInhabited : oldLast.stack ≠ [] := fun empty => by
      simp [Diffing.advanced, Walker.isDone, empty] at inside
    have newInhabited : newLast.stack ≠ [] := fun empty => by
      simp [Diffing.advanced, Walker.isDone, empty] at inside
    refine ⟨settled.even isChanged oldInhabited newInhabited,
      settled.under (alike.under_chosen visible chosenSpec), begun, ?_⟩
    simp [Diffing.advanced, chosenSpec.keeps.2.1, alike.pending]
  · apply settled.ended oldVisible newVisible begun inhabited.1 inhabited.2
    simpa [Diffing.advanced, Walker.isDone] using done
  · exact alike.even.next_le oldLaid newLaid chosenSpec

theorem Alike.run (alike : Alike old new diffing) (recorded : Recorded old new diffing)
    (oldLaid : old.Laid) (newLaid : new.Laid) (oldVisible : old.info.visible = true)
    (newVisible : new.info.visible = true) (faithful : Faithful old new) {moves : Nat}
    (oldEnough : 2 * old.count < moves) (newEnough : 2 * new.count < moves) {fuel : Nat}
    {last : Diffing} (run : diffing.run moves fuel = some last) : Ended old new last := by
  induction fuel generalizing diffing with
  | zero => cases run
  | succ fuel ih =>
      rcases alike.round recorded oldLaid newLaid oldVisible newVisible faithful oldEnough newEnough
        with ⟨next, round, goesOn, ends⟩
      rw [Diffing.run, round] at run
      dsimp only at run
      split at run
      · rename_i done
        cases run
        exact ends (by simpa using done)
      · rename_i inside
        simp only [Bool.or_eq_true, not_or, Bool.not_eq_true] at inside
        rcases goesOn inside with ⟨nextAlike, nextRecorded⟩
        exact ih nextAlike nextRecorded run

/-! ## The beginning and the end -/

/-- No node of either tree stands over a byte before both contents or after both trees. -/
theorem bounds_of_differ (oldLaid : old.Laid) (newLaid : new.Laid) {byte : Nat}
    (differ : old.kindsAt byte 0 ≠ new.kindsAt byte 0) :
    min old.info.padding.bytes new.info.padding.bytes ≤ byte ∧
      byte < max old.total.bytes new.total.bytes := by
  refine ⟨Nat.le_of_not_lt fun before => differ ?_, Nat.lt_of_not_le fun after => differ ?_⟩
  · rw [kindsAt_of_before 0 old oldLaid (by omega), kindsAt_of_before 0 new newLaid (by omega)]
  · rw [kindsAt_of_after 0 old oldLaid (by omega), kindsAt_of_after 0 new newLaid (by omega)]

section Begin

variable (old new : Tree) (included : List Span)

theorem found_begin : ∃ low high : Extent,
    low.bytes = min old.info.padding.bytes new.info.padding.bytes ∧
      high.bytes = max old.info.padding.bytes new.info.padding.bytes ∧
      (begin old new included).found = Span.extend [] low high := by
  have oldStart : (Walker.new old).start.bytes = old.info.padding.bytes := by
    simp [Walker.start, Walker.new, Extent.zero]
  have newStart : (Walker.new new).start.bytes = new.info.padding.bytes := by
    simp [Walker.start, Walker.new, Extent.zero]
  dsimp only [begin]
  split
  · exact ⟨(Walker.new old).start, (Walker.new new).start, by omega, by omega, rfl⟩
  · split
    · exact ⟨(Walker.new new).start, (Walker.new old).start, by omega, by omega, rfl⟩
    · refine ⟨(Walker.new old).start, (Walker.new new).start, by omega, by omega, ?_⟩
      rw [Span.extend, if_neg (by omega)]

theorem pending_begin : (begin old new included).pending = included := by
  dsimp only [begin]
  split <;> (try split) <;> rfl

end Begin

theorem recorded_begin (oldLaid : old.Laid) (newLaid : new.Laid) (included : List Span) :
    Recorded old new (begin old new included) := by
  rcases found_begin old new included with ⟨low, high, lowBytes, highBytes, found⟩
  have reached := reached_begin old new included
  have before := Span.liesBefore_nil low.bytes
  refine ⟨?_, fun byte inside differ => ?_⟩
  · rw [found, reached, ← highBytes]
    exact before.extend (by omega)
  · have bounds := bounds_of_differ oldLaid newLaid differ
    rw [found]
    exact Span.covers_extend nofun (Or.inr ⟨by omega, by omega, nofun⟩)

theorem alike_begin (oldVisible : old.info.visible = true) (newVisible : new.info.visible = true)
    (even : Even old new (begin old new [])) : Alike old new (begin old new []) where
  even := even
  under := by
    have under {root : Tree} (visible : root.info.visible = true) :
        (Walker.new root).Under [] := by
      right
      refine ⟨⟨rfl, visible⟩, ?_⟩
      simp [Walker.kinds, Walker.around, Walker.new, Walker.kindsOf, visible]
    rw [old_begin, new_begin]
    exact ⟨[], under oldVisible, under newVisible⟩
  begun := by
    rw [reached_begin]
    omega
  pending := pending_begin old new []

/-- The stretches found, with the stretch by which one tree is longer than the other. -/
def closing (old new : Tree) (found : List Span) : List Span :=
  if old.total.bytes < new.total.bytes then Span.extend found old.total new.total
  else if new.total.bytes < old.total.bytes then Span.extend found new.total old.total
  else found

theorem closing_eq (old new : Tree) (found : List Span) : ∃ low high : Extent,
    low.bytes = min old.total.bytes new.total.bytes ∧
      high.bytes = max old.total.bytes new.total.bytes ∧
      closing old new found =
        if low.bytes < high.bytes then Span.extend found low high else found := by
  unfold closing
  split
  · exact ⟨old.total, new.total, by omega, by omega, by rw [if_pos (by omega)]⟩
  · split
    · exact ⟨new.total, old.total, by omega, by omega, by rw [if_pos (by omega)]⟩
    · exact ⟨old.total, new.total, by omega, by omega, by rw [if_neg (by omega)]⟩

theorem Ended.covers {last : Diffing} (ended : Ended old new last) (oldLaid : old.Laid)
    (newLaid : new.Laid) {byte : Nat} (differ : old.kindsAt byte 0 ≠ new.kindsAt byte 0) :
    Span.Covers (closing old new last.found) byte := by
  rcases closing_eq old new last.found with ⟨low, high, lowBytes, highBytes, same⟩
  have bounds := bounds_of_differ oldLaid newLaid differ
  have oneEnded := ended.ended
  have within := ended.within
  rw [same]
  by_cases behind : byte < last.reached.bytes
  · have covered := ended.recorded.covers byte behind differ
    split
    · exact Span.covers_extend (ended.recorded.before.mono (by omega)) (Or.inl covered)
    · exact covered
  · rw [if_pos (by omega)]
    exact Span.covers_extend (ended.recorded.before.mono (by omega))
      (Or.inr ⟨by omega, by omega, ended.recorded.before.mono (by omega)⟩)

theorem padding_le_total (tree : Tree) : tree.info.padding.bytes ≤ tree.total.bytes := by
  simp [total, Info.total]

/-- If the contents begin past the end of a tree, the first round finds nothing or one stretch from
the first content on. It ends within the trees, but perhaps where it begins. -/
theorem found_of_passed (oldLaid : old.Laid) (newLaid : new.Laid) (included : List Span)
    (passed : old.total.bytes ≤ (begin old new included).reached.bytes ∨
      new.total.bytes ≤ (begin old new included).reached.bytes)
    {isChanged : Bool} {chosen : Diffing}
    (choice : (begin old new included).Chosen (isChanged, chosen)) (oldLast newLast : Walker) :
    ((chosen.advanced isChanged oldLast newLast).found = [] ∧
        min old.total.bytes new.total.bytes ≤
          min old.info.padding.bytes new.info.padding.bytes) ∨
      ∃ start stop : Extent, (chosen.advanced isChanged oldLast newLast).found = [⟨start, stop⟩] ∧
        start.bytes = min old.info.padding.bytes new.info.padding.bytes ∧
        start.bytes < max old.total.bytes new.total.bytes ∧
        min old.total.bytes new.total.bytes ≤ stop.bytes ∧
        stop.bytes ≤ max old.total.bytes new.total.bytes := by
  have goes := begin_passes included oldLaid newLaid choice passed
  have reached := reached_begin old new included
  have oldPadding := padding_le_total old
  have newPadding := padding_le_total new
  have within := (ready_begin old new included).next_le oldLaid newLaid (by
    rw [next_begin]
    omega) choice
  rcases found_begin old new included with ⟨first, second, firstBytes, secondBytes, found⟩
  have kept : (chosen.advanced isChanged oldLast newLast).found =
      if isChanged then Span.extend (Span.extend [] first second) (begin old new included).reached
        chosen.next else Span.extend [] first second := by
    simp only [advanced, choice.keeps.2.2, choice.keeps.1, found]
  rw [kept, Span.extend]
  by_cases apart : first.bytes < second.bytes
  · right
    rw [if_pos apart]
    cases isChanged
    · exact ⟨first, second, rfl, by omega, by omega, by omega, by omega⟩
    · refine ⟨first, chosen.next, ?_, by omega, by omega, by omega, within⟩
      rw [if_pos rfl, Span.extend, if_pos (by dsimp only; omega)]
  · rw [if_neg apart]
    cases isChanged
    · exact Or.inl ⟨rfl, by omega⟩
    · rw [if_pos rfl, Span.extend]
      split
      · exact Or.inr ⟨_, chosen.next, rfl, by omega, by omega, by omega, within⟩
      · exact Or.inl ⟨rfl, by omega⟩

/-- In that case all from the first content up to the end of the longer tree is one stretch. -/
theorem closing_of_passed (oldLaid : old.Laid) (newLaid : new.Laid) (included : List Span)
    (passed : old.total.bytes ≤ (begin old new included).reached.bytes ∨
      new.total.bytes ≤ (begin old new included).reached.bytes)
    {isChanged : Bool} {chosen : Diffing}
    (choice : (begin old new included).Chosen (isChanged, chosen)) (oldLast newLast : Walker) :
    ∃ start stop : Extent,
      start.bytes = min old.info.padding.bytes new.info.padding.bytes ∧
        stop.bytes = max old.total.bytes new.total.bytes ∧
        closing old new (chosen.advanced isChanged oldLast newLast).found =
          if start.bytes < stop.bytes then [⟨start, stop⟩] else [] := by
  have oldPadding := padding_le_total old
  have newPadding := padding_le_total new
  rcases closing_eq old new (chosen.advanced isChanged oldLast newLast).found with
    ⟨low, high, lowBytes, highBytes, same⟩
  rw [same]
  rcases found_of_passed oldLaid newLaid included passed choice oldLast newLast with
    ⟨nothing, before⟩ | ⟨start, stop, one, begins, inside, reaches, ends⟩
  · refine ⟨low, high, by omega, highBytes, ?_⟩
    rw [nothing, Span.extend]
    split <;> rfl
  · by_cases longer : low.bytes < high.bytes
    · refine ⟨start, high, begins, highBytes, ?_⟩
      rw [if_pos longer, if_pos (by omega), one, Span.extend, if_pos (by dsimp only; omega)]
    · refine ⟨start, stop, begins, by omega, ?_⟩
      rw [if_neg longer, if_pos (by omega), one]

theorem covers_of_passed (oldLaid : old.Laid) (newLaid : new.Laid)
    (passed : old.total.bytes ≤ (begin old new []).reached.bytes ∨
      new.total.bytes ≤ (begin old new []).reached.bytes)
    {isChanged : Bool} {chosen : Diffing} (choice : (begin old new []).Chosen (isChanged, chosen))
    (oldLast newLast : Walker) {byte : Nat}
    (differ : old.kindsAt byte 0 ≠ new.kindsAt byte 0) :
    Span.Covers (closing old new (chosen.advanced isChanged oldLast newLast).found) byte := by
  have bounds := bounds_of_differ oldLaid newLaid differ
  rcases closing_of_passed oldLaid newLaid [] passed choice oldLast newLast with
    ⟨start, stop, begins, ends, one⟩
  rw [one, if_pos (by omega)]
  exact ⟨⟨start, stop⟩, List.mem_singleton_self _, by dsimp only; omega, by dsimp only; omega⟩

theorem advanced_of_round {isChanged : Bool} {chosen last : Diffing} {fuel : Nat}
    (choice : diffing.choose = (isChanged, chosen)) (run : diffing.round fuel = some last) :
    ∃ oldLast newLast, last = chosen.advanced isChanged oldLast newLast := by
  cases oldRun : chosen.old.advancePast chosen.next.bytes fuel with
  | none => simp [Diffing.round, choice, oldRun] at run
  | some oldPast =>
      cases newRun : chosen.new.advancePast chosen.next.bytes fuel with
      | none => simp [Diffing.round, choice, oldRun, newRun] at run
      | some newPast =>
          rw [round_eq_bind choice oldRun newRun, Option.bind_eq_some_iff] at run
          rcases run with ⟨oldLast, _, rest⟩
          rw [Option.map_eq_some_iff] at rest
          rcases rest with ⟨newLast, _, same⟩
          exact ⟨oldLast, newLast, same.symm⟩

/-- Where the position lies past the end of a tree, the first round is the last one. -/
theorem ends_at_once (oldLaid : old.Laid) (newLaid : new.Laid)
    (visible : old.info.visible = new.info.visible) (included : List Span) {moves fuel : Nat}
    (oldEnough : 2 * old.count < moves) (newEnough : 2 * new.count < moves)
    (passed : old.total.bytes ≤ (begin old new included).reached.bytes ∨
      new.total.bytes ≤ (begin old new included).reached.bytes) {last : Diffing}
    (run : (begin old new included).run moves fuel = some last) :
    ∃ isChanged chosen oldLast newLast,
      (begin old new included).Chosen (isChanged, chosen) ∧
      last = chosen.advanced isChanged oldLast newLast := by
  cases fuel with
  | zero => cases run
  | succ fuel =>
      rcases (begin old new included).exists_choice with ⟨isChanged, chosen, choice, chosenSpec⟩
      have beyond := begin_passes included oldLaid newLaid chosenSpec passed
      have ready := ((ready_begin old new included).chosen chosenSpec).2
      rcases ready.round_done oldLaid newLaid visible choice beyond oldEnough newEnough with
        ⟨first, round, done⟩
      rcases advanced_of_round choice round with ⟨oldLast, newLast, rfl⟩
      rw [Diffing.run, round] at run
      dsimp only at run
      rw [if_pos (by simpa using done), Option.some.injEq] at run
      exact ⟨isChanged, chosen, oldLast, newLast, chosenSpec, run.symm⟩

theorem covers_of_run (oldLaid : old.Laid) (newLaid : new.Laid)
    (oldVisible : old.info.visible = true)
    (newVisible : new.info.visible = true) (faithful : Faithful old new) {moves fuel : Nat}
    (oldEnough : 2 * old.count < moves) (newEnough : 2 * new.count < moves) {last : Diffing}
    (run : (begin old new []).run moves fuel = some last) {byte : Nat}
    (differ : old.kindsAt byte 0 ≠ new.kindsAt byte 0) :
    Span.Covers (closing old new last.found) byte := by
  by_cases ahead : (begin old new []).reached.bytes < old.total.bytes ∧
      (begin old new []).reached.bytes < new.total.bytes
  · have alike := alike_begin oldVisible newVisible (even_begin [] ahead.1 ahead.2)
    have ended := alike.run (recorded_begin oldLaid newLaid []) oldLaid newLaid oldVisible
      newVisible faithful oldEnough newEnough run
    exact ended.covers oldLaid newLaid differ
  · rcases ends_at_once oldLaid newLaid (oldVisible.trans newVisible.symm) [] oldEnough newEnough
      (by omega) run with ⟨isChanged, chosen, oldLast, newLast, chosenSpec, rfl⟩
    exact covers_of_passed oldLaid newLaid (by omega) chosenSpec oldLast newLast differ

end Diffing

/-- The comparison of two trees with visible roots lists every byte over which their visible nodes
differ, provided that the nodes it takes for equal have the same kinds over every byte. -/
theorem changedSpans_complete {old new : Tree} (oldLaid : old.Laid) (newLaid : new.Laid)
    (oldVisible : old.info.visible = true) (newVisible : new.info.visible = true)
    (faithful : Faithful old new) :
    ∃ spans, old.changedSpans new [] = some spans ∧
      ∀ byte, old.kindsAt byte 0 ≠ new.kindsAt byte 0 →
        ∃ span ∈ spans, span.start.bytes ≤ byte ∧ byte < span.stop.bytes := by
  have comparable := comparable_of_visible (oldVisible.trans newVisible.symm)
  rcases Option.isSome_iff_exists.mp
    ((isSome_changedSpans_iff oldLaid newLaid []).mpr comparable) with ⟨spans, some⟩
  refine ⟨spans, some, fun byte differ => ?_⟩
  dsimp only [changedSpans] at some
  split at some
  · cases some
  · rename_i last run
    rw [Option.some.injEq] at some
    rcases Diffing.covers_of_run oldLaid newLaid oldVisible newVisible faithful (by omega) (by omega)
      run differ with ⟨span, member, inside⟩
    refine ⟨span, ?_, inside⟩
    rw [← some, List.mem_reverse]
    exact member

/-- A node over one byte. -/
def letter (symbol : Nat) : Tree :=
  node { Info.plain symbol Extent.zero ⟨1, ⟨0, 1⟩⟩ .regular with state := 1 } []

/-- A node over two letters. -/
def word (first second : Nat) : Tree :=
  branch 1 noState .regular [⟨0, letter first⟩, ⟨0, letter second⟩]

theorem at_word {first second : Nat} {path : List Nat} {offset : Nat} {found : Tree}
    (at_ : (word first second).At path offset found) :
    found = word first second ∨ found = letter first ∨ found = letter second := by
  cases at_ with
  | here => exact Or.inl rfl
  | inside among =>
      cases among with
      | first within =>
          cases within with
          | here => exact Or.inr (Or.inl rfl)
          | inside nothing => cases nothing
      | later among =>
          cases among with
          | first within =>
              cases within with
              | here => exact Or.inr (Or.inr rfl)
              | inside nothing => cases nothing
          | later nothing => cases nothing

theorem changedSpans_complete_word :
    ∃ spans, (word 2 3).changedSpans (word 2 4) [] = some spans ∧
      ∀ byte, (word 2 3).kindsAt byte 0 ≠ (word 2 4).kindsAt byte 0 →
        ∃ span ∈ spans, span.start.bytes ≤ byte ∧ byte < span.stop.bytes := by
  have laid (first second : Nat) : (word first second).Laid :=
    everywhere_node.mpr ⟨fun _ => ⟨rfl, rfl⟩, everywhereAmong_cons.mpr
      ⟨everywhere_node.mpr ⟨nofun, everywhereAmong_nil⟩, everywhereAmong_cons.mpr
        ⟨everywhere_node.mpr ⟨nofun, everywhereAmong_nil⟩, everywhereAmong_nil⟩⟩⟩
  refine changedSpans_complete (laid 2 3) (laid 2 4) rfl rfl ?_
  intro oldPath newPath oldStart newStart oldNode newNode oldAt newAt oldVisible newVisible equal
  rcases of_ofPlaces_equal oldVisible newVisible equal with ⟨symbol, start, oldState, newState⟩
  rcases at_word oldAt with rfl | rfl | rfl
  · exact absurd rfl oldState
  · rcases at_word newAt with rfl | rfl | rfl
    · exact absurd rfl newState
    · simp [start]
    · cases symbol
  · rcases at_word newAt with rfl | rfl | rfl
    · exact absurd rfl newState
    · cases symbol
    · cases symbol

end Tree

end Reparse
