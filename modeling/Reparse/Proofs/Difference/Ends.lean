import Reparse.Proofs.Difference.Measure
import Reparse.Proofs.Difference.Ready

/-!
# When a comparison ends

A comparison ends if every round does, since there is less and less left of it. A round does not end
if a walker has to ascend above the root. Since the first depth counts the root whether it is visible
or not, a walker in a tree with a hidden root cannot get to the depth that a walker outside of a tree
with a visible root has. That is where the other walker is at the end of the first round, unless the
tree with the hidden root is the shorter one (`Tree.isSome_changedSpans_iff`).
-/

namespace Reparse

namespace Tree

open Walker (Raisable Sought Stands surplus)

namespace Diffing

variable {old new : Tree} {diffing : Diffing}

/-! ## Rounds from even walkers -/

/-- A walker that has left its tree stays outside when it is raised. -/
theorem done_of_raisable {root other : Tree} {past last : Walker} {depth : Int}
    (raisable : Raisable root past) (empty : past.stack = []) (least : surplus other ≤ depth)
    (same : surplus root = surplus other) (raise : past.raiseTo depth = some last) :
    last.isDone = true := by
  have shallow := raisable.outside empty
  rcases raisable.raises depth (by omega) with ⟨above, run, _, _, stay⟩
  rw [run, Option.some.injEq] at raise
  subst raise
  rw [stay (by omega)]
  exact Walker.isDone_iff.mpr empty

/-- A round that goes past the end of a tree leaves the tree. -/
theorem Ready.round_done (oldLaid : old.Laid) (newLaid : new.Laid)
    (visible : old.info.visible = new.info.visible) {isChanged : Bool} {chosen : Diffing}
    (choice : diffing.choose = (isChanged, chosen)) (ready : Ready old new chosen)
    (passed : old.total.bytes ≤ chosen.next.bytes ∨ new.total.bytes ≤ chosen.next.bytes)
    {fuel : Nat} (oldEnough : 2 * old.count < fuel) (newEnough : 2 * new.count < fuel) :
    ∃ last, diffing.round fuel = some last ∧
      (last.old.isDone = true ∨ last.new.isDone = true) := by
  have sameSurplus : surplus old = surplus new := by simp [surplus, visible]
  rcases ready.old.advancePast_spec oldLaid chosen.next.bytes oldEnough with
    ⟨oldPast, oldRun, oldRaisable, oldLeft, _⟩
  rcases ready.new.advancePast_spec newLaid chosen.next.bytes newEnough with
    ⟨newPast, newRun, newRaisable, newLeft, _⟩
  have newDeep := newRaisable.deep
  rcases oldRaisable.raises newPast.depth (by omega) with
    ⟨oldLast, oldRaise, oldDeep, _, _⟩
  rcases newRaisable.raises oldLast.depth (by omega) with
    ⟨newLast, newRaise, _, _, _⟩
  refine ⟨_, round_eq choice oldRun newRun oldRaise newRaise, ?_⟩
  rcases passed with passed | passed
  · left
    exact done_of_raisable oldRaisable (oldLeft passed) newDeep sameSurplus oldRaise
  · right
    exact done_of_raisable newRaisable (newLeft passed) oldDeep sameSurplus.symm newRaise

/-- A walker that sets out from the root ends where the root does unless it gets past the
position. -/
theorem stop_of_new {root : Tree} {walker : Walker} {position : Nat} {result : Bool × Walker}
    (fresh : walker = Walker.new root) (sought : Sought root walker position result) :
    result.2.stop.bytes = root.total.bytes ∨ position < result.2.stop.bytes := by
  rcases sought.moved with same | ahead
  · left
    rw [same, fresh, Walker.bytes_stop_new]
  · exact Or.inr ahead

/-- Where a walker in the root does not reach past the position, it is still in the root. -/
theorem stop_of_short {root : Tree} {walker : Walker} {position : Nat} {result : Bool × Walker}
    (rootLaid : root.Laid) (fresh : walker = Walker.new root)
    (sought : Sought root walker position result) (short : root.total.bytes ≤ position) :
    result.1 = false ∧ result.2.stop.bytes = root.total.bytes := by
  have inside := sought.stands.stop_le rootLaid
  constructor
  · cases found : result.1
    · rfl
    · have := (sought.success found).2.1
      omega
  · rcases stop_of_new fresh sought with same | ahead
    · exact same
    · omega

/-- If the position lies past the end of a tree, the first round goes past that end or another. -/
theorem begin_passes (included : List Span) {isChanged : Bool} {chosen : Diffing}
    (oldLaid : old.Laid) (newLaid : new.Laid)
    (choice : (begin old new included).Chosen (isChanged, chosen))
    (passed : old.total.bytes ≤ (begin old new included).reached.bytes ∨
      new.total.bytes ≤ (begin old new included).reached.bytes) :
    old.total.bytes ≤ chosen.next.bytes ∨ new.total.bytes ≤ chosen.next.bytes := by
  have ready := ready_begin old new included
  have oldSought := Walker.seek_spec ready.old.stands (ready.old.inhabited)
  have newSought := Walker.seek_spec ready.new.stands (ready.new.inhabited)
  have oldStop := Walker.bytes_stop_new old
  have newStop := Walker.bytes_stop_new new
  rw [← old_begin old new included] at oldStop
  rw [← new_begin old new included] at newStop
  have oldShort := stop_of_short oldLaid (old_begin old new included) oldSought
  have newShort := stop_of_short newLaid (new_begin old new included) newSought
  cases choice with
  | equal same => exact Or.inl (Nat.le_of_eq oldStop.symm)
  | different differ =>
      rcases shorter_eq_or (begin old new included).old.stop (begin old new included).new.stop with
        same | same
      · left
        simp only [same]
        exact Nat.le_of_eq oldStop.symm
      · right
        simp only [same]
        exact Nat.le_of_eq newStop.symm
  | below maybe oldFound newFound =>
      rw [oldFound] at oldShort
      rw [newFound] at newShort
      rcases passed with short | short
      · exact absurd (oldShort short).1 nofun
      · exact absurd (newShort short).1 nofun
  | onlyOld maybe oldFound newFailed =>
      rw [oldFound] at oldShort oldSought
      have ahead := (oldSought.success rfl).2.1
      rcases passed with short | short
      · exact absurd (oldShort short).1 nofun
      · right
        dsimp only at ahead ⊢
        omega
  | onlyNew maybe oldFailed newFound =>
      rw [newFound] at newShort newSought
      have ahead := (newSought.success rfl).2.1
      rcases passed with short | short
      · left
        dsimp only at ahead ⊢
        omega
      · exact absurd (newShort short).1 nofun
  | @neither oldBelow newBelow maybe oldFailed newFailed =>
      rw [oldFailed] at oldSought
      rw [newFailed] at newSought
      have oldInside := oldSought.stands.stop_le oldLaid
      have newInside := newSought.stands.stop_le newLaid
      have oldMoved := stop_of_new (old_begin old new included) oldSought
      have newMoved := stop_of_new (new_begin old new included) newSought
      dsimp only at oldInside newInside oldMoved newMoved ⊢
      rcases shorter_eq_or oldBelow.stop newBelow.stop with same | same <;> rw [same] <;> omega

/-- From even walkers a round leads to even walkers, or out of a tree, and makes the measure
smaller. -/
theorem Even.round (oldLaid : old.Laid) (newLaid : new.Laid)
    (visible : old.info.visible = new.info.visible) (even : Even old new diffing) {fuel : Nat}
    (oldEnough : 2 * old.count < fuel) (newEnough : 2 * new.count < fuel) :
    ∃ last, diffing.round fuel = some last ∧
      (last.old.isDone = false → last.new.isDone = false →
        Even old new last ∧ measure old new last < measure old new diffing) := by
  rcases diffing.exists_choice with ⟨isChanged, chosen, choice, chosenSpec⟩
  rcases even.chosen chosenSpec with ⟨oldStands, newStands, goes⟩
  have le := even.reached_le chosenSpec
  rcases round_spec oldLaid newLaid visible choice (oldStands.mono le) (newStands.mono le)
    oldEnough newEnough with ⟨oldPast, newPast, oldLast, newLast, run, settled⟩
  refine ⟨_, run, fun oldIn newIn => ?_⟩
  have oldInhabited : oldLast.stack ≠ [] := fun empty => by
    simp [advanced, Walker.isDone, empty] at oldIn
  have newInhabited : newLast.stack ≠ [] := fun empty => by
    simp [advanced, Walker.isDone, empty] at newIn
  refine ⟨settled.even isChanged oldInhabited newInhabited, ?_⟩
  rcases goes with ⟨further, ends, oldSome, newSome⟩ | ⟨same, oldSought, newSought⟩
  · apply measure_lt_of_further further
    rcases ends with ends | ends
    · left
      rw [ends]
      exact oldStands.stop_mem oldSome
    · right
      rw [ends]
      exact newStands.stop_mem newSome
  · exact measure_lt_of_below even visible same oldSought newSought settled

theorem Even.isSome_run (oldLaid : old.Laid) (newLaid : new.Laid)
    (visible : old.info.visible = new.info.visible) (even : Even old new diffing) {moves : Nat}
    (oldEnough : 2 * old.count < moves) (newEnough : 2 * new.count < moves) {fuel : Nat}
    (enough : measure old new diffing < fuel) : (diffing.run moves fuel).isSome = true := by
  induction fuel generalizing diffing with
  | zero => omega
  | succ fuel ih =>
      rcases even.round oldLaid newLaid visible oldEnough newEnough with ⟨last, round, goesOn⟩
      rw [run, round]
      dsimp only
      split
      · rfl
      · rename_i inside
        simp only [Bool.or_eq_true, not_or, Bool.not_eq_true] at inside
        rcases goesOn inside.1 inside.2 with ⟨next, fewer⟩
        exact ih next (by omega)

/-! ## The first round -/

theorem even_begin (included : List Span)
    (oldAhead : (begin old new included).reached.bytes < old.total.bytes)
    (newAhead : (begin old new included).reached.bytes < new.total.bytes) :
    Even old new (begin old new included) := by
  have ready := ready_begin old new included
  refine ⟨ready.old.stands, ready.new.stands, ready.old.inhabited, ready.new.inhabited,
    ?_, ?_, ?_, next_begin old new included⟩
  · rw [old_begin, Walker.bytes_stop_new]
    exact oldAhead
  · rw [new_begin, Walker.bytes_stop_new]
    exact newAhead
  · rw [old_begin, new_begin]
    rfl

/-- Between trees with equally visible roots the first round leads to even walkers or out of a
tree. -/
theorem begin_round_of_visible (oldLaid : old.Laid) (newLaid : new.Laid) (included : List Span)
    (visible : old.info.visible = new.info.visible) {fuel : Nat}
    (oldEnough : 2 * old.count < fuel) (newEnough : 2 * new.count < fuel) :
    ∃ last, (begin old new included).round fuel = some last ∧
      (last.old.isDone = false → last.new.isDone = false → Even old new last) := by
  by_cases ahead : (begin old new included).reached.bytes < old.total.bytes ∧
      (begin old new included).reached.bytes < new.total.bytes
  · rcases (even_begin included ahead.1 ahead.2).round oldLaid newLaid visible oldEnough newEnough
      with ⟨last, run, even⟩
    exact ⟨last, run, fun oldIn newIn => (even oldIn newIn).1⟩
  · rcases (begin old new included).exists_choice with ⟨isChanged, chosen, choice, chosenSpec⟩
    have passed := begin_passes included oldLaid newLaid chosenSpec (by omega)
    have ready := ((ready_begin old new included).chosen chosenSpec).2
    rcases ready.round_done oldLaid newLaid visible choice passed oldEnough newEnough with
      ⟨last, run, done⟩
    refine ⟨last, run, fun oldIn newIn => ?_⟩
    simp [oldIn, newIn] at done

/-- Roots that are not equally visible count as different. -/
theorem choose_begin_of_mixed (included : List Span)
    (mixed : old.info.visible ≠ new.info.visible) :
    (begin old new included).choose =
      (true, { begin old new included with
        next := (Walker.new old).stop.shorter (Walker.new new).stop }) := by
  have differ : (begin old new included).compare = .different := by
    have places : Comparison.ofPlaces (Walker.new old) (Walker.new new) = .different := by
      cases oldVisible : old.info.visible <;> cases newVisible : new.info.visible
      · exact absurd (oldVisible.trans newVisible.symm) mixed
      · simp [Comparison.ofPlaces, Walker.visibleNode?, Walker.new, oldVisible, newVisible]
      · simp [Comparison.ofPlaces, Walker.visibleNode?, Walker.new, oldVisible, newVisible]
      · exact absurd (oldVisible.trans newVisible.symm) mixed
    unfold compare
    rw [old_begin, new_begin, places]
  unfold choose
  rw [differ]
  dsimp only
  rw [old_begin, new_begin]

/-- The first round between roots of which one is hidden goes to the end of the shorter tree. A
walker that is not there yet is still in its root. -/
theorem begin_round_of_mixed (oldLaid : old.Laid) (newLaid : new.Laid) (included : List Span)
    (mixed : old.info.visible ≠ new.info.visible) {fuel : Nat}
    (oldEnough : 2 * old.count < fuel) (newEnough : 2 * new.count < fuel) :
    ∃ (chosen : Diffing) (oldPast newPast : Walker),
      (begin old new included).round fuel =
        ((oldPast.raiseTo newPast.depth).bind fun oldLast =>
          (newPast.raiseTo oldLast.depth).map fun newLast =>
            chosen.advanced true oldLast newLast) ∧
      Raisable old oldPast ∧ Raisable new newPast ∧
      (old.total.bytes ≤ new.total.bytes → oldPast.stack = []) ∧
      (new.total.bytes < old.total.bytes → oldPast = Walker.new old) ∧
      (new.total.bytes ≤ old.total.bytes → newPast.stack = []) ∧
      (old.total.bytes < new.total.bytes → newPast = Walker.new new) := by
  have choice := choose_begin_of_mixed included mixed
  have ready := ready_begin old new included
  have oldStop := Walker.bytes_stop_new old
  have newStop := Walker.bytes_stop_new new
  rcases ready.old.advancePast_spec oldLaid
    ((Walker.new old).stop.shorter (Walker.new new).stop).bytes oldEnough with
    ⟨oldPast, oldRun, oldRaisable, oldLeft, oldStays⟩
  rcases ready.new.advancePast_spec newLaid
    ((Walker.new old).stop.shorter (Walker.new new).stop).bytes newEnough with
    ⟨newPast, newRun, newRaisable, newLeft, newStays⟩
  have round := round_eq_bind choice oldRun newRun
  rw [Extent.bytes_shorter, oldStop, newStop] at oldLeft oldStays newLeft newStays
  rw [old_begin, oldStop] at oldStays
  rw [new_begin, newStop] at newStays
  exact ⟨_, oldPast, newPast, round, oldRaisable, newRaisable, fun le => oldLeft (by omega),
    fun lt => oldStays (by omega), fun le => newLeft (by omega), fun lt => newStays (by omega)⟩

/-- A hidden old root against a visible new one: the walker in the old tree cannot get to the depth
outside of the new one. -/
theorem begin_round_of_hidden_old (oldLaid : old.Laid) (newLaid : new.Laid) (included : List Span)
    (oldHidden : old.info.visible = false) (newVisible : new.info.visible = true) {fuel : Nat}
    (oldEnough : 2 * old.count < fuel) (newEnough : 2 * new.count < fuel) :
    (old.total.bytes < new.total.bytes →
      ∃ last, (begin old new included).round fuel = some last ∧ last.old.isDone = true) ∧
      (new.total.bytes ≤ old.total.bytes → (begin old new included).round fuel = none) := by
  have oldSurplus : surplus old = 1 := by simp [surplus, oldHidden]
  have newSurplus : surplus new = 0 := by simp [surplus, newVisible]
  rcases begin_round_of_mixed oldLaid newLaid included (by simp [oldHidden, newVisible]) oldEnough
    newEnough with ⟨chosen, oldPast, newPast, round, oldRaisable, newRaisable, oldLeft, _, newLeft,
      newStays⟩
  rw [round]
  constructor
  · intro shorter
    have outside := oldLeft (Nat.le_of_lt shorter)
    have oldDepth := oldRaisable.outside outside
    have newDepth : newPast.depth = 1 := by rw [newStays shorter]; rfl
    rcases oldRaisable.raises newPast.depth (by omega) with
      ⟨oldLast, oldRaise, oldDeep, _, stay⟩
    rcases newRaisable.raises oldLast.depth (by omega) with ⟨newLast, newRaise, _⟩
    refine ⟨chosen.advanced true oldLast newLast, ?_, ?_⟩
    · rw [oldRaise, Option.bind_some, newRaise, Option.map_some]
    · have same := stay (by omega)
      subst same
      exact Walker.isDone_iff.mpr outside
  · intro longer
    have newDepth := newRaisable.outside (newLeft longer)
    rw [oldRaisable.sticks (by omega), Option.bind_none]

/-- A visible old root against a hidden new one. -/
theorem begin_round_of_hidden_new (oldLaid : old.Laid) (newLaid : new.Laid) (included : List Span)
    (oldVisible : old.info.visible = true) (newHidden : new.info.visible = false) {fuel : Nat}
    (oldEnough : 2 * old.count < fuel) (newEnough : 2 * new.count < fuel) :
    (new.total.bytes < old.total.bytes →
      ∃ last, (begin old new included).round fuel = some last ∧ last.new.isDone = true) ∧
      (old.total.bytes ≤ new.total.bytes → (begin old new included).round fuel = none) := by
  have oldSurplus : surplus old = 0 := by simp [surplus, oldVisible]
  have newSurplus : surplus new = 1 := by simp [surplus, newHidden]
  rcases begin_round_of_mixed oldLaid newLaid included (by simp [oldVisible, newHidden]) oldEnough
    newEnough with ⟨chosen, oldPast, newPast, round, oldRaisable, newRaisable, oldLeft, oldStays,
      newLeft, _⟩
  have newDeep := newRaisable.deep
  rw [round]
  constructor
  · intro shorter
    have outside := newLeft (Nat.le_of_lt shorter)
    have newDepth := newRaisable.outside outside
    have oldDepth : oldPast.depth = 1 := by rw [oldStays shorter]; rfl
    rcases oldRaisable.raises newPast.depth (by omega) with
      ⟨oldLast, oldRaise, _, _, stay⟩
    have same := stay (by omega)
    subst same
    rcases newRaisable.raises oldLast.depth (by omega) with
      ⟨newLast, newRaise, _, _, still⟩
    refine ⟨chosen.advanced true oldLast newLast, ?_, ?_⟩
    · rw [oldRaise, Option.bind_some, newRaise, Option.map_some]
    · have same := still (by omega)
      subst same
      exact Walker.isDone_iff.mpr outside
  · intro longer
    have oldDepth := oldRaisable.outside (oldLeft longer)
    rcases oldRaisable.raises newPast.depth (by omega) with
      ⟨oldLast, oldRaise, _, _, stay⟩
    have same := stay (by omega)
    subst same
    rw [oldRaise, Option.bind_some, newRaisable.sticks (by omega), Option.map_none]

end Diffing

/-! ## The whole comparison -/

/-- If only one of the roots is hidden, its tree is the shorter one. -/
structure Comparable (old new : Tree) : Prop where
  hiddenOld : old.info.visible = false → new.info.visible = true →
    old.total.bytes < new.total.bytes
  hiddenNew : old.info.visible = true → new.info.visible = false →
    new.total.bytes < old.total.bytes

theorem comparable_of_visible {old new : Tree} (visible : old.info.visible = new.info.visible) :
    Comparable old new := by
  refine ⟨fun oldHidden newVisible => ?_, fun oldVisible newHidden => ?_⟩
  · rw [oldHidden, newVisible] at visible
    cases visible
  · rw [oldVisible, newHidden] at visible
    cases visible

namespace Diffing

variable {old new : Tree} {moves : Nat}

/-- The first round leads to even walkers or out of a tree. -/
theorem begin_round (oldLaid : old.Laid) (newLaid : new.Laid) (included : List Span)
    (comparable : Comparable old new) (oldEnough : 2 * old.count < moves)
    (newEnough : 2 * new.count < moves) :
    ∃ last, (begin old new included).round moves = some last ∧
      (last.old.isDone = false → last.new.isDone = false →
        old.info.visible = new.info.visible ∧ Even old new last) := by
  cases oldVisible : old.info.visible <;> cases newVisible : new.info.visible
  · rcases begin_round_of_visible oldLaid newLaid included (oldVisible.trans newVisible.symm)
      oldEnough newEnough with ⟨last, run, even⟩
    exact ⟨last, run, fun oldIn newIn => ⟨rfl, even oldIn newIn⟩⟩
  · have hidden := begin_round_of_hidden_old oldLaid newLaid included oldVisible newVisible
      oldEnough newEnough
    rcases hidden.1 (comparable.hiddenOld oldVisible newVisible) with ⟨last, run, done⟩
    exact ⟨last, run, fun oldIn _ => by rw [done] at oldIn; cases oldIn⟩
  · have hidden := begin_round_of_hidden_new oldLaid newLaid included oldVisible newVisible
      oldEnough newEnough
    rcases hidden.1 (comparable.hiddenNew oldVisible newVisible) with ⟨last, run, done⟩
    exact ⟨last, run, fun _ newIn => by rw [done] at newIn; cases newIn⟩
  · rcases begin_round_of_visible oldLaid newLaid included (oldVisible.trans newVisible.symm)
      oldEnough newEnough with ⟨last, run, even⟩
    exact ⟨last, run, fun oldIn newIn => ⟨rfl, even oldIn newIn⟩⟩

theorem isSome_run_begin (oldLaid : old.Laid) (newLaid : new.Laid) (included : List Span)
    (comparable : Comparable old new) (oldEnough : 2 * old.count < moves)
    (newEnough : 2 * new.count < moves) {fuel : Nat}
    (enough : 2 * (old.count + new.count) * (old.count + 2) + (old.count + 2) < fuel) :
    ((begin old new included).run moves fuel).isSome = true := by
  obtain ⟨fuel, rfl⟩ : ∃ less, fuel = less + 1 := ⟨fuel - 1, by omega⟩
  rcases begin_round oldLaid newLaid included comparable oldEnough newEnough with
    ⟨last, round, goesOn⟩
  rw [run, round]
  dsimp only
  split
  · rfl
  · rename_i inside
    simp only [Bool.or_eq_true, not_or, Bool.not_eq_true] at inside
    rcases goesOn inside.1 inside.2 with ⟨visible, even⟩
    have bound := measure_le old new last
    exact even.isSome_run oldLaid newLaid visible oldEnough newEnough (by omega)

/-! Otherwise the first round does not end, however many moves it may take. -/

theorem advancePast_mono {goal : Nat} {walker next : Walker} {fuel more : Nat}
    (run : walker.advancePast goal fuel = some next) (le : fuel ≤ more) :
    walker.advancePast goal more = some next := by
  induction fuel generalizing walker more with
  | zero => cases run
  | succ fuel ih =>
      obtain ⟨more, rfl⟩ : ∃ less, more = less + 1 := ⟨more - 1, by omega⟩
      rw [Walker.advancePast] at run ⊢
      split at run
      · rename_i behind
        rw [if_pos behind]
        exact ih run (by omega)
      · rename_i ahead
        rw [if_neg ahead]
        exact run

theorem round_mono {diffing last : Diffing} {fuel more : Nat}
    (run : diffing.round fuel = some last) (le : fuel ≤ more) :
    diffing.round more = some last := by
  cases choice : diffing.choose with
  | mk isChanged chosen =>
      cases oldRun : chosen.old.advancePast chosen.next.bytes fuel with
      | none => simp [round, choice, oldRun] at run
      | some oldPast =>
          cases newRun : chosen.new.advancePast chosen.next.bytes fuel with
          | none => simp [round, choice, oldRun, newRun] at run
          | some newPast =>
              rw [round_eq_bind choice oldRun newRun] at run
              rw [round_eq_bind choice (advancePast_mono oldRun le) (advancePast_mono newRun le)]
              exact run

theorem round_begin_eq_none (oldLaid : old.Laid) (newLaid : new.Laid) (included : List Span)
    (incomparable : ¬ Comparable old new) (moves : Nat) :
    (begin old new included).round moves = none := by
  -- a round that ended would also end when it may take more moves
  have stuck : (begin old new included).round (moves + 2 * (old.count + new.count) + 1) = none := by
    cases oldVisible : old.info.visible <;> cases newVisible : new.info.visible
    · exact absurd (comparable_of_visible (oldVisible.trans newVisible.symm)) incomparable
    · refine (begin_round_of_hidden_old oldLaid newLaid included oldVisible newVisible
        (by omega) (by omega)).2 (Nat.le_of_not_lt fun shorter => incomparable ?_)
      exact ⟨fun _ _ => shorter, fun visible => by simp [oldVisible] at visible⟩
    · refine (begin_round_of_hidden_new oldLaid newLaid included oldVisible newVisible
        (by omega) (by omega)).2 (Nat.le_of_not_lt fun shorter => incomparable ?_)
      exact ⟨fun hidden => by simp [oldVisible] at hidden, fun _ _ => shorter⟩
    · exact absurd (comparable_of_visible (oldVisible.trans newVisible.symm)) incomparable
  cases run : (begin old new included).round moves with
  | none => rfl
  | some last =>
      rw [round_mono run (by omega)] at stuck
      cases stuck

theorem run_begin_eq_none (oldLaid : old.Laid) (newLaid : new.Laid) (included : List Span)
    (incomparable : ¬ Comparable old new) (moves fuel : Nat) :
    (begin old new included).run moves fuel = none := by
  cases fuel with
  | zero => rfl
  | succ fuel => rw [run, round_begin_eq_none oldLaid newLaid included incomparable moves]

/-! ## What a comparison goes through -/

/-- The states that a comparison is in before its rounds. -/
inductive Reaches (moves : Nat) (first : Diffing) : Diffing → Prop where
  | first : Reaches moves first first
  | round {diffing last : Diffing} (reaches : Reaches moves first diffing)
      (run : diffing.round moves = some last) (oldInside : last.old.isDone = false)
      (newInside : last.new.isDone = false) : Reaches moves first last

theorem Reaches.mono {first diffing : Diffing} {more : Nat} (reaches : Reaches moves first diffing)
    (le : moves ≤ more) : Reaches more first diffing := by
  induction reaches with
  | first => exact .first
  | round _ run oldInside newInside ih => exact .round ih (round_mono run le) oldInside newInside

/-- After the first round both walkers are even. -/
theorem Reaches.ready {included : List Span} {diffing : Diffing}
    (reaches : Reaches moves (begin old new included) diffing) (oldLaid : old.Laid)
    (newLaid : new.Laid) : Ready old new diffing := by
  replace reaches := reaches.mono (Nat.le_add_right moves (2 * (old.count + new.count) + 1))
  have oldEnough : 2 * old.count < moves + (2 * (old.count + new.count) + 1) := by omega
  have newEnough : 2 * new.count < moves + (2 * (old.count + new.count) + 1) := by omega
  have even : diffing = begin old new included ∨
      (old.info.visible = new.info.visible ∧ Even old new diffing) := by
    induction reaches with
    | first => exact Or.inl rfl
    | @round diffing last reaches run oldInside newInside ih =>
        right
        rcases ih with rfl | ⟨visible, even⟩
        · by_cases comparable : Comparable old new
          · rcases begin_round oldLaid newLaid included comparable oldEnough newEnough with
              ⟨other, same, even⟩
            rw [run, Option.some.injEq] at same
            subst same
            exact even oldInside newInside
          · rw [round_begin_eq_none oldLaid newLaid included comparable] at run
            cases run
        · rcases even.round oldLaid newLaid visible oldEnough newEnough with
            ⟨other, same, goesOn⟩
          rw [run, Option.some.injEq] at same
          subst same
          exact ⟨visible, (goesOn oldInside newInside).1⟩
  rcases even with rfl | ⟨_, even⟩
  · exact ready_begin old new included
  · exact even.ready

end Diffing

/-- A comparison ends if and only if the trees are comparable. -/
theorem isSome_changedSpans_iff {old new : Tree} (oldLaid : old.Laid) (newLaid : new.Laid)
    (included : List Span) :
    (old.changedSpans new included).isSome = true ↔ Comparable old new := by
  have weight : (2 * (old.count + new.count) + 2) * (2 * (old.count + new.count) + 2) =
      2 * (old.count + new.count) * (2 * (old.count + new.count) + 2) +
        2 * (2 * (old.count + new.count) + 2) := Nat.add_mul _ _ _
  have places : 2 * (old.count + new.count) * (old.count + 2) ≤
      2 * (old.count + new.count) * (2 * (old.count + new.count) + 2) :=
    Nat.mul_le_mul_left _ (by omega)
  constructor
  · intro some
    by_cases comparable : Comparable old new
    · exact comparable
    · simp [changedSpans, Diffing.run_begin_eq_none oldLaid newLaid included comparable] at some
  · intro comparable
    have ends : ((Diffing.begin old new included).run (2 * (old.count + new.count) + 2)
        ((2 * (old.count + new.count) + 2) * (2 * (old.count + new.count) + 2))).isSome = true :=
      Diffing.isSome_run_begin oldLaid newLaid included comparable (by omega) (by omega) (by omega)
    rcases Option.isSome_iff_exists.mp ends with ⟨last, run⟩
    dsimp only [changedSpans]
    rw [run]
    rfl

end Tree

end Reparse
