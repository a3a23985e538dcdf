import Reparse.Proofs.Difference.Rounds

/-!
# Walkers that are about to move on

In the first round a walker may still be in the root although the position lies past the end of its
tree. Otherwise both walkers are ahead of the position (`Walker.Ready`). From either place a walker
gets past every goal, and can then be raised to every depth that its tree has
(`Walker.Ready.advancePast_spec`). On its way it is never at a depth below zero
(`Walker.Ready.depth_nonneg`).
-/

namespace Reparse

namespace Walker

variable {root : Tree} {walker : Walker} {position goal : Nat}

/-! ## Walkers that can be raised -/

/-- A walker can be raised to every depth that the tree has, and to no other. -/
structure Raisable (root : Tree) (walker : Walker) : Prop where
  deep : surplus root ≤ walker.depth
  raises (depth : Int) : surplus root ≤ depth →
    ∃ above, walker.raiseTo depth = some above ∧ surplus root ≤ above.depth ∧
      above.depth ≤ depth ∧ (walker.depth ≤ depth → above = walker)
  sticks : ∀ ⦃depth : Int⦄, depth < surplus root → walker.raiseTo depth = none
  outside : walker.stack = [] → walker.depth = surplus root

theorem Stands.raisable (rootLaid : root.Laid) (stands : walker.Stands root position)
    (ahead : walker.stack ≠ [] → position < walker.stop.bytes) : Raisable root walker where
  deep := by
    have := stands.depth
    omega
  raises depth least := by
    rcases raiseTo_spec rootLaid stands ahead depth least with ⟨above, run, raised⟩
    refine ⟨above, run, ?_, raised.low, raised.same⟩
    have := raised.stands.depth
    omega
  sticks depth below := ascendTo_eq_none rootLaid stands ahead below _
  outside empty := by
    rw [stands.depth, kinds_of_stack_nil empty]
    simp

theorem ascend_new (root : Tree) :
    (Walker.new root).ascend = ⟨[], surplus root, false⟩ := by
  cases visible : root.info.visible <;> simp [new, ascend, isVisible, visible, surplus]

theorem raisable_new (root : Tree) : Raisable root (Walker.new root) := by
  have above := ascend_new root
  have small : surplus root ≤ 1 := by
    unfold surplus
    split <;> omega
  have first : (Walker.new root).depth = 1 := rfl
  have unfolded (depth : Int) : (Walker.new root).raiseTo depth =
      if depth < 1 then (if depth < surplus root then none else some ⟨[], surplus root, false⟩)
      else some (Walker.new root) := by
    change (if depth < 1 then ascendTo depth (Walker.new root).ascend 0
      else some (Walker.new root)) = _
    rw [above]
    rfl
  refine ⟨by omega, fun depth least => ?_, fun depth below => ?_, nofun⟩
  · rw [unfolded]
    split
    · rw [if_neg (by omega)]
      exact ⟨_, rfl, Int.le_refl _, least, fun _ => by omega⟩
    · exact ⟨_, rfl, by omega, by omega, fun _ => rfl⟩
  · rw [unfolded, if_pos (by omega), if_pos below]

/-! ## The walkers that a round has chosen -/

/-- A walker that a round has chosen: it is in the root, or ahead of the position. -/
def Ready (root : Tree) (position : Nat) (walker : Walker) : Prop :=
  (walker = Walker.new root ∧ root.info.padding.bytes ≤ position) ∨
    (walker.Stands root position ∧ walker.stack ≠ [] ∧ position < walker.stop.bytes)

theorem Ready.stands (ready : Ready root position walker) : walker.Stands root position := by
  rcases ready with ⟨rfl, begun⟩ | ⟨stands, _⟩
  · exact stands_new root begun
  · exact stands

theorem bytes_stop_new (root : Tree) : (Walker.new root).stop.bytes = root.total.bytes := by
  simp [stop, new, Extent.zero]

/-- However far back the place is that a ready walker is moved past, it stands there, or it is still
in the root, or it stands ahead of a position that is further on. -/
theorem Ready.cases (ready : Ready root position walker) (goal : Nat) :
    walker.Stands root goal ∨ (walker = Walker.new root ∧ goal < walker.stop.bytes) ∨
      (walker.Stands root position ∧ walker.stack ≠ [] ∧ position < walker.stop.bytes ∧
        goal < position) := by
  by_cases further : position ≤ goal
  · exact Or.inl (ready.stands.mono further)
  · rcases ready with ⟨rfl, begun⟩ | ⟨stands, inhabited, ahead⟩
    · by_cases passed : root.total.bytes ≤ goal
      · left
        apply stands_new
        simp only [Tree.total, Info.total, Extent.bytes_add] at passed
        omega
      · right
        left
        exact ⟨rfl, by rw [bytes_stop_new]; omega⟩
    · exact Or.inr (Or.inr ⟨stands, inhabited, ahead, by omega⟩)

theorem Ready.advancePast_spec (rootLaid : root.Laid) (ready : Ready root position walker)
    (goal : Nat) {fuel : Nat} (enough : 2 * root.count < fuel) :
    ∃ next, advancePast goal walker fuel = some next ∧ Raisable root next ∧
      (root.total.bytes ≤ goal → next.stack = []) ∧
      (goal < walker.stop.bytes → next = walker) := by
  obtain ⟨fuel, rfl⟩ : ∃ less, fuel = less + 1 := ⟨fuel - 1, by omega⟩
  have stays (ahead : goal < walker.stop.bytes) :
      advancePast goal walker (fuel + 1) = some walker := by
    rw [advancePast, if_neg]
    simp only [Bool.and_eq_true, decide_eq_true_eq, not_and]
    omega
  have inside := ready.stands.stop_le rootLaid
  rcases ready.cases goal with stands | ⟨rfl, ahead⟩ | ⟨stands, _, ahead, before⟩
  · rcases Walker.advancePast_spec rootLaid stands
      (Nat.lt_of_le_of_lt stands.potential_le enough) with ⟨next, run, past⟩
    refine ⟨next, run, past.stands.raisable rootLaid past.ahead, fun done => ?_, past.stays⟩
    have short := past.stands.stop_le rootLaid
    cases stack : next.stack with
    | nil => rfl
    | cons entry around =>
        have ahead := past.ahead (by simp [stack])
        omega
  · exact ⟨_, stays ahead, raisable_new root, fun _ => by omega, fun _ => rfl⟩
  · exact ⟨walker, stays (by omega), stands.raisable rootLaid fun _ => ahead, fun _ => by omega,
      fun _ => rfl⟩

/-- The places that a walker passes on its way past `goal` and then up. -/
inductive Visits (goal : Nat) (walker : Walker) : Walker → Prop where
  | here : Visits goal walker walker
  | advanced {next : Walker} (visits : Visits goal walker next) (inhabited : next.isDone = false)
      (behind : next.stop.bytes ≤ goal) : Visits goal walker next.advance
  | ascended {next : Walker} (visits : Visits goal walker next)
      (ahead : next.isDone = true ∨ goal < next.stop.bytes) : Visits goal walker next.ascend

theorem isDone_iff : walker.isDone = true ↔ walker.stack = [] := by simp [isDone]

theorem Stands.visits (rootLaid : root.Laid) (stands : walker.Stands root goal) {next : Walker}
    (visits : walker.Visits goal next) : next.Stands root goal := by
  induction visits with
  | here => exact stands
  | @advanced next visits inhabited behind ih =>
      have some : next.stack ≠ [] := fun empty => by simp [isDone_iff.mpr empty] at inhabited
      exact (advance_spec rootLaid ih some behind).stands
  | @ascended next visits ahead ih =>
      cases stack : next.stack with
      | nil =>
          rw [stack_ascend_nil stack]
          exact ih
      | cons entry around =>
          refine (ascend_spec rootLaid ih ?_ stack).stands
          rcases ahead with done | ahead
          · rw [isDone_iff.mp done] at stack
            cases stack
          · exact ahead

/-- A walker that is ahead of a position further on only ascends. -/
theorem Stands.visits_ahead (rootLaid : root.Laid) (stands : walker.Stands root position)
    (ahead : position < walker.stop.bytes) (before : goal < position) {next : Walker}
    (visits : walker.Visits goal next) :
    next.Stands root position ∧ (next.stack ≠ [] → position < next.stop.bytes) := by
  induction visits with
  | here => exact ⟨stands, fun _ => ahead⟩
  | @advanced next visits inhabited behind ih =>
      have some : next.stack ≠ [] := fun empty => by simp [isDone_iff.mpr empty] at inhabited
      have := ih.2 some
      omega
  | @ascended next visits _ ih =>
      cases stack : next.stack with
      | nil =>
          rw [stack_ascend_nil stack]
          exact ih
      | cons entry around =>
          have up := ascend_spec rootLaid ih.1 (ih.2 (by simp [stack])) stack
          exact ⟨up.stands, up.ahead⟩

theorem visits_new (ahead : goal < root.total.bytes) {next : Walker}
    (visits : (Walker.new root).Visits goal next) :
    next = Walker.new root ∨ next = ⟨[], surplus root, false⟩ := by
  induction visits with
  | here => exact Or.inl rfl
  | advanced visits inhabited behind ih =>
      rcases ih with rfl | rfl
      · rw [bytes_stop_new] at behind
        omega
      · simp [isDone] at inhabited
  | ascended visits _ ih =>
      rcases ih with rfl | rfl
      · exact Or.inr (ascend_new root)
      · exact Or.inr rfl

/-- On its way a walker never gets to a depth below zero. -/
theorem Ready.depth_nonneg (rootLaid : root.Laid) (ready : Ready root position walker)
    {next : Walker} (visits : walker.Visits goal next) : 0 ≤ next.depth := by
  rcases ready.cases goal with stands | ⟨rfl, ahead⟩ | ⟨stands, _, ahead, before⟩
  · exact (stands.visits rootLaid visits).depth_nonneg
  · rw [bytes_stop_new] at ahead
    rcases visits_new ahead visits with rfl | rfl
    · simp [new]
    · simp
  · exact (stands.visits_ahead rootLaid ahead before visits).1.depth_nonneg

theorem Ready.inhabited (ready : Ready root position walker) : walker.stack ≠ [] := by
  rcases ready with ⟨rfl, _⟩ | ⟨_, inhabited, _⟩
  · simp [new]
  · exact inhabited

theorem Ready.sought (ready : Ready root position walker) {result : Bool × Walker}
    (sought : Sought root walker position result) : Ready root position result.2 := by
  rcases sought.moved with same | ahead
  · rw [same]
    exact ready
  · exact Or.inr ⟨sought.stands, sought.inhabited, ahead⟩

end Walker

namespace Tree

open Walker (Sought)

namespace Diffing

variable {old new : Tree} {diffing : Diffing}

/-- Both walkers are about to move on from the position that was reached. -/
structure Ready (old new : Tree) (diffing : Diffing) : Prop where
  old : Walker.Ready old diffing.reached.bytes diffing.old
  new : Walker.Ready new diffing.reached.bytes diffing.new

theorem Even.ready (even : Even old new diffing) : Ready old new diffing :=
  ⟨Or.inr ⟨even.oldStands, even.oldInhabited, even.oldAhead⟩,
    Or.inr ⟨even.newStands, even.newInhabited, even.newAhead⟩⟩

section Begin

variable (old new : Tree) (included : List Span)

theorem old_begin : (begin old new included).old = Walker.new old := by
  dsimp only [begin]
  split <;> (try split) <;> rfl

theorem new_begin : (begin old new included).new = Walker.new new := by
  dsimp only [begin]
  split <;> (try split) <;> rfl

theorem next_begin :
    (begin old new included).next.bytes = (begin old new included).reached.bytes := by
  have oldStart : (Walker.new old).start.bytes = old.info.padding.bytes := by
    simp [Walker.start, Walker.new, Extent.zero]
  dsimp only [begin]
  split
  · rfl
  · split
    · rfl
    · dsimp only
      omega

theorem reached_begin :
    (begin old new included).reached.bytes =
      max old.info.padding.bytes new.info.padding.bytes := by
  have oldStart : (Walker.new old).start.bytes = old.info.padding.bytes := by
    simp [Walker.start, Walker.new, Extent.zero]
  have newStart : (Walker.new new).start.bytes = new.info.padding.bytes := by
    simp [Walker.start, Walker.new, Extent.zero]
  dsimp only [begin]
  split
  · dsimp only
    omega
  · split <;> dsimp only <;> omega

theorem ready_begin : Ready old new (begin old new included) := by
  have reached := reached_begin old new included
  refine ⟨Or.inl ⟨old_begin old new included, ?_⟩, Or.inl ⟨new_begin old new included, ?_⟩⟩ <;>
    omega

end Begin

/-- Choosing keeps the position, and the walkers ready. -/
theorem Ready.chosen (ready : Ready old new diffing) {isChanged : Bool} {chosen : Diffing}
    (choice : diffing.Chosen (isChanged, chosen)) :
    chosen.reached = diffing.reached ∧ Ready old new chosen := by
  have oldReady := ready.old.sought
    (Walker.seek_spec ready.old.stands (ready.old.inhabited))
  have newReady := ready.new.sought
    (Walker.seek_spec ready.new.stands (ready.new.inhabited))
  cases choice with
  | equal same => exact ⟨rfl, ready.old, ready.new⟩
  | different differ => exact ⟨rfl, ready.old, ready.new⟩
  | below maybe oldFound newFound =>
      rw [oldFound] at oldReady
      rw [newFound] at newReady
      exact ⟨rfl, oldReady, newReady⟩
  | onlyOld maybe oldFound newFailed =>
      rw [oldFound] at oldReady
      rw [newFailed] at newReady
      exact ⟨rfl, oldReady, newReady⟩
  | onlyNew maybe oldFailed newFound =>
      rw [oldFailed] at oldReady
      rw [newFound] at newReady
      exact ⟨rfl, oldReady, newReady⟩
  | neither maybe oldFailed newFailed =>
      rw [oldFailed] at oldReady
      rw [newFailed] at newReady
      exact ⟨rfl, oldReady, newReady⟩

/-- The walkers that a round goes through, before it chooses and after. -/
def Passes (diffing : Diffing) (walker : Walker) : Prop :=
  walker = diffing.old ∨ walker = diffing.new ∨
    diffing.choose.2.old.Visits diffing.choose.2.next.bytes walker ∨
    diffing.choose.2.new.Visits diffing.choose.2.next.bytes walker

theorem Ready.depth_nonneg {diffing : Diffing} (oldLaid : old.Laid) (newLaid : new.Laid)
    (ready : Ready old new diffing) {walker : Walker} (passes : diffing.Passes walker) :
    0 ≤ walker.depth := by
  have chosen := (ready.chosen diffing.chosen_choose).2
  rcases passes with rfl | rfl | visits | visits
  · exact ready.old.stands.depth_nonneg
  · exact ready.new.stands.depth_nonneg
  · exact chosen.old.depth_nonneg oldLaid visits
  · exact chosen.new.depth_nonneg newLaid visits

end Diffing

end Tree

end Reparse
