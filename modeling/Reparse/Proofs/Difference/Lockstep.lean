import Reparse.Proofs.Difference.Contour
import Reparse.Proofs.Difference.Rounds

/-!
# Comparing trees of one contour

Two trees with the same contour have no stretch in which they differ, whatever marks, states, costs
and fields their nodes carry and whatever text was included (`Tree.changedSpans_of_contour_eq`). The
walkers go in step: after every round they have the same contour, since the branch that a round takes
depends on what the trees do not share, but moves both walkers alike.

The trees need not be laid out, so that places and totals may contradict each other. What makes the
comparison end is that each move leaves fewer nodes behind and below the walker
(`Walker.remaining`).
-/

namespace Reparse

namespace Walker

/-! ## The nodes that are left -/

/-- What a walker can still come to: the nodes behind its place and below it, and the content if it
stands in padding. -/
def remaining (walker : Walker) : Nat :=
  match walker.stack with
  | [] => 0
  | entry :: _ =>
    1 + pending walker.stack + 2 * Tree.countAll entry.tree.children +
      if walker.inPadding then 1 else 0

@[simp]
theorem remaining_nil (depth : Int) (inPadding : Bool) : remaining ⟨[], depth, inPadding⟩ = 0 := rfl

@[simp]
theorem remaining_content (entry : WalkEntry) (around : List WalkEntry) (depth : Int) :
    remaining ⟨entry :: around, depth, false⟩ =
      1 + pending (entry :: around) + 2 * Tree.countAll entry.tree.children := rfl

@[simp]
theorem remaining_padding (entry : WalkEntry) (around : List WalkEntry) (depth : Int) :
    remaining ⟨entry :: around, depth, true⟩ =
      1 + pending (entry :: around) + 2 * Tree.countAll entry.tree.children + 1 := rfl

theorem remaining_new (tree : Tree) : (new tree).remaining < 2 * tree.count := by
  simp only [new, remaining_content, pending, Tree.countAll, tree.count_eq]
  omega

theorem remaining_pos {walker : Walker} (inhabited : walker.stack ≠ []) :
    0 < walker.remaining := by
  rcases walker with ⟨_ | ⟨entry, around⟩, depth, inPadding⟩
  · exact absurd rfl inhabited
  · cases inPadding
    · rw [remaining_content]
      omega
    · exact Nat.succ_pos _

section Enter

variable (goal : Nat)

mutual

theorem enter_remaining (start : Extent) (stack : List WalkEntry) (depth : Int) : (tree : Tree) →
    enter ⟨stack, depth, false⟩ goal start tree = (false, ⟨stack, depth, false⟩) ∨
      (enter ⟨stack, depth, false⟩ goal start tree).2.remaining <
        1 + pending stack + 2 * Tree.countAll tree.children
  | .node info children => by
    simp only [enter, Tree.children_node]
    exact enterAmong_remaining start true stack depth children

/-- Entering children goes nowhere, or leaves fewer nodes than the children have. -/
theorem enterAmong_remaining (start : Extent) (first : Bool) (stack : List WalkEntry)
    (depth : Int) : (children : List (Edge Tree)) →
    enterAmong ⟨stack, depth, false⟩ goal start first children =
        (false, ⟨stack, depth, false⟩) ∨
      (enterAmong ⟨stack, depth, false⟩ goal start first children).2.remaining <
        1 + pending stack + 2 * Tree.countAll children
  | [] => by simp [enterAmong]
  | ⟨field, child⟩ :: rest => by
    have below := enter_remaining start (⟨child, start, first, rest⟩ :: stack) depth child
    have later := enterAmong_remaining (start + child.info.padding + child.info.size) false stack
      depth rest
    have nodes := child.count_eq
    simp only [enterAmong, Tree.countAll]
    split
    · right
      split
      · split <;> simp only [remaining_padding, remaining_content, pending] <;> omega
      · rcases below with stays | fewer
        · rw [stays]
          simp only [remaining_content, pending]
          omega
        · simp only [pending] at fewer
          omega
    · exact later.imp_right fun fewer => by omega

end

/-- Descending goes nowhere or leaves fewer nodes. -/
theorem descend_remaining (walker : Walker) :
    walker.descend goal = (false, walker) ∨
      (walker.descend goal).2.remaining < walker.remaining := by
  rcases walker with ⟨_ | ⟨entry, around⟩, depth, inPadding⟩
  · simp [descend]
  · cases inPadding
    · exact enter_remaining goal entry.start (entry :: around) depth entry.tree
    · simp [descend]

theorem descend_remaining_le (walker : Walker) :
    (walker.descend goal).2.remaining ≤ walker.remaining := by
  rcases walker.descend_remaining goal with stays | fewer
  · exact Nat.le_of_eq (by rw [stays])
  · exact Nat.le_of_lt fewer

end Enter

theorem leave_remaining (depth : Int) (stack : List WalkEntry) :
    (leave depth stack).remaining < 1 + pending stack := by
  induction stack generalizing depth with
  | nil => simp [leave, pending]
  | cons entry around ih =>
      cases around with
      | nil =>
          simp only [leave, remaining_nil]
          omega
      | cons parent others =>
          rcases entry with ⟨tree, start, first, _ | ⟨⟨field, next⟩, later⟩⟩
          · have outer := ih (if tree.info.visible then depth - 1 else depth)
            have step : leave depth (⟨tree, start, first, []⟩ :: parent :: others) =
                leave (if tree.info.visible then depth - 1 else depth) (parent :: others) := by
              rw [leave]
              rfl
            rw [step, pending]
            omega
          · have nodes := next.count_eq
            have below (depth : Int) := descend_remaining_le 0
              ⟨⟨next, start + tree.total, false, later⟩ :: parent :: others, depth, false⟩
            simp only [remaining_content] at below
            simp only [leave, pending, Tree.countAll] at below ⊢
            split
            · split <;> simp only [remaining_padding, remaining_content, pending] <;> omega
            · exact Nat.lt_of_le_of_lt (below _) (by omega)

/-- Each advance leaves fewer nodes. -/
theorem advance_remaining {walker : Walker} (inhabited : walker.stack ≠ []) :
    walker.advance.remaining < walker.remaining := by
  rcases walker with ⟨_ | ⟨entry, around⟩, depth, inPadding⟩
  · exact absurd rfl inhabited
  · cases inPadding
    · have fewer := leave_remaining depth (entry :: around)
      simp only [remaining_content]
      exact Nat.lt_of_lt_of_le fewer (Nat.le_add_right _ _)
    · have below := descend_remaining_le 0 ⟨entry :: around, depth, false⟩
      simp only [remaining_content] at below
      simp only [advance, if_true, remaining_padding]
      split
      · simp
      · omega

theorem advancePast_remaining (goal : Nat) {walker : Walker} {fuel : Nat}
    (enough : walker.remaining < fuel) :
    ∃ past, advancePast goal walker fuel = some past ∧ past.remaining ≤ walker.remaining ∧
      (walker.stack ≠ [] → walker.stop.bytes ≤ goal → past.remaining < walker.remaining) := by
  induction fuel generalizing walker with
  | zero => omega
  | succ fuel ih =>
      rw [advancePast]
      split
      · rename_i behind
        have inhabited : walker.stack ≠ [] := by
          intro empty
          simp [isDone, empty] at behind
        have step := advance_remaining inhabited
        have enoughNext : walker.advance.remaining < fuel := by omega
        rcases ih enoughNext with ⟨past, run, fewer, _⟩
        exact ⟨past, run, by omega, fun _ _ => by omega⟩
      · rename_i there
        refine ⟨walker, rfl, Nat.le_refl _, fun inhabited behind => ?_⟩
        simp [isDone, inhabited, behind] at there

/-- A walker is not raised to its own depth: it is there. -/
theorem raiseTo_depth (walker : Walker) : walker.raiseTo walker.depth = some walker := by
  unfold raiseTo
  cases walker.stack.length <;> simp [ascendTo]

end Walker

namespace Tree

namespace Diffing

/-! ## Rounds in step -/

/-- Both walkers have the same contour, and no stretch was found to differ. -/
structure InStep (diffing : Diffing) : Prop where
  same : diffing.old.contour = diffing.new.contour
  found : diffing.found = []

variable {diffing : Diffing}

theorem shorter_self (extent : Extent) : extent.shorter extent = extent := by
  rcases shorter_eq_or extent extent with same | same <;> exact same

/-- Walkers with the same contour are never known to stand in different nodes. -/
theorem InStep.compare_ne (inStep : InStep diffing) : diffing.compare ≠ .different := by
  have nodes : diffing.old.visibleNode?.map WalkEntry.contour =
      diffing.new.visibleNode?.map WalkEntry.contour := by
    rw [← Walker.visibleNode_contour, ← Walker.visibleNode_contour, inStep.same]
  have places : Comparison.ofPlaces diffing.old diffing.new ≠ .different := by
    unfold Comparison.ofPlaces
    cases oldFound : diffing.old.visibleNode? with
    | none =>
        cases newFound : diffing.new.visibleNode? with
        | none => nofun
        | some newEntry => simp [oldFound, newFound] at nodes
    | some oldEntry =>
        cases newFound : diffing.new.visibleNode? with
        | none => simp [oldFound, newFound] at nodes
        | some newEntry =>
            rw [oldFound, newFound, Option.map_some, Option.map_some, Option.some_inj] at nodes
            have symbols := congrArg (fun entry : WalkEntry => entry.tree.info.symbol) nodes
            simp only [WalkEntry.contour, symbol_contour] at symbols
            dsimp only
            rw [if_neg (by simpa using symbols)]
            split <;> nofun
  unfold compare
  split
  · split <;> nofun
  · exact places

/-- Descending at the same place finds the same in both trees. -/
theorem InStep.descend (inStep : InStep diffing) (goal : Nat) :
    (diffing.old.descend goal).1 = (diffing.new.descend goal).1 ∧
      (diffing.old.descend goal).2.contour = (diffing.new.descend goal).2.contour := by
  have both : Prod.map id Walker.contour (diffing.old.descend goal) =
      Prod.map id Walker.contour (diffing.new.descend goal) := by
    rw [← Walker.descend_contour, ← Walker.descend_contour, inStep.same]
  exact Prod.ext_iff.mp both

theorem InStep.stop_eq (inStep : InStep diffing) : diffing.old.stop = diffing.new.stop := by
  rw [← Walker.stop_contour diffing.old, inStep.same, Walker.stop_contour]

/-- What a round chooses for walkers in step: no change, and to go on past the place or further
down. -/
theorem InStep.chosen (inStep : InStep diffing) {isChanged : Bool} {chosen : Diffing}
    (choice : diffing.Chosen (isChanged, chosen)) :
    isChanged = false ∧ InStep chosen ∧
      (chosen.old.remaining < diffing.old.remaining ∨
        (chosen.old = diffing.old ∧ chosen.old.stop.bytes ≤ chosen.next.bytes)) := by
  have finds := inStep.descend diffing.reached.bytes
  have below := diffing.old.descend_remaining diffing.reached.bytes
  cases choice with
  | equal same => exact ⟨rfl, ⟨inStep.same, inStep.found⟩, Or.inr ⟨rfl, Nat.le_refl _⟩⟩
  | different differ => exact absurd differ inStep.compare_ne
  | below maybe oldFound newFound =>
      rw [oldFound, newFound] at finds
      rw [oldFound] at below
      refine ⟨rfl, ⟨finds.2, inStep.found⟩, Or.inl ?_⟩
      exact below.resolve_left nofun
  | onlyOld maybe oldFound newFailed =>
      rw [oldFound, newFailed] at finds
      exact nomatch finds.1
  | onlyNew maybe oldFailed newFound =>
      rw [oldFailed, newFound] at finds
      exact nomatch finds.1
  | @neither oldBelow newBelow maybe oldFailed newFailed =>
      rw [oldFailed, newFailed] at finds
      rw [oldFailed] at below
      have belowInStep : InStep { diffing with old := oldBelow, new := newBelow } :=
        ⟨finds.2, inStep.found⟩
      refine ⟨rfl, ⟨finds.2, inStep.found⟩, ?_⟩
      rcases below with stays | fewer
      · right
        have same : oldBelow = diffing.old := congrArg Prod.snd stays
        refine ⟨same, ?_⟩
        have stops : oldBelow.stop = newBelow.stop := belowInStep.stop_eq
        dsimp only
        exact Nat.le_of_eq (by rw [← stops, shorter_self])
      · exact Or.inl fewer

/-- A round keeps walkers in step, and fewer nodes are left after it. -/
theorem InStep.round (inStep : InStep diffing) (inhabited : diffing.old.stack ≠ []) {fuel : Nat}
    (enough : diffing.old.remaining < fuel) :
    ∃ last, diffing.round fuel = some last ∧ InStep last ∧
      last.old.remaining < diffing.old.remaining := by
  rcases diffing.exists_choice with ⟨isChanged, chosen, choice, chosenSpec⟩
  rcases inStep.chosen chosenSpec with ⟨unchanged, chosenInStep, goesOn⟩
  have enoughChosen : chosen.old.remaining < fuel := by
    rcases goesOn with fewer | ⟨same, _⟩
    · omega
    · rwa [same]
  rcases Walker.advancePast_remaining chosen.next.bytes enoughChosen with
    ⟨oldPast, oldRun, fewer, passes⟩
  have runs : (chosen.old.advancePast chosen.next.bytes fuel).map Walker.contour =
      (chosen.new.advancePast chosen.next.bytes fuel).map Walker.contour := by
    rw [← Walker.advancePast_contour, ← Walker.advancePast_contour, chosenInStep.same]
  rw [oldRun] at runs
  obtain ⟨newPast, newRun, pasts⟩ := Option.map_eq_some_iff.mp runs.symm
  have depths : oldPast.depth = newPast.depth := by
    rw [← Walker.depth_contour oldPast, ← pasts, Walker.depth_contour]
  have oldRaise : oldPast.raiseTo newPast.depth = some oldPast := by
    rw [← depths, Walker.raiseTo_depth]
  have newRaise : newPast.raiseTo oldPast.depth = some newPast := by
    rw [depths, Walker.raiseTo_depth]
  refine ⟨_, round_eq choice oldRun newRun oldRaise newRaise, ⟨pasts.symm, ?_⟩, ?_⟩
  · simp [advanced, unchanged, chosenInStep.found]
  · change oldPast.remaining < diffing.old.remaining
    rcases goesOn with further | ⟨same, behind⟩
    · exact Nat.lt_of_le_of_lt fewer further
    · rw [← same]
      exact passes (same ▸ inhabited) behind

theorem InStep.run (inStep : InStep diffing) (inhabited : diffing.old.stack ≠ []) {moves : Nat}
    (enough : diffing.old.remaining < moves) {fuel : Nat}
    (rounds : diffing.old.remaining ≤ fuel) :
    ∃ last, diffing.run moves fuel = some last ∧ last.found = [] := by
  induction fuel generalizing diffing with
  | zero =>
      have some := Walker.remaining_pos inhabited
      omega
  | succ fuel ih =>
      rcases inStep.round inhabited enough with ⟨next, round, nextInStep, fewer⟩
      rw [Diffing.run, round]
      dsimp only
      split
      · exact ⟨next, rfl, nextInStep.found⟩
      · rename_i inside
        simp only [Walker.isDone, Bool.or_eq_true, List.isEmpty_iff, not_or] at inside
        exact ih nextInStep inside.1 (by omega) (by omega)

theorem inStep_begin {old new : Tree} (same : old.contour = new.contour) (included : List Span) :
    InStep (begin old new included) := by
  have walkers : (Walker.new old).contour = (Walker.new new).contour := by
    rw [Walker.contour_new, Walker.contour_new, same]
  have starts : (Walker.new old).start = (Walker.new new).start := by
    rw [← Walker.start_contour, walkers, Walker.start_contour]
  dsimp only [begin]
  rw [starts, if_neg (Nat.lt_irrefl _), if_neg (Nat.lt_irrefl _)]
  exact ⟨walkers, rfl⟩

end Diffing

/-- Trees of one contour do not differ, whatever text was included. -/
theorem changedSpans_of_contour_eq {old new : Tree} (same : old.contour = new.contour)
    (included : List Span) : old.changedSpans new included = some [] := by
  have totals : old.total = new.total := by
    rw [← total_contour, same, total_contour]
  have inStep := Diffing.inStep_begin same included
  have first : (Diffing.begin old new included).old = Walker.new old := by
    dsimp only [Diffing.begin]
    split <;> (try split) <;> rfl
  have enough : (Diffing.begin old new included).old.remaining <
      2 * (old.count + new.count) + 2 := by
    have few := Walker.remaining_new old
    rw [first]
    omega
  have rounds : (Diffing.begin old new included).old.remaining ≤
      (2 * (old.count + new.count) + 2) * (2 * (old.count + new.count) + 2) :=
    Nat.le_trans (Nat.le_of_lt enough) (Nat.le_mul_of_pos_right _ (Nat.succ_pos _))
  have inhabited : (Diffing.begin old new included).old.stack ≠ [] := by
    simp [first, Walker.new]
  rcases inStep.run inhabited enough rounds with ⟨last, run, found⟩
  simp [changedSpans, run, found, totals]

/-- Two hidden nodes around a visible pair of tokens. The nodes have other states and costs, one tree
is marked as changed, its scans looked further, and only its children are in fields. -/
theorem changedSpans_of_contour_eq_marked :
    ∃ old new : Tree, old.contour = new.contour ∧ old.info.changed ≠ new.info.changed ∧
      old.info.cost ≠ new.info.cost ∧
      old.changedSpans new [⟨⟨0, ⟨0, 0⟩⟩, ⟨2, ⟨0, 2⟩⟩⟩] = some [] := by
  let tokens (lookahead : Nat) : List (Edge Tree) :=
    [⟨lookahead, leaf 2 ⟨1, ⟨0, 1⟩⟩ ⟨1, ⟨0, 1⟩⟩ lookahead .regular false⟩,
      ⟨0, leaf 3 Extent.zero ⟨2, ⟨0, 2⟩⟩ lookahead .anonymous false⟩]
  let wrap (lookahead state cost : Nat) (changed : Bool) : Tree :=
    node { Info.plain 6 ⟨1, ⟨0, 1⟩⟩ ⟨3, ⟨0, 3⟩⟩ .unknown with state, cost, changed }
      [⟨lookahead, branch 5 state .regular (tokens lookahead)⟩]
  have same : (wrap 4 1 0 true).contour = (wrap 0 3 500 false).contour := rfl
  exact ⟨wrap 4 1 0 true, wrap 0 3 500 false, same, nofun, nofun, changedSpans_of_contour_eq same _⟩

end Tree

end Reparse
