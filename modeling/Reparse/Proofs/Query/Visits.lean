import Reparse.Proofs.Query.Run
import Reparse.Proofs.Tree.Layout

/-!
# The visits of a run

A run of a query visits one node after the other and finds some matches at each
(`QueryRun.Finds`). Every visit leads to a node further on, so the bound on the nodes is never
reached, and calling `nextMatch` until there is no match gives what the visits find, in order.
-/

namespace Reparse

namespace Cursor

open Node (startOf)

variable {cursor reached : Cursor} {node parent found : Node} {around : List Node} {index : Nat}
  {place : Extent}

/-! ## The nodes ahead of a cursor -/

/-- The number of nodes behind a node and not below it, hidden ones too. -/
def behind (node : Node) : List Node → Nat
  | [] => 0
  | parent :: around =>
    Tree.countAll (parent.tree.children.drop (number node + 1)) + behind parent around

/-- The number of nodes below the cursor's node and behind it. -/
def ahead (cursor : Cursor) : Nat :=
  Tree.countAll cursor.node.tree.children + behind cursor.node cursor.around

theorem countAll_drop_le (edges : List (Edge Tree)) (number : Nat) :
    Tree.countAll (edges.drop number) ≤ Tree.countAll edges := by
  have split := Tree.countAll_append (edges.take number) (edges.drop number)
  rw [List.take_append_drop] at split
  omega

theorem behind_le_ahead (cursor : Cursor) : behind cursor.node cursor.around ≤ cursor.ahead :=
  Nat.le_add_left _ _

theorem ahead_push (cursor : Cursor) (index : Nat) (child : Tree) (start : Extent) :
    (cursor.push ⟨child, start, index :: cursor.node.trail⟩).ahead + 1 =
      child.count + Tree.countAll (cursor.node.tree.children.drop (index + 1)) +
        behind cursor.node cursor.around := by
  simp only [ahead, push, behind, number, List.headD_cons, Tree.count_eq child]
  omega

mutual

theorem ahead_enterFirst (cursor : Cursor) : (inner : Tree) → inner = cursor.node.tree →
    (enterFirst cursor inner).2.ahead + (if (enterFirst cursor inner).1 then 1 else 0) ≤
      cursor.ahead
  | .node _ children, same => by
    rw [enterFirst]
    have edges : cursor.node.tree.children.drop 0 = children := by rw [← same]; rfl
    exact ahead_enterFirstAmong cursor 0 cursor.node.start children edges

theorem ahead_enterFirstAmong (cursor : Cursor) (index : Nat) (place : Extent) :
    (edges : List (Edge Tree)) → cursor.node.tree.children.drop index = edges →
      (enterFirstAmong cursor index place edges).2.ahead +
        (if (enterFirstAmong cursor index place edges).1 then 1 else 0) ≤ cursor.ahead
  | [], _ => by simp [enterFirstAmong]
  | ⟨_, child⟩ :: rest, dropped => by
    let entered := cursor.push ⟨child, startOf index place child, index :: cursor.node.trail⟩
    have step : entered.ahead + 1 ≤ cursor.ahead := by
      have here : entered.ahead + 1 = _ :=
        ahead_push cursor index child (startOf index place child)
      have split := countAll_drop_le cursor.node.tree.children index
      rw [drop_succ dropped] at here
      rw [dropped, Tree.countAll] at split
      rw [here, ahead]
      exact Nat.add_le_add_right split _
    rw [enterFirstAmong]
    split
    · simpa using step
    · split
      · have below := ahead_enterFirst entered child rfl
        exact Nat.le_trans below (Nat.le_trans (Nat.le_succ _) step)
      · exact ahead_enterFirstAmong cursor (index + 1) _ rest (drop_succ dropped)

end

theorem ahead_firstChild (cursor : Cursor) :
    cursor.firstChild.2.ahead + (if cursor.firstChild.1 then 1 else 0) ≤ cursor.ahead :=
  ahead_enterFirst cursor cursor.node.tree rfl

theorem ahead_of_firstReachable {edges : List (Edge Tree)}
    (dropped : parent.tree.children.drop index = edges)
    (reachable : firstReachable parent.trail index place edges = some found) :
    (⟨found, parent :: around⟩ : Cursor).ahead + 1 ≤
      Tree.countAll edges + behind parent around := by
  induction edges generalizing index place with
  | nil => simp [firstReachable] at reachable
  | cons edge rest ih =>
      have next := drop_succ dropped
      rw [firstReachable] at reachable
      rw [Tree.countAll]
      split at reachable
      · rw [Option.some.injEq] at reachable
        subst reachable
        have here := ahead_push ⟨parent, around⟩ index edge.tree
          (startOf index place edge.tree)
        rw [next] at here
        exact Nat.le_of_eq here
      · have later := ih next reachable
        omega

theorem ahead_of_sideways (search : sideways reachableAfter node around = some reached) :
    reached.ahead + 1 ≤ behind node around := by
  induction around generalizing node with
  | nil => simp [sideways] at search
  | cons parent rest ih =>
      rw [sideways] at search
      rw [behind]
      split at search
      · rename_i found reachable
        rw [Option.some.injEq] at search
        rw [← search]
        exact ahead_of_firstReachable rfl reachable
      · split at search
        · cases search
        · have outer := ih search
          omega

theorem ahead_of_nextSibling (moved : cursor.nextSibling = (true, reached)) :
    reached.ahead + 1 ≤ behind cursor.node cursor.around := by
  unfold nextSibling at moved
  split at moved
  · simp at moved
  · rename_i found search
    have beside := ahead_of_sideways search
    split at moved
    · simp only [Prod.mk.injEq, true_and] at moved
      exact moved ▸ beside
    · simp only [Prod.mk.injEq, true_and] at moved
      have inner := ahead_firstChild found
      rw [moved] at inner
      omega

theorem behind_of_climb (climbed : climb (parent :: around) = some reached) :
    behind reached.node reached.around ≤ behind parent around := by
  induction around generalizing parent with
  | nil =>
      simp only [climb, Option.some.injEq] at climbed
      exact climbed ▸ Nat.le_refl _
  | cons next rest ih =>
      rw [climb] at climbed
      · split at climbed
        · rw [Option.some.injEq] at climbed
          exact climbed ▸ Nat.le_refl _
        · have outer := ih climbed
          rw [behind]
          omega
      · simp

theorem behind_of_parent (moved : cursor.parent = (true, reached)) :
    behind reached.node reached.around ≤ behind cursor.node cursor.around := by
  rcases cursor with ⟨node, around⟩
  unfold Cursor.parent at moved
  split at moved
  · simp at moved
  · rename_i found climbed
    simp only [Prod.mk.injEq, true_and] at moved
    cases around with
    | nil => simp [climb] at climbed
    | cons parent rest =>
        have outer := behind_of_climb climbed
        rw [← moved, behind]
        omega

theorem nextSibling_of_false (stayed : cursor.nextSibling = (false, reached)) :
    reached = cursor := by
  unfold nextSibling at stayed
  split at stayed
  · simp only [Prod.mk.injEq, true_and] at stayed
    exact stayed.symm
  · split at stayed <;> simp at stayed

end Cursor

namespace QueryRun

open Cursor (behind)

variable {run next : QueryRun} {cursor place : Cursor} {found : List RawMatch}

theorem ahead_of_following {height : Nat} (followed : following cursor height = some place) :
    place.ahead + 1 ≤ behind cursor.node cursor.around := by
  induction height generalizing cursor with
  | zero => simp [following] at followed
  | succ height ih =>
      rw [following] at followed
      split at followed
      · rename_i reached moved
        rw [Option.some.injEq] at followed
        exact followed ▸ Cursor.ahead_of_nextSibling moved
      · rename_i stayed moved
        have same := Cursor.nextSibling_of_false moved
        subst same
        split at followed
        · rename_i parent climbed
          exact Nat.le_trans (ih followed) (Cursor.behind_of_parent climbed)
        · cases followed

/-- The number of nodes that the run may still visit. -/
def left (run : QueryRun) : Nat :=
  if run.isFinished then 0
  else if run.isStarted then run.cursor.ahead
  else run.cursor.ahead + 1

theorem ahead_of_nextPlace (unfinished : run.isFinished = false)
    (place_ : run.nextPlace = some place) : place.ahead + 1 ≤ run.left := by
  unfold nextPlace at place_
  simp only [left, unfinished, Bool.false_eq_true, if_false]
  have below := run.cursor.ahead_firstChild
  split at place_
  · rename_i fresh
    rw [Option.some.injEq] at place_
    simp_all
  · rename_i started
    have started : run.isStarted = true := by simpa using started
    rw [if_pos started]
    split at place_
    · rename_i child _ entered
      rw [Option.some.injEq] at place_
      rw [entered] at below
      simpa [place_] using below
    · rename_i inner _ entered
      rw [entered] at below
      have onward := ahead_of_following place_
      have inside := inner.behind_le_ahead
      simp only [Bool.false_eq_true, if_false, Nat.add_zero] at below
      omega
    · have onward := ahead_of_following place_
      have inside := run.cursor.behind_le_ahead
      omega

/-! ## Single visits -/

section Congruence

variable {other : QueryRun} (sameRoot : run.root = other.root)
  (sameDepth : run.startDepth = other.startDepth)

include sameRoot sameDepth

theorem solutionsAt_congr (visited : Child) (sequence : List Pattern) :
    run.solutionsAt visited sequence = other.solutionsAt visited sequence := by
  simp only [solutionsAt, siblingsAfter, sameRoot, sameDepth]

theorem matchesFrom_congr (visited : Child) (index : Nat) (patterns : List QueryPattern) :
    run.matchesFrom visited index patterns = other.matchesFrom visited index patterns := by
  induction patterns generalizing index with
  | nil => rfl
  | cons pattern rest ih =>
      rw [matchesFrom, matchesFrom, solutionsAt_congr sameRoot sameDepth, ih]

theorem matchesAt_congr (sameQuery : run.query = other.query) (visited : Child) :
    run.matchesAt visited = other.matchesAt visited := by
  rw [matchesAt, matchesAt, sameQuery, matchesFrom_congr sameRoot sameDepth]

end Congruence

/-- Whether a node lies in the ranges of the run. -/
def covers (run : QueryRun) (node : Node) : Bool :=
  meetsRange (fun left right => decide (left < right)) node.start.bytes node.stop.bytes
      run.bytes &&
    meetsRange Point.before node.start.point node.stop.point run.points

/-- The run standing at a node that it visits. -/
def standing (run : QueryRun) (place : Cursor) : QueryRun :=
  { run with
    cursor := place
    inRange := run.covers place.node
    isStarted := true
    frontier := place.node.start.bytes }

/-- The matches that begin at a node, none if it lies outside of the ranges. -/
def foundAt (run : QueryRun) (place : Cursor) : List RawMatch :=
  if run.covers place.node then run.matchesAt ⟨place.node, place.field⟩ else []

theorem visitMatches_of_finished (finished : run.isFinished = true) :
    run.visitMatches = (none, run) := by
  simp [visitMatches, visitNext, finished]

theorem visitMatches_of_none (unfinished : run.isFinished = false)
    (last : run.nextPlace = none) :
    run.visitMatches = (none, { run with isFinished := true }) := by
  simp [visitMatches, visitNext, unfinished, last]

theorem visitMatches_of_some (unfinished : run.isFinished = false)
    (next : run.nextPlace = some place) :
    run.visitMatches = (some (run.foundAt place), run.standing place) := by
  have same : (run.standing place).matchesAt ⟨place.node, place.field⟩ =
      run.matchesAt ⟨place.node, place.field⟩ :=
    @matchesAt_congr (run.standing place) run rfl rfl rfl _
  have moved : run.visitNext = (some ⟨place.node, place.field⟩, run.standing place) := by
    rw [visitNext, if_neg (by simp [unfinished]), next]
    rfl
  rw [visitMatches, moved, foundAt, ← same]
  rfl

/-- A run is over, or there is no node left, or it visits the next one. -/
theorem visitMatches_cases (run : QueryRun) :
    run.visitMatches = (none, { run with isFinished := true }) ∨
      ∃ place, run.isFinished = false ∧ run.nextPlace = some place ∧
        run.visitMatches = (some (run.foundAt place), run.standing place) := by
  cases finished : run.isFinished with
  | true =>
      left
      rw [visitMatches_of_finished finished, ← finished]
  | false =>
      cases next : run.nextPlace with
      | none => exact Or.inl (visitMatches_of_none finished next)
      | some place => exact Or.inr ⟨place, rfl, rfl, visitMatches_of_some finished next⟩

/-! ## All visits -/

/-- The visits that are left find these matches, those of each visit on a list of their own. -/
inductive Finds : QueryRun → List (List RawMatch) → Prop where
  | ended {run : QueryRun} (ended : run.visitMatches.1 = none) : Finds run []
  | visit {run next : QueryRun} {found : List RawMatch} {later : List (List RawMatch)}
      (visited : run.visitMatches = (some found, next)) (rest : Finds next later) :
      Finds run (found :: later)

/-- Every run comes to its end, in no more visits than there are nodes left. -/
theorem exists_finds (run : QueryRun) : ∃ visits, run.Finds visits ∧ visits.length ≤ run.left := by
  induction bound : run.left using Nat.strongRecOn generalizing run with
  | ind count ih =>
      rcases run.visitMatches_cases with ended | ⟨place, unfinished, next, visited⟩
      · exact ⟨[], .ended (by rw [ended]), Nat.zero_le _⟩
      · have step : (run.standing place).left < count := by
          have onward := ahead_of_nextPlace unfinished next
          have here : (run.standing place).left = place.ahead := by
            simp [left, standing, unfinished]
          omega
        rcases ih _ step (run.standing place) rfl with ⟨later, finds, few⟩
        refine ⟨run.foundAt place :: later, .visit visited finds, ?_⟩
        rw [List.length_cons]
        omega

/-- A run that has not begun comes to its end within its bound, whatever ranges it has. -/
theorem exists_finds_new (query : Query) (root node : Node) (bytes : Nat × Nat)
    (points : Point × Point) :
    let run : QueryRun := { QueryRun.new query root node with bytes, points }
    ∃ visits, run.Finds visits ∧ visits.length ≤ run.budget := by
  intro run
  rcases run.exists_finds with ⟨visits, finds, few⟩
  refine ⟨visits, finds, ?_⟩
  have count := Tree.count_eq node.tree
  have left : run.left = Tree.countAll node.tree.children + 0 + 1 := rfl
  have budget : run.budget = node.tree.count + 1 := rfl
  omega

section Aside

variable (queue : List RawMatch) (pending : List PendingCapture) (count : Nat)

/-- The run with other matches and captures waiting. -/
def aside (run : QueryRun) : QueryRun :=
  { run with queue := queue, pending := pending, found := count }

/-- What waits to be delivered has no influence on a visit. -/
theorem visitMatches_aside (run : QueryRun) :
    (run.aside queue pending count).visitMatches =
      (run.visitMatches.1, run.visitMatches.2.aside queue pending count) := by
  cases finished : run.isFinished with
  | true =>
      have same : (run.aside queue pending count).isFinished = true := finished
      rw [visitMatches_of_finished finished, visitMatches_of_finished same]
  | false =>
      have same : (run.aside queue pending count).isFinished = false := finished
      cases next : run.nextPlace with
      | none =>
          have last : (run.aside queue pending count).nextPlace = none := next
          rw [visitMatches_of_none finished next, visitMatches_of_none same last]
          rfl
      | some place =>
          have there : (run.aside queue pending count).nextPlace = some place := next
          have alike : (run.aside queue pending count).foundAt place = run.foundAt place := by
            have matches_ := @matchesAt_congr (run.aside queue pending count) run rfl rfl rfl
              ⟨place.node, place.field⟩
            rw [foundAt, foundAt, matches_]
            rfl
          rw [visitMatches_of_some finished next, visitMatches_of_some same there, alike]
          rfl

theorem Finds.aside {visits : List (List RawMatch)} (finds : run.Finds visits) :
    Finds (run.aside queue pending count) visits := by
  induction finds with
  | ended ended =>
      apply Finds.ended
      rw [visitMatches_aside]
      exact ended
  | visit visited _ ih =>
      refine .visit ?_ ih
      rw [visitMatches_aside, visited]

end Aside

/-! ## Matches -/

/-- Calling `nextMatch` until there is none gives these matches. -/
inductive Delivers : QueryRun → List RawMatch → Prop where
  | ended {run : QueryRun} (ended : run.nextMatch.1 = none) : Delivers run []
  | found {run next : QueryRun} {first : RawMatch} {later : List RawMatch}
      (delivered : run.nextMatch = (some first, next)) (rest : Delivers next later) :
      Delivers run (first :: later)

theorem budget_visitMatches (run : QueryRun) : run.visitMatches.2.budget = run.budget := by
  rcases run.visitMatches_cases with ended | ⟨place, _, _, visited⟩
  · rw [ended]
  · rw [visited]
    rfl

/-- The next match is the first of those that wait and those that the visits find. -/
theorem searchMatch_of_finds {visits : List (List RawMatch)} {fuel : Nat}
    (finds : run.Finds visits) (enough : visits.length < fuel) :
    (run.queue ++ visits.flatten = [] ∧ (run.searchMatch fuel).1 = none) ∨
      ∃ first next later, run.searchMatch fuel = (some first, next) ∧ next.Finds later ∧
        run.queue ++ visits.flatten = first :: (next.queue ++ later.flatten) ∧
        later.length ≤ visits.length ∧ next.budget = run.budget := by
  induction fuel generalizing run visits with
  | zero => omega
  | succ fuel ih =>
      rw [searchMatch]
      cases waiting : run.queue with
      | cons first queue =>
          exact Or.inr ⟨first, _, visits, rfl, finds.aside queue run.pending run.found, rfl,
            Nat.le_refl _, rfl⟩
      | nil =>
          cases finds with
          | ended ended =>
              left
              rw [← Prod.eta run.visitMatches, ended]
              exact ⟨rfl, rfl⟩
          | @visit _ next found later visited rest =>
              have budget := run.budget_visitMatches
              rw [visited] at budget
              rw [visited]
              have step := ih (rest.aside found next.pending next.found) (by simpa using enough)
              rcases step with ⟨empty, none⟩ | ⟨first, last, more, found, finds, split, few, same⟩
              · exact Or.inl ⟨empty, none⟩
              · exact Or.inr ⟨first, last, more, found, finds, split, Nat.le_succ_of_le few,
                  same.trans budget⟩

/-- A run delivers the matches that wait and then those that its visits find. -/
theorem delivers_of_finds {visits : List (List RawMatch)} {ahead : List RawMatch}
    (finds : run.Finds visits) (enough : visits.length ≤ run.budget)
    (split : run.queue ++ visits.flatten = ahead) : run.Delivers ahead := by
  induction ahead generalizing run visits with
  | nil =>
      rcases searchMatch_of_finds finds (Nat.lt_succ_of_le enough) with ⟨_, none⟩ | some
      · exact .ended none
      · rcases some with ⟨first, next, later, _, _, more, _⟩
        rw [more] at split
        cases split
  | cons match_ rest ih =>
      rcases searchMatch_of_finds finds (Nat.lt_succ_of_le enough) with ⟨empty, _⟩ | some
      · rw [empty] at split
        cases split
      · rcases some with ⟨first, next, later, found, finds, more, few, same⟩
        rw [more, List.cons.injEq] at split
        rcases split with ⟨rfl, split⟩
        exact .found found (ih finds (by omega) split)

end QueryRun

end Reparse
