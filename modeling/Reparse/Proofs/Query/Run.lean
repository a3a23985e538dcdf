import Mathlib.Tactic.Tauto
import Reparse.Proofs.Node.Walk
import Reparse.Query.Run

/-!
# What a run returns and captures

A run finds matches at the nodes that it visits, and keeps them and their captures until they are
asked for. What a visit preserves of the walk and says of the matches found (`QueryRun.Invariant`)
therefore holds of a run and of all that waits in it (`QueryRun.Upholds`), whatever calls are made on
it and in whatever order (`Upholds.of_becomes`), and of every match that a call returns
(`Upholds.of_returns`).

A run also keeps the root of the tree it was started on and the nodes on its way. If the nodes of the
trees it walks in are of some kind, then so are all nodes that it keeps (`QueryRun.Keeps`) and all
that it captures.
-/

namespace Reparse

namespace QueryRun

/-- Visits preserve the first of two properties, which depends on the query and the place of the run
only, and find matches with the second. -/
structure Invariant (walks : QueryRun → Prop) (good : RawMatch → Prop) : Prop where
  visit : ∀ {run : QueryRun}, walks run → walks run.visitMatches.2 ∧
    ∀ matched, run.visitMatches.1 = some matched → ∀ found ∈ matched, good found
  congr : ∀ {run later : QueryRun}, walks run → later.query = run.query →
    later.root = run.root → later.startDepth = run.startDepth → later.cursor = run.cursor →
      walks later

/-- The run has the first property, and the matches that wait in it have the second. -/
structure Upholds (walks : QueryRun → Prop) (good : RawMatch → Prop) (run : QueryRun) : Prop where
  walks : walks run
  queue : ∀ found ∈ run.queue, good found
  pending : ∀ capture ∈ run.pending, good capture.found

variable {walks : QueryRun → Prop} {good : RawMatch → Prop} {run first : QueryRun}

theorem visitMatches_waiting (run : QueryRun) :
    run.visitMatches.2.queue = run.queue ∧ run.visitMatches.2.pending = run.pending := by
  unfold QueryRun.visitMatches QueryRun.visitNext
  split
  · next last ended =>
    split at ended
    · cases ended
      exact ⟨rfl, rfl⟩
    · split at ended <;> cases ended
      exact ⟨rfl, rfl⟩
  · next visited next moved =>
    split at moved
    · cases moved
    · split at moved <;> cases moved
      exact ⟨rfl, rfl⟩

theorem Upholds.visitMatches (invariant : Invariant walks good) (upholds : run.Upholds walks good) :
    run.visitMatches.2.Upholds walks good ∧
      ∀ matched, run.visitMatches.1 = some matched → ∀ found ∈ matched, good found := by
  rcases invariant.visit upholds.walks with ⟨after, here⟩
  rcases run.visitMatches_waiting with ⟨queue, pending⟩
  refine ⟨⟨after, ?_, ?_⟩, here⟩
  · rw [queue]
    exact upholds.queue
  · rw [pending]
    exact upholds.pending

theorem Upholds.enqueue (invariant : Invariant walks good) (upholds : run.Upholds walks good)
    {queue : List RawMatch} (known : ∀ found ∈ queue, good found) :
    Upholds walks good { run with queue } :=
  ⟨invariant.congr upholds.walks rfl rfl rfl rfl, known, upholds.pending⟩

theorem Upholds.suspend (invariant : Invariant walks good) (upholds : run.Upholds walks good)
    {pending : List PendingCapture} {count : Nat}
    (known : ∀ capture ∈ pending, good capture.found) :
    Upholds walks good { run with pending, found := count } :=
  ⟨invariant.congr upholds.walks rfl rfl rfl rfl, upholds.queue, known⟩

/-! ## Matches -/

theorem Upholds.searchMatch (invariant : Invariant walks good) (fuel : Nat)
    (upholds : run.Upholds walks good) :
    (run.searchMatch fuel).2.Upholds walks good ∧
      ∀ found, (run.searchMatch fuel).1 = some found → good found := by
  induction fuel generalizing run with
  | zero => exact ⟨upholds, nofun⟩
  | succ fuel ih =>
      rw [QueryRun.searchMatch]
      split
      · next found queue waiting =>
        have queued := upholds.queue
        rw [waiting] at queued
        rcases List.forall_mem_cons.mp queued with ⟨first, others⟩
        refine ⟨upholds.enqueue invariant others, ?_⟩
        intro other same
        rw [Option.some.injEq] at same
        exact same ▸ first
      · rcases upholds.visitMatches invariant with ⟨after, here⟩
        split
        · next last ended =>
          rw [ended] at after
          exact ⟨after, nofun⟩
        · next found next visited =>
          rw [visited] at after here
          exact ih (after.enqueue invariant (here found rfl))

theorem Upholds.nextMatch (invariant : Invariant walks good) (upholds : run.Upholds walks good) :
    run.nextMatch.2.Upholds walks good ∧
      ∀ found, run.nextMatch.1 = some found → good found :=
  upholds.searchMatch invariant _

theorem Upholds.remainingMatches (invariant : Invariant walks good) (fuel : Nat)
    (upholds : run.Upholds walks good) :
    (run.remainingMatches fuel).2.Upholds walks good ∧
      ∀ found ∈ (run.remainingMatches fuel).1, good found := by
  induction fuel generalizing run with
  | zero => exact ⟨upholds, List.forall_mem_nil _⟩
  | succ fuel ih =>
      rw [QueryRun.remainingMatches]
      rcases upholds.visitMatches invariant with ⟨after, here⟩
      split
      · next last ended =>
        rw [ended] at after
        exact ⟨after.enqueue invariant (List.forall_mem_nil _), upholds.queue⟩
      · next found next visited =>
        rw [visited] at after here
        rcases ih (after.enqueue invariant (here found rfl)) with ⟨last, more⟩
        exact ⟨last, List.forall_mem_append.mpr ⟨upholds.queue, more⟩⟩

theorem Upholds.allMatches (invariant : Invariant walks good) (upholds : run.Upholds walks good) :
    run.allMatches.2.Upholds walks good ∧ ∀ found ∈ run.allMatches.1, good found :=
  upholds.remainingMatches invariant _

/-! ## Captures -/

theorem mem_of_takeFirst (best : PendingCapture) (others rest : List PendingCapture) :
    ∀ capture, capture = (takeFirst best others rest).1 ∨
      capture ∈ (takeFirst best others rest).2 →
        capture = best ∨ capture ∈ others ∨ capture ∈ rest := by
  induction rest generalizing best others with
  | nil =>
      intro capture
      simp only [takeFirst, List.mem_reverse]
      tauto
  | cons first rest ih =>
      intro capture member
      rw [takeFirst] at member
      split at member
      · rcases ih first (best :: others) capture member with rfl | inner | inner
        · simp
        · simp only [List.mem_cons] at inner ⊢
          tauto
        · simp [inner]
      · rcases ih best (first :: others) capture member with rfl | inner | inner
        · simp
        · simp only [List.mem_cons] at inner ⊢
          tauto
        · simp [inner]

/-- The capture whose turn it is was taken from those that wait, with the others left to wait. -/
theorem exists_of_readyCapture {capture : PendingCapture} {after : QueryRun}
    (ready : run.readyCapture = some (capture, after)) :
    ∃ waiting rest others, run.pending = waiting :: rest ∧
      takeFirst waiting [] rest = (capture, others) ∧
      (run.isFinished = true ∨ capture.start < run.frontier) ∧
      after = { run with pending := others } := by
  unfold QueryRun.readyCapture at ready
  split at ready
  · cases ready
  · next waiting rest pending =>
    dsimp only at ready
    split at ready
    · next turn =>
      simp only [Option.some.injEq, Prod.mk.injEq] at ready
      rcases ready with ⟨rfl, rfl⟩
      refine ⟨waiting, rest, _, pending, rfl, ?_, rfl⟩
      simpa only [Bool.or_eq_true, decide_eq_true_eq] using turn
    · cases ready

theorem Upholds.readyCapture (invariant : Invariant walks good) (upholds : run.Upholds walks good)
    {capture : PendingCapture} {after : QueryRun}
    (ready : run.readyCapture = some (capture, after)) :
    after.Upholds walks good ∧ good capture.found := by
  rcases exists_of_readyCapture ready with ⟨waiting, rest, others, pending, taken, -, rfl⟩
  have among := mem_of_takeFirst waiting [] rest
  rw [taken] at among
  have known (other : PendingCapture) (kept : other = capture ∨ other ∈ others) :
      good other.found := by
    apply upholds.pending
    rw [pending]
    simpa using among other kept
  exact ⟨upholds.suspend invariant fun other member => known other (Or.inr member),
    known capture (Or.inl rfl)⟩

theorem found_of_pendingOf {found : RawMatch} {order index : Nat} {captures : Captures} :
    ∀ capture ∈ pendingOf found order index captures, capture.found = found := by
  induction captures generalizing order index with
  | nil => simp [pendingOf]
  | cons first rest ih =>
      rcases first with ⟨number, node⟩
      rw [pendingOf]
      exact List.forall_mem_cons.mpr ⟨rfl, ih⟩

theorem Upholds.await (invariant : Invariant walks good) {matched : List RawMatch}
    (upholds : run.Upholds walks good) (here : ∀ found ∈ matched, good found) :
    (run.await matched).Upholds walks good := by
  induction matched generalizing run with
  | nil => exact upholds
  | cons found rest ih =>
      rcases List.forall_mem_cons.mp here with ⟨first, others⟩
      rw [QueryRun.await]
      refine ih (upholds.suspend invariant ?_) others
      refine List.forall_mem_append.mpr ⟨upholds.pending, ?_⟩
      intro capture member
      rw [found_of_pendingOf capture member]
      exact first

theorem Upholds.searchCapture (invariant : Invariant walks good) (fuel : Nat)
    (upholds : run.Upholds walks good) :
    (run.searchCapture fuel).2.Upholds walks good ∧
      ∀ capture, (run.searchCapture fuel).1 = some capture → good capture.found := by
  induction fuel generalizing run with
  | zero => exact ⟨upholds, nofun⟩
  | succ fuel ih =>
      rw [QueryRun.searchCapture]
      split
      · next capture after ready =>
        rcases upholds.readyCapture invariant ready with ⟨rest, here⟩
        refine ⟨rest, ?_⟩
        intro other same
        rw [Option.some.injEq] at same
        exact same ▸ here
      · split
        · exact ⟨upholds, nofun⟩
        · rcases upholds.visitMatches invariant with ⟨after, here⟩
          split
          · next last ended =>
            rw [ended] at after
            exact ih after
          · next found next visited =>
            rw [visited] at after here
            exact ih (after.await invariant (here found rfl))

theorem Upholds.nextCapture (invariant : Invariant walks good)
    (upholds : run.Upholds walks good) :
    run.nextCapture.2.Upholds walks good ∧
      ∀ found, run.nextCapture.1 = some found → good found.1 := by
  unfold QueryRun.nextCapture
  rcases upholds.searchCapture invariant (run.budget + 2) with ⟨after, here⟩
  split
  · next last ended =>
    rw [ended] at after
    exact ⟨after, nofun⟩
  · next capture last ended =>
    rw [ended] at after here
    refine ⟨after, ?_⟩
    intro found same
    rw [Option.some.injEq] at same
    exact same ▸ here capture rfl

theorem Upholds.readyCaptures (invariant : Invariant walks good) (fuel : Nat)
    (upholds : run.Upholds walks good) :
    (run.readyCaptures fuel).2.Upholds walks good ∧
      ∀ found ∈ (run.readyCaptures fuel).1, good found.1 := by
  induction fuel generalizing run with
  | zero => exact ⟨upholds, List.forall_mem_nil _⟩
  | succ fuel ih =>
      rw [QueryRun.readyCaptures]
      split
      · exact ⟨upholds, List.forall_mem_nil _⟩
      · next capture after ready =>
        rcases upholds.readyCapture invariant ready with ⟨rest, here⟩
        rcases ih rest with ⟨last, more⟩
        exact ⟨last, List.forall_mem_cons.mpr ⟨here, more⟩⟩

theorem Upholds.remainingCaptures (invariant : Invariant walks good) (fuel : Nat)
    (upholds : run.Upholds walks good) :
    (run.remainingCaptures fuel).2.Upholds walks good ∧
      ∀ found ∈ (run.remainingCaptures fuel).1, good found.1 := by
  induction fuel generalizing run with
  | zero => exact ⟨upholds, List.forall_mem_nil _⟩
  | succ fuel ih =>
      rw [QueryRun.remainingCaptures]
      rcases upholds.readyCaptures invariant run.pending.length with ⟨settled, ready⟩
      dsimp only
      split
      · exact ⟨settled, ready⟩
      · rcases settled.visitMatches invariant with ⟨after, here⟩
        split
        · next last ended =>
          rw [ended] at after
          rcases ih after with ⟨last, more⟩
          exact ⟨last, List.forall_mem_append.mpr ⟨ready, more⟩⟩
        · next found next visited =>
          rw [visited] at after here
          rcases ih (after.await invariant (here found rfl)) with ⟨last, more⟩
          exact ⟨last, List.forall_mem_append.mpr ⟨ready, more⟩⟩

theorem Upholds.allCaptures (invariant : Invariant walks good)
    (upholds : run.Upholds walks good) :
    run.allCaptures.2.Upholds walks good ∧ ∀ found ∈ run.allCaptures.1, good found.1 :=
  upholds.remainingCaptures invariant _

/-! ## Calls in any order -/

/-- What a run becomes by calls: for the next match or capture, for all that are left, and for other
ranges. -/
inductive Becomes (first : QueryRun) : QueryRun → Prop where
  | self : Becomes first first
  | ranges {run : QueryRun} (before : Becomes first run) (bytes : Nat × Nat)
      (points : Point × Point) : Becomes first { run with bytes, points }
  | nextMatch {run : QueryRun} (before : Becomes first run) : Becomes first run.nextMatch.2
  | nextCapture {run : QueryRun} (before : Becomes first run) : Becomes first run.nextCapture.2
  | allMatches {run : QueryRun} (before : Becomes first run) : Becomes first run.allMatches.2
  | allCaptures {run : QueryRun} (before : Becomes first run) : Becomes first run.allCaptures.2

/-- A call on the run returns the match, alone or with the index of a capture. -/
inductive Returns (run : QueryRun) : RawMatch → Prop where
  | nextMatch {found : RawMatch} (returned : run.nextMatch.1 = some found) : Returns run found
  | nextCapture {found : RawMatch × Nat} (returned : run.nextCapture.1 = some found) :
      Returns run found.1
  | allMatches {found : RawMatch} (returned : found ∈ run.allMatches.1) : Returns run found
  | allCaptures {found : RawMatch × Nat} (returned : found ∈ run.allCaptures.1) :
      Returns run found.1

theorem Upholds.of_becomes (invariant : Invariant walks good) (upholds : first.Upholds walks good)
    (becomes : first.Becomes run) : run.Upholds walks good := by
  induction becomes with
  | self => exact upholds
  | ranges _ bytes points ih =>
      exact ⟨invariant.congr ih.walks rfl rfl rfl rfl, ih.queue, ih.pending⟩
  | nextMatch _ ih => exact (ih.nextMatch invariant).1
  | nextCapture _ ih => exact (ih.nextCapture invariant).1
  | allMatches _ ih => exact (ih.allMatches invariant).1
  | allCaptures _ ih => exact (ih.allCaptures invariant).1

theorem Upholds.of_returns (invariant : Invariant walks good) (upholds : run.Upholds walks good)
    {found : RawMatch} (returns : run.Returns found) : good found := by
  cases returns with
  | nextMatch returned => exact (upholds.nextMatch invariant).2 found returned
  | nextCapture returned => exact (upholds.nextCapture invariant).2 _ returned
  | allMatches returned => exact (upholds.allMatches invariant).2 found returned
  | allCaptures returned => exact (upholds.allCaptures invariant).2 _ returned

end QueryRun

/-! ## Kinds of nodes -/

/-- The kind has the visible children of all nodes it has. -/
def ClosedBelow (kind : Node → Prop) : Prop :=
  ∀ node, kind node → ∀ child ∈ node.children, kind child.node

/-- All nodes of a tree in which the cursor lies are of the kind. -/
def Cursor.Keeps (kind : Node → Prop) (cursor : Cursor) : Prop :=
  ∃ tree, cursor.LiesIn tree ∧ ∀ node, node.LiesIn tree → kind node

theorem Cursor.Keeps.standing {kind : Node → Prop} {cursor : Cursor} (keeps : cursor.Keeps kind) :
    kind cursor.node := by
  rcases keeps with ⟨tree, lies, known⟩
  exact known cursor.node lies.standing

theorem Cursor.Keeps.imp {kind : Node → Prop} {cursor reached : Cursor}
    (keeps : cursor.Keeps kind) (moves : ∀ tree, cursor.LiesIn tree → reached.LiesIn tree) :
    reached.Keeps kind := by
  rcases keeps with ⟨tree, lies, known⟩
  exact ⟨tree, moves tree lies, known⟩

variable {kind : Node → Prop}

/-! ## Solutions -/

def Captures.Keep (kind : Node → Prop) (captures : Captures) : Prop :=
  ∀ capture ∈ captures, kind capture.2

theorem Captures.Keep.append {left right : Captures} (first : left.Keep kind)
    (second : right.Keep kind) : Captures.Keep kind (left ++ right) :=
  List.forall_mem_append.mpr ⟨first, second⟩

theorem keep_map {candidate : Node} (known : kind candidate) (captures : List Nat) :
    Captures.Keep kind (captures.map fun capture => (capture, candidate)) := by
  intro capture member
  rcases List.mem_map.mp member with ⟨number, _, rfl⟩
  exact known

/-- Heads and tails of the kind are put together to captures of the kind. -/
theorem keep_combined {heads tails : List Captures} (first : ∀ head ∈ heads, head.Keep kind)
    (second : ∀ tail ∈ tails, Captures.Keep kind tail) :
    ∀ solution ∈ heads.flatMap fun head => tails.map fun tail => head ++ tail,
      Captures.Keep kind solution := by
  intro solution member
  rcases List.mem_flatMap.mp member with ⟨head, inHeads, inner⟩
  rcases List.mem_map.mp inner with ⟨tail, inTails, rfl⟩
  exact (first head inHeads).append (second tail inTails)

theorem mem_of_withRest {α : Type} {items later : List α} {item : α}
    (member : (item, later) ∈ withRest items) : item ∈ items ∧ later ⊆ items := by
  induction items with
  | nil => simp [withRest] at member
  | cons head rest ih =>
      simp only [withRest, List.mem_cons, Prod.mk.injEq] at member
      rcases member with ⟨rfl, rfl⟩ | below
      · exact ⟨List.mem_cons_self, List.subset_cons_self _ _⟩
      · rcases ih below with ⟨first, second⟩
        exact ⟨List.mem_cons_of_mem _ first, List.subset_cons_of_subset _ second⟩

namespace Pattern

mutual

theorem keep_solutions {shown : Nat} {candidate : Node} (closed : ClosedBelow kind)
    (known : kind candidate) :
    (pattern : Pattern) → ∀ solution ∈ solutions shown candidate pattern,
      Captures.Keep kind solution
  | node matcher children absent field captures => by
    rw [solutions]
    split
    · simp
    · split
      · simp
      · split
        · simp
        · intro solution member
          rcases List.mem_map.mp member with ⟨inner, found, rfl⟩
          refine (keep_map known captures).append ?_
          split at found
          · obtain rfl := List.mem_singleton.mp found
            exact List.forall_mem_nil _
          · exact keep_solutionsAmong closed (closed candidate known) children inner found
  | oneOf alternatives field captures => by
    rw [solutions]
    split
    · simp
    · intro solution member
      rcases List.mem_map.mp member with ⟨inner, found, rfl⟩
      exact (keep_map known captures).append
        (keep_solutionsOfAny closed known alternatives inner found)

theorem keep_solutionsOfAny {shown : Nat} {candidate : Node} (closed : ClosedBelow kind)
    (known : kind candidate) :
    (patterns : List Pattern) → ∀ solution ∈ solutionsOfAny shown candidate patterns,
      Captures.Keep kind solution
  | [] => by simp [solutionsOfAny]
  | pattern :: rest => by
    rw [solutionsOfAny]
    intro solution member
    rcases List.mem_append.mp member with first | later
    · exact keep_solutions closed known pattern solution first
    · exact keep_solutionsOfAny closed known rest solution later

theorem keep_solutionsAmong {siblings : List Child} (closed : ClosedBelow kind)
    (known : ∀ sibling ∈ siblings, kind sibling.node) :
    (patterns : List Pattern) → ∀ solution ∈ solutionsAmong siblings patterns,
      Captures.Keep kind solution
  | [] => by simp [solutionsAmong, Captures.Keep]
  | pattern :: rest => by
    rw [solutionsAmong]
    intro solution member
    rcases List.mem_flatMap.mp member with ⟨⟨sibling, later⟩, chosen, inner⟩
    rcases mem_of_withRest chosen with ⟨here, behind⟩
    have heads : ∀ head ∈ solutions sibling.field sibling.node pattern,
        Captures.Keep kind head := keep_solutions closed (known sibling here) pattern
    have tails := keep_solutionsAmong closed (fun other among => known other (behind among)) rest
    dsimp only at inner
    split at inner
    · simp at inner
    · exact keep_combined heads tails solution inner

end

end Pattern

/-! ## Runs -/

def RawMatch.Keeps (kind : Node → Prop) (found : RawMatch) : Prop := found.captures.Keep kind

/-- All nodes of the trees in which the run walks are of the kind. -/
structure QueryRun.Follows (kind : Node → Prop) (run : QueryRun) : Prop where
  root : ∃ tree, run.root = Node.root tree ∧ ∀ node, node.LiesIn tree → kind node
  cursor : run.cursor.Keeps kind

/-- All nodes of the trees in which the run walks are of the kind, and so are those in the matches
that wait. -/
structure QueryRun.Keeps (kind : Node → Prop) (run : QueryRun) : Prop where
  root : ∃ tree, run.root = Node.root tree ∧ ∀ node, node.LiesIn tree → kind node
  cursor : run.cursor.Keeps kind
  queue : ∀ found ∈ run.queue, found.Keeps kind
  pending : ∀ capture ∈ run.pending, capture.found.Keeps kind

namespace QueryRun

variable {run : QueryRun} {cursor next : Cursor} {visited : Child}

theorem liesIn_following {tree : Tree} {height : Nat} (lies : cursor.LiesIn tree)
    (found : following cursor height = some next) : next.LiesIn tree := by
  induction height generalizing cursor with
  | zero => simp [following] at found
  | succ height ih =>
      rw [following] at found
      have beside := lies.nextSibling
      split at found
      · rename_i next moved
        rw [Option.some.injEq] at found
        rw [moved] at beside
        exact found ▸ beside
      · rename_i stayed moved
        rw [moved] at beside
        have above := beside.toParent
        split at found
        · rename_i parent climbed
          rw [climbed] at above
          exact ih above found
        · cases found

theorem liesIn_nextPlace {tree : Tree} (lies : run.cursor.LiesIn tree)
    (found : run.nextPlace = some next) : next.LiesIn tree := by
  unfold nextPlace at found
  have below := lies.firstChild
  split at found
  · rw [Option.some.injEq] at found
    exact found ▸ lies
  · split at found
    · rename_i child _ entered
      rw [Option.some.injEq] at found
      rw [entered] at below
      exact found ▸ below
    · rename_i stayed _ entered
      rw [entered] at below
      exact liesIn_following below found
    · exact liesIn_following lies found

theorem Follows.visitNext (follows : run.Follows kind) :
    run.visitNext.2.Follows kind ∧
      ∀ visited, run.visitNext.1 = some visited → kind visited.node := by
  unfold QueryRun.visitNext
  split
  · exact ⟨follows, nofun⟩
  · split
    · exact ⟨⟨follows.root, follows.cursor⟩, nofun⟩
    · rename_i cursor place
      have there := follows.cursor.imp fun _ lies => liesIn_nextPlace lies place
      refine ⟨⟨follows.root, there⟩, ?_⟩
      intro visited same
      rw [Option.some.injEq] at same
      exact same ▸ there.standing

theorem Follows.siblingsAfter (follows : run.Follows kind) (node : Node) :
    ∀ sibling ∈ run.siblingsAfter node, kind sibling.node := by
  unfold QueryRun.siblingsAfter
  split
  · simp
  · split
    · simp
    · rename_i before after beside
      rcases follows.root with ⟨tree, same, known⟩
      rw [same] at beside
      exact fun sibling member =>
        known sibling.node ((Node.liesIn_of_siblings beside).2 sibling member)

section Beside

variable (closed : ClosedBelow kind) (here : kind visited.node)
  (beside : ∀ sibling ∈ run.siblingsAfter visited.node, kind sibling.node)

include closed here beside

theorem keep_solutionsAt (sequence : List Pattern) :
    ∀ solution ∈ run.solutionsAt visited sequence, Captures.Keep kind solution := by
  unfold QueryRun.solutionsAt
  split
  · simp
  · rename_i first rest
    split
    · simp
    · apply keep_combined
      · exact Pattern.keep_solutions closed here first
      · split
        · simp [Captures.Keep]
        · exact Pattern.keep_solutionsAmong closed beside rest

theorem keeps_matchesFrom (index : Nat) (patterns : List QueryPattern) :
    ∀ found ∈ run.matchesFrom visited index patterns, found.Keeps kind := by
  induction patterns generalizing index with
  | nil => simp [QueryRun.matchesFrom]
  | cons pattern rest ih =>
      rw [QueryRun.matchesFrom]
      intro found member
      rcases List.mem_append.mp member with first | later
      · rcases List.mem_map.mp first with ⟨captures, solution, rfl⟩
        exact keep_solutionsAt closed here beside pattern.sequence captures solution
      · exact ih (index + 1) found later

end Beside

/-- A run whose nodes are of the kind finds matches of the kind. -/
theorem invariant_follows (closed : ClosedBelow kind) :
    Invariant (Follows kind) (RawMatch.Keeps kind) where
  visit {run} follows := by
    unfold QueryRun.visitMatches
    rcases follows.visitNext with ⟨after, here⟩
    split
    · rename_i last ended
      rw [ended] at after
      exact ⟨after, nofun⟩
    · rename_i visited next moved
      rw [moved] at after here
      refine ⟨after, ?_⟩
      intro matched same
      rw [Option.some.injEq] at same
      subst same
      split
      · exact keeps_matchesFrom closed (here visited rfl) (after.siblingsAfter visited.node) 0 _
      · simp
  congr follows _ root _ cursor := ⟨root ▸ follows.root, cursor ▸ follows.cursor⟩

theorem keeps_iff_upholds :
    run.Keeps kind ↔ run.Upholds (Follows kind) (RawMatch.Keeps kind) :=
  ⟨fun ⟨root, cursor, queue, pending⟩ => ⟨⟨root, cursor⟩, queue, pending⟩,
    fun ⟨⟨root, cursor⟩, queue, pending⟩ => ⟨root, cursor, queue, pending⟩⟩

theorem Keeps.nextMatch (closed : ClosedBelow kind) (keeps : run.Keeps kind) :
    run.nextMatch.2.Keeps kind ∧
      ∀ found, run.nextMatch.1 = some found → found.Keeps kind := by
  simp only [keeps_iff_upholds] at keeps ⊢
  exact keeps.nextMatch (invariant_follows closed)

theorem Keeps.nextCapture (closed : ClosedBelow kind) (keeps : run.Keeps kind) :
    run.nextCapture.2.Keeps kind ∧
      ∀ found, run.nextCapture.1 = some found → found.1.Keeps kind := by
  simp only [keeps_iff_upholds] at keeps ⊢
  exact keeps.nextCapture (invariant_follows closed)

theorem Keeps.allMatches (closed : ClosedBelow kind) (keeps : run.Keeps kind) :
    run.allMatches.2.Keeps kind ∧ ∀ found ∈ run.allMatches.1, found.Keeps kind := by
  simp only [keeps_iff_upholds] at keeps ⊢
  exact keeps.allMatches (invariant_follows closed)

theorem Keeps.allCaptures (closed : ClosedBelow kind) (keeps : run.Keeps kind) :
    run.allCaptures.2.Keeps kind ∧ ∀ found ∈ run.allCaptures.1, found.1.Keeps kind := by
  simp only [keeps_iff_upholds] at keeps ⊢
  exact keeps.allCaptures (invariant_follows closed)

end QueryRun

end Reparse
