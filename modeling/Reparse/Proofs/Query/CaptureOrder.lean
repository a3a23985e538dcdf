import Mathlib.Data.List.Sigma
import Reparse.Grammar.Arithmetic
import Reparse.Proofs.Node.Order
import Reparse.Proofs.Query.Visits

/-!
# Captures in document order

Captures wait until the run stands at a node that starts after them. Nothing that is found later
starts before that node, so what is released is the first of all captures that are left. Captures
that start alike are released in the order in which they were found: calling `nextCapture` until
there is none gives a stable sort of the captures of all matches.
-/

namespace Reparse

/-! ## The matches of a visit -/

namespace QueryRun

variable {run next : QueryRun} {tree : Tree} {place : Cursor} {node : Node} {bound : Nat}

/-- The node lies in the tree and does not start before some byte. -/
def StartsFrom (tree : Tree) (bound : Nat) (node : Node) : Prop :=
  node.LiesIn tree ∧ bound ≤ node.start.bytes

theorem closedBelow_startsFrom (laid : tree.Laid) (bound : Nat) :
    ClosedBelow (StartsFrom tree bound) := by
  intro node starts child member
  have within := ((starts.1.stands laid).children.within child member).1
  exact ⟨starts.1.children child member, Nat.le_trans starts.2 within⟩

/-- The run walks in a laid out tree, and has come no further than its cursor. -/
structure Walks (tree : Tree) (run : QueryRun) : Prop where
  laid : tree.Laid
  root : run.root = Node.root tree
  cursor : run.cursor.LiesIn tree
  frontier : run.frontier ≤ run.cursor.node.start.bytes

theorem le_start_of_following (laid : tree.Laid) {cursor : Cursor} {height : Nat}
    (lies : cursor.LiesIn tree) (followed : following cursor height = some place) :
    cursor.node.stop.bytes ≤ place.node.start.bytes := by
  induction height generalizing cursor with
  | zero => simp [following] at followed
  | succ height ih =>
      rw [following] at followed
      split at followed
      · rename_i reached moved
        rw [Option.some.injEq] at followed
        exact followed ▸ Cursor.le_start_of_nextSibling laid lies moved
      · rename_i stayed moved
        have same := Cursor.nextSibling_of_false moved
        subst same
        split at followed
        · rename_i parent climbed
          have above := lies.toParent
          rw [climbed] at above
          exact Nat.le_trans (Cursor.le_stop_of_parent laid lies climbed) (ih above followed)
        · cases followed

theorem Walks.le_start_of_nextPlace (walks : run.Walks tree) (next : run.nextPlace = some place) :
    run.cursor.node.start.bytes ≤ place.node.start.bytes := by
  have down := run.cursor.le_start_firstChild
  have lies := walks.cursor.firstChild
  unfold nextPlace at next
  split at next
  · rw [Option.some.injEq] at next
    exact next ▸ Nat.le_refl _
  · split at next
    · rename_i child _ entered
      rw [Option.some.injEq] at next
      rw [entered] at down
      exact next ▸ down
    · rename_i inner _ entered
      rw [entered] at down lies
      have onward := le_start_of_following walks.laid lies next
      rw [Node.bytes_stop] at onward
      change inner.node.start.bytes + _ ≤ _ at onward
      dsimp only at down
      omega
    · have onward := le_start_of_following walks.laid walks.cursor next
      rw [Node.bytes_stop] at onward
      omega

theorem Walks.standing (walks : run.Walks tree) (next : run.nextPlace = some place) :
    (run.standing place).Walks tree where
  laid := walks.laid
  root := walks.root
  cursor := liesIn_nextPlace walks.cursor next
  frontier := Nat.le_refl _

/-- What is found at a node does not start before it. -/
theorem Walks.keeps_foundAt (walks : run.Walks tree) (next : run.nextPlace = some place) :
    ∀ found ∈ run.foundAt place, found.Keeps (StartsFrom tree place.node.start.bytes) := by
  have there := (walks.standing next).cursor.standing
  unfold foundAt
  split
  · apply keeps_matchesFrom (closedBelow_startsFrom walks.laid _) ⟨there, Nat.le_refl _⟩
    intro sibling member
    unfold siblingsAfter at member
    split at member
    · cases member
    · split at member
      · cases member
      · rename_i before after beside
        rw [walks.root] at beside
        have behind := Node.le_start_of_siblings walks.laid there beside sibling member
        rw [Node.bytes_stop] at behind
        exact ⟨(Node.liesIn_of_siblings beside).2 sibling member,
          Nat.le_trans (Nat.le_add_right _ _) behind⟩
  · simp

/-- Nothing that is found later starts before the frontier. -/
theorem Walks.keeps_of_finds {visits : List (List RawMatch)} (walks : run.Walks tree)
    (finds : run.Finds visits) :
    ∀ found ∈ visits.flatten, found.Keeps (StartsFrom tree run.frontier) := by
  induction finds with
  | ended => simp
  | @visit run last found later visited rest ih =>
      rcases run.visitMatches_cases with ended | ⟨place, _, next, moved⟩
      · rw [ended] at visited
        cases visited
      · rw [moved, Prod.mk.injEq, Option.some.injEq] at visited
        rcases visited with ⟨rfl, rfl⟩
        have onward := Nat.le_trans walks.frontier (walks.le_start_of_nextPlace next)
        have weaken : ∀ found : RawMatch, found.Keeps (StartsFrom tree place.node.start.bytes) →
            found.Keeps (StartsFrom tree run.frontier) := fun found keeps capture member =>
          ⟨(keeps capture member).1, Nat.le_trans onward (keeps capture member).2⟩
        rw [List.flatten_cons]
        refine List.forall_mem_append.mpr ⟨?_, ?_⟩
        · exact fun found member => weaken found (walks.keeps_foundAt next found member)
        · exact fun found member => weaken found (ih (walks.standing next) found member)

/-! ## Captures that wait -/

section Precedes

variable {first left middle right : PendingCapture}

theorem precedes_trans (one : PendingCapture.precedes left middle = true)
    (two : PendingCapture.precedes middle right = true) :
    PendingCapture.precedes left right = true := by
  simp only [PendingCapture.precedes, Bool.or_eq_true, Bool.and_eq_true, decide_eq_true_eq,
    beq_iff_eq] at *
  omega

theorem precedes_of_not (different : left.order ≠ right.order)
    (later : ¬PendingCapture.precedes left right = true) :
    PendingCapture.precedes right left = true := by
  simp only [PendingCapture.precedes, Bool.or_eq_true, Bool.and_eq_true, decide_eq_true_eq,
    beq_iff_eq] at *
  omega

theorem precedes_of_lt (before : left.start < right.start) :
    PendingCapture.precedes left right = true := by
  simp [PendingCapture.precedes, before]

/-- The capture that is taken first precedes the others. -/
theorem takeFirst_spec (best : PendingCapture) (others rest : List PendingCapture)
    (distinct : ((best :: (others ++ rest)).map (·.order)).Nodup)
    (before : ∀ other ∈ others, PendingCapture.precedes best other = true) :
    ((takeFirst best others rest).1 :: (takeFirst best others rest).2).Perm
        (best :: (others ++ rest)) ∧
      ∀ other ∈ (takeFirst best others rest).2,
        PendingCapture.precedes (takeFirst best others rest).1 other = true := by
  induction rest generalizing best others with
  | nil =>
      simp only [takeFirst, List.append_nil, List.mem_reverse]
      exact ⟨(List.reverse_perm others).cons best, before⟩
  | cons capture rest ih =>
      have swap : (best :: (others ++ capture :: rest)).Perm
          (capture :: (best :: others ++ rest)) := by
        rw [← List.cons_append]
        exact List.perm_middle
      have keep : (best :: (others ++ capture :: rest)).Perm
          (best :: (capture :: others ++ rest)) := List.perm_middle.cons best
      rw [takeFirst]
      split
      · rename_i earlier
        have all : ∀ other ∈ best :: others, PendingCapture.precedes capture other = true :=
          List.forall_mem_cons.mpr ⟨earlier, fun other member =>
            precedes_trans earlier (before other member)⟩
        rcases ih capture (best :: others) ((swap.map _).nodup distinct) all with ⟨perm, least⟩
        exact ⟨perm.trans swap.symm, least⟩
      · rename_i later
        have different : capture.order ≠ best.order := by
          have apart := (List.nodup_cons.mp distinct).1
          intro same
          exact apart (List.mem_map.mpr ⟨capture, by simp, same⟩)
        have all : ∀ other ∈ capture :: others, PendingCapture.precedes best other = true :=
          List.forall_mem_cons.mpr ⟨precedes_of_not different later, before⟩
        rcases ih best (capture :: others) ((keep.map _).nodup distinct) all with ⟨perm, least⟩
        exact ⟨perm.trans keep.symm, least⟩

end Precedes

/-- The captures of some matches as they come to wait, numbered from `count` on. -/
def waiting (count : Nat) : List RawMatch → List PendingCapture
  | [] => []
  | found :: rest =>
    pendingOf found count 0 found.captures ++ waiting (count + found.captures.length) rest

/-- The number of captures of some matches. -/
def captureCount : List RawMatch → Nat
  | [] => 0
  | found :: rest => found.captures.length + captureCount rest

theorem waiting_append (count : Nat) (left right : List RawMatch) :
    waiting count (left ++ right) =
      waiting count left ++ waiting (count + captureCount left) right := by
  induction left generalizing count with
  | nil => simp [waiting, captureCount]
  | cons found rest ih =>
      simp only [List.cons_append, waiting, ih, captureCount, List.append_assoc, Nat.add_assoc]

theorem await_eq (run : QueryRun) (found : List RawMatch) :
    run.await found =
      run.aside run.queue (run.pending ++ waiting run.found found)
        (run.found + captureCount found) := by
  induction found generalizing run with
  | nil => simp [await, aside, waiting, captureCount]
  | cons first rest ih =>
      rw [await, ih]
      simp [aside, waiting, captureCount, Nat.add_assoc]

theorem order_pendingOf (found : RawMatch) (order index : Nat) (captures : Captures) :
    (pendingOf found order index captures).map (·.order) = List.range' order captures.length := by
  induction captures generalizing order index with
  | nil => rfl
  | cons capture rest ih =>
      simp only [pendingOf, List.map_cons, ih, List.length_cons, List.range'_succ]

theorem order_waiting (count : Nat) (found : List RawMatch) :
    (waiting count found).map (·.order) = List.range' count (captureCount found) := by
  induction found generalizing count with
  | nil => rfl
  | cons first rest ih =>
      simp only [waiting, List.map_append, order_pendingOf, ih, captureCount]
      exact List.range'_append_1

theorem le_start_of_pendingOf {found : RawMatch} {order index : Nat} {captures : Captures}
    (starts : Captures.Keep (StartsFrom tree bound) captures) :
    ∀ capture ∈ pendingOf found order index captures, bound ≤ capture.start := by
  induction captures generalizing order index with
  | nil => simp [pendingOf]
  | cons first rest ih =>
      rw [pendingOf]
      rcases List.forall_mem_cons.mp starts with ⟨here, later⟩
      exact List.forall_mem_cons.mpr ⟨here.2, ih later⟩

theorem le_start_of_waiting {count : Nat} {found : List RawMatch}
    (starts : ∀ match_ ∈ found, match_.Keeps (StartsFrom tree bound)) :
    ∀ capture ∈ waiting count found, bound ≤ capture.start := by
  induction found generalizing count with
  | nil => simp [waiting]
  | cons first rest ih =>
      rw [waiting]
      rcases List.forall_mem_cons.mp starts with ⟨here, later⟩
      exact List.forall_mem_append.mpr ⟨le_start_of_pendingOf here, ih later⟩

/-! ## Captures one after the other -/

/-- Calling `nextCapture` until there is none gives these captures: matches, and indices of captures
in them. -/
inductive Releases : QueryRun → List (RawMatch × Nat) → Prop where
  | ended {run : QueryRun} (ended : run.nextCapture.1 = none) : Releases run []
  | capture {run next : QueryRun} {first : RawMatch × Nat} {later : List (RawMatch × Nat)}
      (released : run.nextCapture = (some first, next)) (rest : Releases next later) :
      Releases run (first :: later)

/-- The captures that the run is still to release: those that wait, and those that its visits
find. -/
structure Owes (tree : Tree) (run : QueryRun) (visits : List (List RawMatch))
    (owed : List PendingCapture) : Prop where
  walks : run.Walks tree
  finds : run.Finds visits
  split : run.pending ++ waiting run.found visits.flatten = owed
  distinct : (owed.map (·.order)).Nodup

variable {visits later : List (List RawMatch)} {owed : List PendingCapture}
  {found : List RawMatch}

theorem Owes.le_start (owes : run.Owes tree visits owed) :
    ∀ capture ∈ waiting run.found visits.flatten, run.frontier ≤ capture.start :=
  le_start_of_waiting (owes.walks.keeps_of_finds owes.finds)

theorem Finds.eq_nil_of_none (finds : run.Finds visits) (none : run.visitMatches.1 = none) :
    visits = [] := by
  cases finds with
  | ended => rfl
  | visit visited =>
      rw [visited] at none
      cases none

theorem Owes.ready (owes : run.Owes tree visits owed) {first : PendingCapture}
    (ready : run.readyCapture = some (first, next)) :
    ∃ others, next.Owes tree visits others ∧ owed.Perm (first :: others) ∧
      ∀ other ∈ others, PendingCapture.precedes first other = true := by
  have distinct := owes.distinct
  have split := owes.split
  rcases exists_of_readyCapture ready with ⟨capture, rest, left, pending, taken, turn, rfl⟩
  rw [pending] at split
  rw [← split, List.cons_append, List.map_cons, List.map_append] at distinct
  have apart : ((capture :: ([] ++ rest)).map (·.order)).Nodup := by
    rw [List.nil_append, List.map_cons]
    exact distinct.sublist ((List.sublist_append_left _ _).cons_cons _)
  rcases takeFirst_spec capture [] rest apart (by simp) with ⟨perm, least⟩
  rw [taken] at perm least
  have all : owed.Perm (first :: (left ++ waiting run.found visits.flatten)) := by
    rw [← split, ← List.cons_append]
    exact perm.symm.append_right _
  refine ⟨_, ⟨⟨owes.walks.laid, owes.walks.root, owes.walks.cursor, owes.walks.frontier⟩,
    owes.finds.aside run.queue _ run.found, rfl, ((all.map _).nodup owes.distinct).of_cons⟩, all,
    List.forall_mem_append.mpr ⟨least, fun other member => ?_⟩⟩
  rcases turn with finished | before
  · have none := owes.finds.eq_nil_of_none (by rw [visitMatches_of_finished finished])
    rw [none] at member
    cases member
  · exact precedes_of_lt (Nat.lt_of_lt_of_le before (owes.le_start other member))

theorem pending_of_not_ready (finished : run.isFinished = true) (none : run.readyCapture = none) :
    run.pending = [] := by
  unfold readyCapture at none
  split at none
  · assumption
  · simp [finished] at none

theorem Owes.ended (owes : run.Owes tree visits owed) (ended : run.visitMatches.1 = none) :
    ({ run with isFinished := true } : QueryRun).Owes tree [] owed := by
  have none := owes.finds.eq_nil_of_none ended
  subst none
  refine ⟨⟨owes.walks.laid, owes.walks.root, owes.walks.cursor, owes.walks.frontier⟩, ?_,
    owes.split, owes.distinct⟩
  apply Finds.ended
  rw [visitMatches_of_finished rfl]

theorem Owes.visit (owes : run.Owes tree (found :: later) owed) (next : run.nextPlace = some place)
    (rest : (run.standing place).Finds later) :
    ((run.standing place).await found).Owes tree later owed := by
  have walks := owes.walks.standing next
  rw [await_eq]
  refine ⟨⟨walks.laid, walks.root, walks.cursor, walks.frontier⟩, rest.aside _ _ _, ?_,
    owes.distinct⟩
  rw [← owes.split, List.flatten_cons, waiting_append, ← List.append_assoc]
  rfl

/-- The next capture that is released precedes all others that are left. -/
theorem Owes.searchCapture (owes : run.Owes tree visits owed) (fuel : Nat)
    (enough : visits.length + (if run.isFinished then 0 else 1) < fuel) :
    (owed = [] ∧ (run.searchCapture fuel).1 = none) ∨
      ∃ first next later others, run.searchCapture fuel = (some first, next) ∧
        next.Owes tree later others ∧ owed.Perm (first :: others) ∧
        (∀ other ∈ others, PendingCapture.precedes first other = true) ∧
        later.length ≤ visits.length ∧ next.budget = run.budget := by
  induction fuel generalizing run visits owed with
  | zero => omega
  | succ fuel ih =>
      rw [QueryRun.searchCapture]
      split
      · rename_i first next ready
        rcases owes.ready ready with ⟨others, rest, perm, least⟩
        rcases exists_of_readyCapture ready with ⟨_, _, _, _, _, _, same⟩
        have budget : next.budget = run.budget := by rw [same]
        exact Or.inr ⟨first, next, visits, others, rfl, rest, perm, least, Nat.le_refl _, budget⟩
      · rename_i none
        split
        · rename_i finished
          have ended := owes.finds.eq_nil_of_none (by rw [visitMatches_of_finished finished])
          have empty := pending_of_not_ready finished none
          have split := owes.split
          rw [ended, empty] at split
          exact Or.inl ⟨split.symm, rfl⟩
        · rename_i unfinished
          rw [if_neg unfinished] at enough
          rcases run.visitMatches_cases with ended | ⟨place, _, next, visited⟩
          · rw [ended]
            have closing := owes.ended (by rw [ended])
            have step := ih closing (by simp only [if_true, List.length_nil]; omega)
            rcases step with stopped | ⟨first, last, visits, others, some⟩
            · exact Or.inl stopped
            · rcases some with ⟨found, rest, perm, least, few, budget⟩
              exact Or.inr ⟨first, last, visits, others, found, rest, perm, least,
                Nat.le_trans few (Nat.zero_le _), budget⟩
          · rw [visited]
            rcases owes with ⟨walks, finds, split, distinct⟩
            cases finds with
            | ended ended =>
                rw [visited] at ended
                cases ended
            | @visit _ _ found later again rest =>
                rw [visited, Prod.mk.injEq, Option.some.injEq] at again
                rcases again with ⟨rfl, rfl⟩
                have standing := Owes.visit ⟨walks, .visit visited rest, split, distinct⟩ next rest
                rw [List.length_cons] at enough ⊢
                have step := ih standing (by split <;> omega)
                have budget : ((run.standing place).await (run.foundAt place)).budget =
                    run.budget := by
                  rw [await_eq]
                  rfl
                rcases step with stopped | ⟨first, last, visits, others, some⟩
                · exact Or.inl stopped
                · rcases some with ⟨found, rest, perm, least, few, same⟩
                  exact Or.inr ⟨first, last, visits, others, found, rest, perm, least,
                    Nat.le_succ_of_le few, same.trans budget⟩

/-- What a run releases is what it owes, in order. -/
theorem Owes.releases (owes : run.Owes tree visits owed) (enough : visits.length ≤ run.budget) :
    ∃ released : List PendingCapture, run.Releases (released.map fun capture => (capture.found, capture.index)) ∧
      released.Perm owed ∧
      released.Pairwise fun left right => PendingCapture.precedes left right = true := by
  induction count : owed.length generalizing run visits owed with
  | zero =>
      rcases owes.searchCapture (run.budget + 2) (by split <;> omega) with
        ⟨empty, none⟩ | ⟨first, next, later, others, _, _, perm, _⟩
      · refine ⟨[], .ended ?_, empty ▸ .nil, .nil⟩
        rw [nextCapture, ← Prod.eta (run.searchCapture _), none]
      · have length := perm.length_eq
        rw [count] at length
        cases length
  | succ count ih =>
      rcases owes.searchCapture (run.budget + 2) (by split <;> omega) with
        ⟨empty, _⟩ | ⟨first, next, later, others, found, rest, perm, least, few, same⟩
      · rw [empty] at count
        cases count
      · have length := perm.length_eq
        rw [List.length_cons] at length
        rcases ih rest (by omega) (by omega) with ⟨released, releases, all, order⟩
        refine ⟨first :: released, .capture ?_ releases, (all.cons first).trans perm.symm, ?_⟩
        · rw [nextCapture, found]
        · refine List.pairwise_cons.mpr ⟨?_, order⟩
          exact fun other member => least other (all.subset member)

end QueryRun

/-! ## The order of all captures -/

/-- The captures of a match, each as the match and its index there. -/
def RawMatch.indices (found : RawMatch) : List (RawMatch × Nat) :=
  (List.range found.captures.length).map fun index => (found, index)

/-- The byte at which a captured node starts. -/
def startOfCapture (capture : RawMatch × Nat) : Nat :=
  match capture.1.captures[capture.2]? with
  | some (_, node) => node.start.bytes
  | none => 0

/-- All captures of some matches by where their nodes start; those that start alike stay in
order. -/
def inDocumentOrder (found : List RawMatch) : List (RawMatch × Nat) :=
  (found.flatMap RawMatch.indices).mergeSort fun left right =>
    decide (startOfCapture left ≤ startOfCapture right)

namespace QueryRun

variable {run : QueryRun} {tree : Tree} {node : Node}

theorem startOfCapture_pendingOf {found : RawMatch} {captures : Captures} (before : Captures)
    {order index : Nat} (split : found.captures = before ++ captures) (length : before.length = index) :
    ∀ capture ∈ pendingOf found order index captures,
      startOfCapture (capture.found, capture.index) = capture.start := by
  induction captures generalizing before order index with
  | nil => simp [pendingOf]
  | cons first rest ih =>
      rcases first with ⟨number, node⟩
      rw [pendingOf]
      refine List.forall_mem_cons.mpr ⟨?_, ?_⟩
      · simp [startOfCapture, split, ← length]
      · exact ih (before ++ [(number, node)]) (by simp [split]) (by simp [length])

theorem startOfCapture_waiting {count : Nat} {found : List RawMatch} :
    ∀ capture ∈ waiting count found,
      startOfCapture (capture.found, capture.index) = capture.start := by
  induction found generalizing count with
  | nil => simp [waiting]
  | cons first rest ih =>
      rw [waiting]
      exact List.forall_mem_append.mpr
        ⟨startOfCapture_pendingOf [] rfl rfl, ih⟩

theorem indices_pendingOf (found : RawMatch) (order index : Nat) (captures : Captures) :
    (pendingOf found order index captures).map
        (fun capture => ((capture.found, capture.index), capture.order)) =
      ((List.range' index captures.length).map fun index => (found, index)).zipIdx order := by
  induction captures generalizing order index with
  | nil => rfl
  | cons first rest ih =>
      simp only [pendingOf, List.map_cons, ih, List.length_cons, List.range'_succ,
        List.zipIdx_cons]

/-- What waits is the captures of the matches, numbered one after the other. -/
theorem indices_waiting (count : Nat) (found : List RawMatch) :
    (waiting count found).map (fun capture => ((capture.found, capture.index), capture.order)) =
      (found.flatMap RawMatch.indices).zipIdx count := by
  induction found generalizing count with
  | nil => rfl
  | cons first rest ih =>
      simp only [waiting, List.map_append, indices_pendingOf, ih, List.flatMap_cons,
        List.zipIdx_append, RawMatch.indices, List.range_eq_range', List.length_map,
        List.length_range']

open List (zipIdxLE zipIdxLE_trans zipIdxLE_total)

/-- Whether a capture does not start after another one. -/
def startsBy (left right : RawMatch × Nat) : Bool :=
  decide (startOfCapture left ≤ startOfCapture right)

/-- A capture with the number it was given. -/
def numbered (capture : PendingCapture) : (RawMatch × Nat) × Nat :=
  ((capture.found, capture.index), capture.order)

theorem zipIdxLE_of_precedes {left right : PendingCapture}
    (first : startOfCapture (left.found, left.index) = left.start)
    (second : startOfCapture (right.found, right.index) = right.start)
    (before : PendingCapture.precedes left right = true) :
    zipIdxLE startsBy (numbered left) (numbered right) = true := by
  simp only [PendingCapture.precedes, Bool.or_eq_true, Bool.and_eq_true, decide_eq_true_eq,
    beq_iff_eq] at before
  simp only [zipIdxLE, startsBy, numbered, first, second, decide_eq_true_eq]
  grind

theorem snd_eq_of_zipIdxLE {left right : (RawMatch × Nat) × Nat}
    (one : zipIdxLE startsBy left right = true) (two : zipIdxLE startsBy right left = true) :
    left.2 = right.2 := by
  simp only [zipIdxLE, startsBy, decide_eq_true_eq] at one two
  grind

/-- Captures in the order of release, without their numbers, are the captures in stable order. -/
theorem sorted_of_perm {released : List PendingCapture} {found : List RawMatch}
    (perm : released.Perm (waiting 0 found))
    (order : released.Pairwise fun left right => PendingCapture.precedes left right = true) :
    released.map (fun capture => (capture.found, capture.index)) = inDocumentOrder found := by
  have trans : ∀ left middle right, startsBy left middle = true → startsBy middle right = true →
      startsBy left right = true := by
    intro left middle right one two
    simp only [startsBy, decide_eq_true_eq] at *
    omega
  have total : ∀ left right, (startsBy left right || startsBy right left) = true := by
    intro left right
    simp only [startsBy, Bool.or_eq_true, decide_eq_true_eq]
    omega
  have all : (released.map numbered).Perm ((found.flatMap RawMatch.indices).zipIdx) := by
    rw [← indices_waiting]
    exact perm.map numbered
  have sorted : (released.map numbered).Pairwise fun left right =>
      zipIdxLE startsBy left right = true := by
    rw [List.pairwise_map]
    refine order.imp_of_mem ?_
    intro left right here there before
    exact zipIdxLE_of_precedes (startOfCapture_waiting left (perm.subset here))
      (startOfCapture_waiting right (perm.subset there)) before
  have same : released.map numbered =
      ((found.flatMap RawMatch.indices).zipIdx).mergeSort (zipIdxLE startsBy) := by
    refine List.Perm.eq_of_pairwise ?_ sorted
      (List.pairwise_mergeSort (zipIdxLE_trans trans) (zipIdxLE_total total) _)
      (all.trans (List.mergeSort_perm _ _).symm)
    intro left right here there one two
    exact List.inj_on_of_nodup_map (List.nodup_zipIdx_map_snd _) (all.subset here) (List.mem_mergeSort.mp there)
      (snd_eq_of_zipIdxLE one two)
  calc released.map (fun capture => (capture.found, capture.index))
      = (released.map numbered).map (·.1) := by rw [List.map_map]; rfl
    _ = (found.flatMap RawMatch.indices).mergeSort startsBy := by
        rw [same, List.mergeSort_zipIdx]
    _ = inDocumentOrder found := rfl

/-- Calling only `nextCapture` gives all captures of all matches that `nextMatch` gives, in document
order, whatever ranges were set before. -/
theorem releases_inDocumentOrder (query : Query) (laid : tree.Laid) (lies : node.LiesIn tree)
    (bytes : Nat × Nat) (points : Point × Point) :
    let run : QueryRun := { QueryRun.new query (Node.root tree) node with bytes, points }
    ∃ found, run.Delivers found ∧ run.Releases (inDocumentOrder found) := by
  intro run
  rcases exists_finds_new query (Node.root tree) node bytes points with ⟨visits, finds, enough⟩
  have walks : run.Walks tree :=
    ⟨laid, rfl, Cursor.liesIn_new lies, Nat.zero_le _⟩
  have distinct : ((waiting 0 visits.flatten).map (·.order)).Nodup := by
    rw [order_waiting]
    exact List.nodup_range'
  have owes : run.Owes tree visits (waiting 0 visits.flatten) := ⟨walks, finds, rfl, distinct⟩
  rcases owes.releases enough with ⟨released, releases, perm, order⟩
  refine ⟨visits.flatten, delivers_of_finds finds enough rfl, ?_⟩
  rw [← sorted_of_perm perm order]
  exact releases

/-- Two words side by side. -/
def twoWords : Tree :=
  let word : Tree := .leaf Arithmetic.variableName Extent.zero ⟨1, ⟨0, 1⟩⟩ 1 .regular false
  .branch Arithmetic.sum noState .regular [⟨0, word⟩, ⟨0, word⟩]

/-- The second word of a sum, and then every word of it. -/
def wordsOfSum : Query where
  language := Language.arithmetic 0
  patterns :=
    let word (captures : List Nat) : Pattern :=
      .node (.symbol Arithmetic.variableName) [] [] 0 captures
    let sumOf (words : List Pattern) : Pattern := .node (.symbol Arithmetic.sum) words [] 0 []
    #[⟨0, [sumOf [word [], word [0]]], [], []⟩, ⟨0, [sumOf [word [1]]], [], []⟩]
  captureNames := ["second", "any"]
  strings := []

/-- The first word is captured by the second match and released first. -/
theorem releases_inDocumentOrder_words :
    twoWords.Laid ∧ (Node.root twoWords).LiesIn twoWords ∧
      let run : QueryRun :=
        { QueryRun.new wordsOfSum (Node.root twoWords) (Node.root twoWords) with
          bytes := (0, 2), points := QueryRun.allPoints }
      ∃ found, run.Delivers found ∧ run.Releases (inDocumentOrder found) := by
  have laid : twoWords.Laid := by
    simp [twoWords, Tree.Laid, Tree.branch, Tree.leaf, Tree.Everywhere, Tree.EverywhereAmong,
      Tree.IsLaid, Info.plain, Tree.paddingOf, Tree.sizeOf, Tree.total, Info.total, Extent.zero]
  exact ⟨laid, Node.liesIn_root twoWords,
    releases_inDocumentOrder wordsOfSum laid (Node.liesIn_root twoWords) (0, 2)
      QueryRun.allPoints⟩

end QueryRun

end Reparse
