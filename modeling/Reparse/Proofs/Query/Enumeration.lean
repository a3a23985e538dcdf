import Reparse.Proofs.Query.CaptureOrder
import Reparse.Proofs.Query.Derivation
import Reparse.Proofs.Query.Siblings
import Reparse.Parser
import Reparse.Query.Compile

/-!
# What a run enumerates

A run of a query finds, at the node it was started on and the visible nodes below it in preorder,
and for the patterns in order, all ways in which a pattern matches there. Nodes outside of the
ranges are left out with all that is below them. The largest ranges leave out the nodes that start
at the largest offset or at the largest point, since a range ends before its end.
-/

namespace Reparse

open Reparse.Node (preorder preorderAmong)
open Reparse.Cursor (remaining later climb CountedAll)

/-- The matches of a query that begin at a node. -/
def Query.matchesOf (query : Query) (visit : Visit) : List RawMatch :=
  query.patterns.toList.zipIdx.flatMap fun (pattern, index) =>
    (solutionsOf pattern.sequence visit.1 visit.2).map fun captures => ⟨index, captures⟩

/-- The matches are, for the visits in order and at each for the patterns in order, the captures of
all derivations of the pattern, each derivation once and in lexicographic order. -/
def Query.Lists (query : Query) (visits : List Visit) (found : List RawMatch) : Prop :=
  ∃ solutions : List Pattern → Child → List Child → List Captures,
    (∀ sequence shown later,
      Enumerates (DerivesSequence sequence shown later) (solutions sequence shown later)) ∧
    found = visits.flatMap fun (shown, later) =>
      query.patterns.toList.zipIdx.flatMap fun (pattern, index) =>
        (solutions pattern.sequence shown later).map fun captures => ⟨index, captures⟩

theorem Query.lists_iff {query : Query} {visits : List Visit} {found : List RawMatch} :
    query.Lists visits found ↔ found = visits.flatMap query.matchesOf := by
  constructor
  · rintro ⟨solutions, enumerates, rfl⟩
    have same : solutions = solutionsOf := by
      funext sequence shown later
      exact (enumerates sequence shown later).unique (enumerates_solutionsOf sequence shown later)
    rw [same]
    rfl
  · rintro rfl
    exact ⟨solutionsOf, enumerates_solutionsOf, rfl⟩

/-- The subtree of a node in a tree with right counts has right counts. -/
theorem Node.LiesIn.counted {tree : Tree} {node : Node} (lies : node.LiesIn tree)
    (counted : tree.Counted) : node.tree.Counted :=
  lies.tree_in (fun _ => Tree.Counted.children) counted

namespace QueryRun

variable {tree : Tree} {start : Node} {run : QueryRun} {place : Cursor}

/-! ## The matches at a node -/

theorem solutionsAt_eq {visited : Child} {later : List Child}
    (beside : run.siblingsAfter visited.node = later) (sequence : List Pattern) :
    run.solutionsAt visited sequence = solutionsOf sequence visited later := by
  cases sequence with
  | nil => rfl
  | cons first rest =>
      rw [solutionsAt, solutionsOf, beside, Pattern.solutionsAmong_of_isEmpty]
      exact Pattern.combine_eq _ _

theorem matchesFrom_eq {visited : Child} {later : List Child}
    (beside : run.siblingsAfter visited.node = later) (index : Nat)
    (patterns : List QueryPattern) :
    run.matchesFrom visited index patterns =
      (patterns.zipIdx index).flatMap fun (pattern, index) =>
        (solutionsOf pattern.sequence visited later).map fun captures => ⟨index, captures⟩ := by
  induction patterns generalizing index with
  | nil => rfl
  | cons pattern rest ih =>
      rw [matchesFrom, solutionsAt_eq beside, ih, List.zipIdx_cons, List.flatMap_cons]

theorem matchesAt_eq {visited : Child} {later : List Child}
    (beside : run.siblingsAfter visited.node = later) :
    run.matchesAt visited = run.query.matchesOf (visited, later) :=
  matchesFrom_eq beside 0 _

/-! ## The walk of a run -/

/-- The run walks below a node of a tree with right counts, from one visible node to the next. -/
structure Roams (tree : Tree) (start : Node) (run : QueryRun) : Prop where
  counted : tree.Counted
  root : run.root = Node.root tree
  depth : run.startDepth = start.trail.length
  shown : start.isVisible = true
  cursor : run.cursor.LiesIn tree
  base : (run.cursor.node :: run.cursor.around).getLast? = some start
  visible : run.cursor.around ≠ [] → run.cursor.node.info.visible = true
  fresh : run.isStarted = false → run.cursor = Cursor.new start
  inRange : run.isStarted = true → run.inRange = run.covers run.cursor.node

/-- The visits that a run has before it. -/
def upcoming (run : QueryRun) : List Visit :=
  if run.isFinished then []
  else if run.isStarted then
    (if run.inRange then preorderAmong run.covers run.cursor.node.children else []) ++
      remaining run.covers run.cursor.node run.cursor.around
  else preorder run.covers run.cursor.here []

theorem countedAll_of_chained {node : Node} {around : List Node} (counted : tree.Counted)
    (chained : Cursor.Chained tree node around) : CountedAll around := by
  induction around generalizing node with
  | nil => exact List.forall_mem_nil _
  | cons parent rest ih =>
      exact List.forall_mem_cons.mpr ⟨chained.2.liesIn.counted counted, ih chained.2⟩

theorem length_of_chained {node : Node} {around : List Node}
    (chained : Cursor.Chained tree node around)
    (base : (node :: around).getLast? = some start) :
    node.trail.length = around.length + start.trail.length := by
  induction around generalizing node with
  | nil =>
      rw [List.getLast?_singleton, Option.some.injEq] at base
      rw [base, List.length_nil, Nat.zero_add]
  | cons parent rest ih =>
      rw [List.getLast?_cons_cons] at base
      have above := ih chained.2 base
      rw [Node.trail_of_placedAt chained.1, List.length_cons, List.length_cons, above]
      omega

theorem climb_ne_none {around : List Node} (some : around ≠ []) : climb around ≠ none := by
  induction around with
  | nil => exact absurd rfl some
  | cons node rest ih =>
      cases rest with
      | nil => simp [climb]
      | cons parent rest =>
          rw [climb]
          · split
            · simp
            · exact ih (by simp)
          · simp

/-- The run finds beside a node what its cursor still comes to there. -/
theorem Roams.siblingsAfter_eq (roams : run.Roams tree start) :
    run.siblingsAfter run.cursor.node = later run.cursor.node run.cursor.around := by
  have deep := length_of_chained roams.cursor roams.base
  rw [siblingsAfter, roams.depth, roams.root]
  by_cases top : run.cursor.around = []
  · rw [top, List.length_nil, Nat.zero_add] at deep
    rw [if_pos (Nat.le_of_eq deep), top]
    rfl
  · have positive := List.length_pos_iff.mpr top
    rw [if_neg (by omega)]
    rcases Option.ne_none_iff_exists'.mp (climb_ne_none top) with ⟨reached, climbed⟩
    rcases Cursor.siblings?_eq roams.cursor (countedAll_of_chained roams.counted roams.cursor)
      roams.base roams.shown (roams.visible top) climbed with ⟨before, beside⟩
    rw [beside]

theorem isParent_of_visible_unless {node : Node} {around : List Node}
    (visible : around ≠ [] → node.info.visible = true) :
    Cursor.isParent node around = true := by
  cases around with
  | nil => rfl
  | cons parent rest => exact Cursor.isParent_of_visible (visible (by simp))

theorem remaining_of_leads {list : List Child} {cursor : Cursor} {around : List Node}
    (keeps : Node → Bool) (leads : place.Leads list (cursor.node :: around))
    (passes : Cursor.isParent cursor.node around = true) :
    preorderAmong keeps list ++ remaining keeps cursor.node around =
      preorder keeps place.here (later place.node place.around) ++
        remaining keeps place.node place.around := by
  have split := leads.remaining_eq keeps
  rwa [Cursor.climb_of_parent passes] at split

/-- Where the run goes next is the first of the visits before it. -/
theorem Roams.nextPlace_spec (roams : run.Roams tree start) (unfinished : run.isFinished = false) :
    (run.nextPlace = none ∧ run.upcoming = []) ∨
      ∃ place, run.nextPlace = some place ∧
        run.upcoming = preorder run.covers place.here (later place.node place.around) ++
          remaining run.covers place.node place.around ∧
        (place.node :: place.around).getLast? = some start ∧
        (place.around ≠ [] → place.node.info.visible = true) := by
  have passes := isParent_of_visible_unless roams.visible
  have among := countedAll_of_chained roams.counted roams.cursor
  have running : ¬run.isFinished = true := by simp [unfinished]
  rw [upcoming, if_neg running, nextPlace]
  cases started : run.isStarted with
  | false =>
      refine Or.inr ⟨run.cursor, rfl, ?_, roams.base, roams.visible⟩
      rw [roams.fresh started, Cursor.remaining_of_none _ rfl, if_neg Bool.false_ne_true]
      exact (List.append_nil _).symm
  | true =>
      simp only [Bool.not_true, Bool.false_eq_true, if_false, if_true]
      have onward : (following run.cursor (run.cursor.around.length + 1) = none ∧
          remaining run.covers run.cursor.node run.cursor.around = []) ∨
            ∃ place, following run.cursor (run.cursor.around.length + 1) = some place ∧
              remaining run.covers run.cursor.node run.cursor.around =
                preorder run.covers place.here (later place.node place.around) ++
                  remaining run.covers place.node place.around ∧
              (place.node :: place.around).getLast? = some start ∧
              (place.around ≠ [] → place.node.info.visible = true) := by
        rcases following_spec run.covers among (Nat.lt_succ_self _) with
          stays | ⟨place, followed, split, visible, base⟩
        · exact Or.inl stays
        · exact Or.inr ⟨place, followed, split, base.trans roams.base, fun _ => visible⟩
      cases run.inRange with
      | false =>
          simp only [Bool.false_eq_true, if_false, List.nil_append]
          exact onward
      | true =>
          simp only [if_true]
          have counted := Cursor.Chained.liesIn roams.cursor |>.counted roams.counted
          have down := Cursor.firstChild_spec run.cursor counted
          rw [Cursor.shown_of_isParent passes, Cursor.beyond, if_pos passes,
            List.append_nil] at down
          rcases down with ⟨childless, stayed⟩ | ⟨place, entered, leads⟩
          · rw [stayed, childless, Node.preorderAmong_nil, List.nil_append]
            exact onward
          · rw [entered]
            refine Or.inr ⟨place, rfl, remaining_of_leads run.covers leads passes, ?_,
              fun _ => leads.visible⟩
            exact (leads.getLast?_eq place.node (by simp)).trans roams.base

theorem Roams.standing (roams : run.Roams tree start) (next : run.nextPlace = some place)
    (base : (place.node :: place.around).getLast? = some start)
    (visible : place.around ≠ [] → place.node.info.visible = true) :
    (run.standing place).Roams tree start where
  counted := roams.counted
  root := roams.root
  depth := roams.depth
  shown := roams.shown
  cursor := liesIn_nextPlace roams.cursor next
  base := base
  visible := visible
  fresh := nofun
  inRange _ := rfl

theorem Roams.foundAt_eq (roams : (run.standing place).Roams tree start) :
    run.foundAt place = if run.covers place.node then
      run.query.matchesOf (place.here, later place.node place.around) else [] := by
  have beside : run.siblingsAfter place.node = later place.node place.around :=
    roams.siblingsAfter_eq
  rw [foundAt, matchesAt_eq beside]
  rfl

theorem upcoming_standing (unfinished : run.isFinished = false) :
    (run.standing place).upcoming =
      (if run.covers place.node then preorderAmong run.covers place.node.children else []) ++
        remaining run.covers place.node place.around := by
  have running : ¬(run.standing place).isFinished = true := by simp [QueryRun.standing, unfinished]
  rw [upcoming, if_neg running]
  rfl

/-- The visits of a run find the matches at the nodes before it. -/
theorem Roams.flatten_of_finds {visits : List (List RawMatch)} (roams : run.Roams tree start)
    (finds : run.Finds visits) : visits.flatten = run.upcoming.flatMap run.query.matchesOf := by
  induction finds with
  | @ended run none =>
      cases finished : run.isFinished with
      | true => rw [upcoming, if_pos finished]; rfl
      | false =>
          rcases roams.nextPlace_spec finished with ⟨_, empty⟩ | ⟨place, next, _⟩
          · rw [empty]
            rfl
          · rw [visitMatches_of_some finished next] at none
            cases none
  | @visit run last found later_ visited rest ih =>
      cases finished : run.isFinished with
      | true =>
          rw [visitMatches_of_finished finished] at visited
          cases visited
      | false =>
          rcases roams.nextPlace_spec finished with ⟨none, _⟩ | ⟨place, next, split, base, visible⟩
          · rw [visitMatches_of_none finished none] at visited
            cases visited
          · rw [visitMatches_of_some finished next, Prod.mk.injEq, Option.some.injEq] at visited
            rcases visited with ⟨rfl, rfl⟩
            have there := roams.standing next base visible
            have step : run.upcoming.flatMap run.query.matchesOf =
                run.foundAt place ++ (run.standing place).upcoming.flatMap run.query.matchesOf := by
              rw [split, there.foundAt_eq, upcoming_standing finished, Node.preorder_eq]
              have node : place.here.node = place.node := rfl
              rw [node]
              split
              · rw [List.cons_append, List.flatMap_cons]
              · rfl
            rw [List.flatten_cons, ih there, step]
            rfl

theorem roams_new (query : Query) (counted : tree.Counted) (lies : start.LiesIn tree)
    (shown : start.isVisible = true) (bytes : Nat × Nat) (points : Point × Point) :
    ({ QueryRun.new query (Node.root tree) start with bytes, points } : QueryRun).Roams tree
      start where
  counted := counted
  root := rfl
  depth := rfl
  shown := shown
  cursor := Cursor.liesIn_new lies
  base := rfl
  visible inner := absurd rfl inner
  fresh _ := rfl
  inRange := nofun

/-- A run delivers the matches at the node it was started on and the visible nodes below it, in
preorder, but for those outside of the ranges and all that is below them. -/
theorem delivers_matchesOf (query : Query) (counted : tree.Counted) (lies : start.LiesIn tree)
    (shown : start.isVisible = true) (bytes : Nat × Nat) (points : Point × Point) :
    let run : QueryRun := { QueryRun.new query (Node.root tree) start with bytes, points }
    run.Delivers ((preorder run.covers ⟨start, 0⟩ []).flatMap query.matchesOf) := by
  intro run
  rcases exists_finds_new query (Node.root tree) start bytes points with ⟨visits, finds, enough⟩
  have roams : run.Roams tree start := roams_new query counted lies shown bytes points
  exact delivers_of_finds finds enough (roams.flatten_of_finds finds)

/-- Whether a node starts before the largest offset and before the largest point. -/
def startsInside (node : Node) : Bool :=
  decide (node.start.bytes < maxOffset) && node.start.point.before ⟨maxOffset, maxOffset⟩

theorem meetsRange_allBytes (first width limit : Nat) :
    meetsRange (fun left right => decide (left < right)) first (first + width) (0, limit) =
      decide (first < limit) := by
  simp only [meetsRange]
  split
  · simp
  · rename_i inhabited
    have positive : 0 < width := Nat.pos_of_ne_zero (by simpa using inhabited)
    have after : 0 < first + width := by omega
    simp [after]

theorem before_zero (point : Point) : point.before Point.zero = false := by
  simp [Point.before, Point.zero]

theorem not_append_before (first step : Point) : (first + step).before first = false := by
  change (first.append step).before first = false
  simp only [Point.append, Point.before]
  split
  · simp
    omega
  · simp

/-- A point that comes after another one is not the first of all. -/
theorem zero_before (first step : Point) (moved : first.before (first + step) = true) :
    Point.zero.before (first + step) = true := by
  change Point.zero.before (first.append step) = true
  change first.before (first.append step) = true at moved
  simp only [Point.append, Point.before, Point.zero, Bool.or_eq_true, Bool.and_eq_true,
    beq_iff_eq] at *
  split at moved <;> simp_all <;> omega

theorem meetsRange_allPoints (first step limit : Point) :
    meetsRange Point.before first (first + step) (Point.zero, limit) = first.before limit := by
  simp only [meetsRange, not_append_before, before_zero, Bool.not_false, Bool.true_and,
    Bool.and_true]
  split
  · rfl
  · rename_i moved
    rw [zero_before first step (by simpa using moved), Bool.and_true]

theorem covers_new (query : Query) (root start node : Node) :
    (QueryRun.new query root start).covers node = startsInside node := by
  have bytes : node.stop.bytes = node.start.bytes + node.info.size.bytes := by simp [Node.stop]
  have point : node.stop.point = node.start.point + node.info.size.point := rfl
  rw [covers, bytes, point, startsInside]
  exact congrArg₂ (· && ·) (meetsRange_allBytes _ _ _) (meetsRange_allPoints _ _ _)

theorem eq_nil_of_delivers {found : List RawMatch} (delivers : run.Delivers found)
    (none : run.nextMatch.1 = none) : found = [] := by
  cases delivers with
  | ended _ => rfl
  | found delivered _ =>
      rw [delivered] at none
      cases none

theorem counted_twoWords : twoWords.Counted := by
  have word : (Tree.leaf Arithmetic.variableName Extent.zero ⟨1, ⟨0, 1⟩⟩ 1 .regular false).Counted :=
    Tree.counted_of_bare ⟨rfl, rfl, rfl⟩
  exact Tree.counted_branch (Tree.among_cons.mpr ⟨word, Tree.among_cons.mpr ⟨word, Tree.among_nil⟩⟩)

/-- Without ranges of its own a run delivers, for the node it was started on and the visible nodes
below it in preorder, and for the patterns in order, the captures of all ways in which the pattern
matches at the node, each way once and in lexicographic order. Nodes that start at the largest offset
or point lie outside of all ranges: they are left out with all that is below them. -/
theorem delivers_enumeration (query : Query) (counted : tree.Counted) (lies : start.LiesIn tree)
    (shown : start.isVisible = true) :
    ∃ found, query.Lists (preorder startsInside ⟨start, 0⟩ []) found ∧
      (QueryRun.new query (Node.root tree) start).Delivers found := by
  have inside : (QueryRun.new query (Node.root tree) start).covers = startsInside :=
    funext fun node => covers_new query _ start node
  have delivers := delivers_matchesOf query counted lies shown allBytes allPoints
  change (QueryRun.new query (Node.root tree) start).Delivers
    ((preorder (QueryRun.new query (Node.root tree) start).covers ⟨start, 0⟩ []).flatMap
      query.matchesOf) at delivers
  rw [inside] at delivers
  exact ⟨_, Query.lists_iff.mpr rfl, delivers⟩

/-- The words of a sum are captured twice. -/
theorem delivers_enumeration_words :
    twoWords.Counted ∧ (Node.root twoWords).LiesIn twoWords ∧
      (Node.root twoWords).isVisible = true ∧
      ∃ found,
        wordsOfSum.Lists (preorder startsInside ⟨Node.root twoWords, 0⟩ []) found ∧
        (QueryRun.new wordsOfSum (Node.root twoWords) (Node.root twoWords)).Delivers found :=
  ⟨counted_twoWords, Node.liesIn_root twoWords, rfl,
    delivers_enumeration wordsOfSum counted_twoWords (Node.liesIn_root twoWords) rfl⟩

/-- The root of a parse of which nothing is included but the largest offset is not delivered. -/
theorem lists_of_last_place :
    ∃ parser parsed query,
      Parser.new.setSpans
        [⟨⟨maxOffset, ⟨0, maxOffset⟩⟩, ⟨maxOffset, ⟨0, maxOffset⟩⟩⟩] = .ok parser ∧
      parser.parseIn (Language.arithmetic 0) #[] none = .ok parsed ∧
      Query.compile (Language.arithmetic 0) "(ERROR) @n" = .ok query ∧
      ¬∃ found,
        query.Lists (preorder (fun _ => true) ⟨parsed.document.root, 0⟩ []) found ∧
        (QueryRun.new query parsed.document.root parsed.document.root).Delivers found := by
  let parser : Parser :=
    ⟨none, [⟨⟨maxOffset, ⟨0, maxOffset⟩⟩, ⟨maxOffset, ⟨0, maxOffset⟩⟩⟩], 0, false⟩
  have facts : (match parser.parseIn (Language.arithmetic 0) #[] none,
        Query.compile (Language.arithmetic 0) "(ERROR) @n" with
      | .ok parsed, .ok query =>
        (QueryRun.new query parsed.document.root parsed.document.root).nextMatch.1.isNone &&
          !(query.matchesOf (⟨parsed.document.root, 0⟩, [])).isEmpty
      | _, _ => false) = true := by decide +kernel
  cases run : parser.parseIn (Language.arithmetic 0) #[] none with
  | error fault => simp [run] at facts
  | ok parsed =>
      cases compiled : Query.compile (Language.arithmetic 0) "(ERROR) @n" with
      | error mistake => simp [run, compiled] at facts
      | ok query =>
          simp only [run, compiled, Bool.and_eq_true, Option.isNone_iff_eq_none,
            Bool.not_eq_true', List.isEmpty_eq_false_iff] at facts
          refine ⟨parser, parsed, query, rfl, run, rfl, ?_⟩
          rintro ⟨found, lists, delivers⟩
          rw [Query.lists_iff, eq_nil_of_delivers delivers facts.1, Node.preorder_eq, if_pos rfl,
            List.flatMap_cons, eq_comm, List.append_eq_nil_iff] at lists
          exact facts.2 lists.1

end QueryRun

end Reparse
