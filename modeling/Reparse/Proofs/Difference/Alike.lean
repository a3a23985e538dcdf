import Reparse.Proofs.Difference.Rounds
import Reparse.Proofs.Tree.Kinds

/-!
# What the walkers say about their trees

The visible nodes around a walker are those that stand over the bytes of its place, apart from those
below it (`Walker.Stands.kindsAt_eq`).

Two walkers at the same depth stay alike: the kinds around them agree but for the innermost one. This
is so because whatever they do, the kinds around either of them are an end of a common list, if need
be after the node that the walker stands in (`Walker.Under`).
-/

namespace Reparse

/-! ## Kinds along a trace -/

namespace Trace

variable {root : Tree} {entry : WalkEntry} {around : List WalkEntry} {byte : Nat}

/-- An end of a trace is a trace. -/
theorem of_append {inner : List WalkEntry} (trace : Trace root (inner ++ entry :: around)) :
    Trace root (entry :: around) := by
  induction inner with
  | nil => exact trace
  | cons first rest ih =>
      apply ih
      cases rest with
      | nil => exact trace.outer
      | cons second others => exact trace.outer

/-- A node lies within all nodes around it. -/
theorem within_of_mem (trace : Trace root (entry :: around)) (rootLaid : root.Laid)
    {other : WalkEntry} (member : other ∈ around) :
    other.start.bytes ≤ entry.start.bytes ∧ entry.stop ≤ other.stop := by
  induction around generalizing entry with
  | nil => cases member
  | cons parent others ih =>
      have inside := trace.within rootLaid
      rcases List.mem_cons.mp member with rfl | outer
      · exact inside
      · have further := ih trace.outer outer
        omega

/-- The kinds at a byte of a node are those of the nodes around it and those that the node has. -/
theorem kindsAt_eq (trace : Trace root (entry :: around)) (rootLaid : root.Laid)
    (begun : entry.start.bytes ≤ byte) (inside : byte < entry.stop)
    (entered : ∀ other ∈ around, other.tree.info.visible = true → other.content ≤ byte) :
    root.kindsAt byte 0 =
      (Walker.kindsOf around).reverse ++ entry.tree.kindsAt byte entry.start.bytes := by
  generalize same : entry :: around = stack at trace
  induction trace generalizing entry around with
  | root begins =>
      cases same
      rw [begins]
      rfl
  | @child parent others before later field tree start outer siblings begins ih =>
      cases same
      have bounds := (Trace.child outer siblings begins).within rootLaid
      have parentLaid := outer.laid rootLaid
      have rest := ih (by omega) (by omega) (fun other member => entered other (by simp [member]))
        rfl
      have below : Tree.kindsAmong byte parent.start.bytes parent.tree.children =
          tree.kindsAt byte start.bytes := by
        have childrenLaid : Tree.EverywhereAmong Tree.IsLaid parent.tree.children := by
          rcases parent with ⟨⟨info, children⟩, place, first, after⟩
          exact parentLaid.children
        dsimp only at begun
        simp only [WalkEntry.stop] at inside
        rw [siblings] at childrenLaid ⊢
        rw [begins] at begun inside ⊢
        exact Tree.kindsAmong_of_within childrenLaid begun inside
      rw [rest]
      cases visible : parent.tree.info.visible
      · rw [Tree.kindsAt_of_hidden visible, below, Walker.kindsOf_cons_of_hidden visible]
      · have content := entered parent (by simp) visible
        have outside : byte < parent.stop := by omega
        simp only [WalkEntry.content] at content
        simp only [WalkEntry.stop] at outside
        rw [Tree.kindsAt_of_inside visible content outside, below,
          Walker.kindsOf_cons_of_visible visible, List.reverse_cons, List.append_assoc,
          List.singleton_append]

/-- A visible root is among the nodes around a place. -/
theorem kindsOf_ne_nil (trace : Trace root (entry :: around)) (visible : root.info.visible = true) :
    Walker.kindsOf (entry :: around) ≠ [] := by
  generalize same : entry :: around = stack at trace
  induction trace generalizing entry around with
  | root begins =>
      rw [Walker.kindsOf_cons_of_visible visible]
      exact List.cons_ne_nil _ _
  | @child parent others before later field tree start outer siblings begins ih =>
      have some := ih rfl
      cases shown : tree.info.visible
      · rw [Walker.kindsOf_cons_of_hidden shown]
        exact some
      · rw [Walker.kindsOf_cons_of_visible shown]
        exact List.cons_ne_nil _ _

end Trace

namespace Walker

variable {root : Tree} {walker : Walker} {position byte : Nat}

/-- What a walker leaves below its place at a byte. -/
def kindsBelow (walker : Walker) (byte : Nat) : List Nat :=
  match walker.stack with
  | [] => []
  | entry :: _ =>
    if walker.inPadding then [] else Tree.kindsAmong byte entry.start.bytes entry.tree.children

/-- At every byte of the place of a walker the kinds are those around it and those below it. -/
theorem Stands.kindsAt_eq (stands : walker.Stands root position) (rootLaid : root.Laid)
    (inhabited : walker.stack ≠ []) (begun : position ≤ byte) (inside : byte < walker.stop.bytes) :
    root.kindsAt byte 0 = walker.kinds.reverse ++ walker.kindsBelow byte := by
  cases stack : walker.stack with
  | nil => exact absurd stack inhabited
  | cons entry around =>
      have trace := stands.trace inhabited
      rw [stack] at trace
      have start : entry.start.bytes ≤ byte :=
        Nat.le_trans (stands.begun entry (by simp [stack])) begun
      have entered := stands.entered
      cases place : walker.inPadding
      · have stop : byte < entry.stop := by
          simpa [stop, stack, place, WalkEntry.stop] using inside
        have same := around_of_content place
        have rest := trace.kindsAt_eq rootLaid start stop fun other member visible =>
          Nat.le_trans (entered other (by simp [same, stack, member]) visible) begun
        simp only [kindsBelow, stack, place, Bool.false_eq_true, if_false, kinds, same]
        rw [rest]
        cases visible : entry.tree.info.visible
        · rw [Tree.kindsAt_of_hidden visible, kindsOf_cons_of_hidden visible]
        · have content := Nat.le_trans (entered entry (by simp [same, stack]) visible) begun
          simp only [WalkEntry.content] at content
          simp only [WalkEntry.stop] at stop
          rw [Tree.kindsAt_of_inside visible content stop, kindsOf_cons_of_visible visible,
            List.reverse_cons, List.append_assoc, List.singleton_append]
      · have before : byte < entry.content := by
          simpa [stop, stack, place, WalkEntry.content] using inside
        have same : walker.around = around := by simp [Walker.around, place, stack]
        have rest := trace.kindsAt_eq rootLaid start
          (Nat.lt_of_lt_of_le before entry.content_le_stop) fun other member visible =>
            Nat.le_trans (entered other (by simp [same, member]) visible) begun
        simp only [kindsBelow, stack, place, if_true, kinds, same, List.append_nil]
        rw [rest, Tree.kindsAt_of_before _ _ (trace.laid rootLaid) before, List.append_nil]

/-- A walker in a tree with a visible root is in a visible node, from the root's content on. -/
theorem Stands.kinds_ne_nil (stands : walker.Stands root position)
    (visible : root.info.visible = true) (begun : root.info.padding.bytes ≤ position)
    (inhabited : walker.stack ≠ []) (ahead : position < walker.stop.bytes) :
    walker.kinds ≠ [] := by
  have trace := stands.trace inhabited
  cases stack : walker.stack with
  | nil => exact absurd stack inhabited
  | cons entry around =>
      rw [stack] at trace
      cases place : walker.inPadding
      · rw [kinds, around_of_content place, stack]
        exact trace.kindsOf_ne_nil visible
      · have same : walker.around = around := by simp [Walker.around, place, stack]
        cases around with
        | nil =>
            cases trace with
            | root begins =>
                simp only [stop, stack, place, if_true, Extent.bytes_add, begins] at ahead
                omega
        | cons parent others =>
            rw [kinds, same]
            exact trace.outer.kindsOf_ne_nil visible

/-- The innermost visible node is the first of the kinds around a walker. -/
theorem visibleNode_eq_some {entry : WalkEntry} (found : walker.visibleNode? = some entry) :
    entry.tree.info.visible = true ∧ ∃ inner around, walker.around = inner ++ entry :: around ∧
      walker.kinds = entry.tree.info.symbol :: kindsOf around := by
  change walker.around.find? _ = some entry at found
  rw [List.find?_eq_some_iff_append] at found
  rcases found with ⟨visible, inner, around, split, hidden⟩
  refine ⟨visible, inner, around, split, ?_⟩
  have none : inner.filter (fun other => other.tree.info.visible) = [] := by
    rw [List.filter_eq_nil_iff]
    intro other member
    simpa using hidden other member
  simp [kinds, split, kindsOf, List.filter_append, none, visible]

theorem visibleNode_eq_none (missed : walker.visibleNode? = none) : walker.kinds = [] := by
  change walker.around.find? _ = Option.none at missed
  rw [List.find?_eq_none] at missed
  rw [kinds, kindsOf, List.map_eq_nil_iff, List.filter_eq_nil_iff]
  exact missed

theorem stack_eq_append (walker : Walker) : ∃ top, walker.stack = top ++ walker.around := by
  unfold Walker.around
  split
  · exact ⟨walker.stack.take 1, (List.take_append_drop 1 walker.stack).symm⟩
  · exact ⟨[], rfl⟩

/-- The innermost visible node around a walker is a node of its tree. -/
theorem at_of_visibleNode {entry : WalkEntry} (trace : Trace root walker.stack)
    (found : walker.visibleNode? = some entry) : ∃ path, root.At path entry.start.bytes entry.tree := by
  rcases visibleNode_eq_some found with ⟨_, inner, around, split, _⟩
  rcases walker.stack_eq_append with ⟨top, stack⟩
  rw [stack, split, ← List.append_assoc] at trace
  exact trace.of_append.placed

theorem stop_le_of_stack {entry : WalkEntry} {around : List WalkEntry}
    (stack : walker.stack = entry :: around) : walker.stop.bytes ≤ entry.stop := by
  have within := entry.content_le_stop
  simp only [WalkEntry.content, WalkEntry.stop] at within ⊢
  simp only [stop, stack]
  split <;> simp only [Extent.bytes_add] <;> omega

/-- The innermost visible node reaches over the place of the walker. -/
theorem Stands.visibleNode (stands : walker.Stands root position) (rootLaid : root.Laid)
    {entry : WalkEntry} (found : walker.visibleNode? = some entry) :
    ∃ around, Trace root (entry :: around) ∧
      walker.kinds = entry.tree.info.symbol :: kindsOf around ∧
      walker.stop.bytes ≤ entry.stop ∧ entry.content ≤ position ∧
      ∀ other ∈ around, other.tree.info.visible = true → other.content ≤ position := by
  rcases visibleNode_eq_some found with ⟨visible, inner, around, split, kinds⟩
  rcases walker.stack_eq_append with ⟨top, rest⟩
  rw [split, ← List.append_assoc] at rest
  have trace := stands.trace (by simp [rest])
  rw [rest] at trace
  have stop : walker.stop.bytes ≤ entry.stop := by
    cases outer : top ++ inner with
    | nil =>
        rw [outer, List.nil_append] at rest
        exact stop_le_of_stack rest
    | cons first others =>
        rw [outer, List.cons_append] at rest trace
        have reaches := stop_le_of_stack rest
        have inside :=
          (trace.within_of_mem rootLaid (List.mem_append_right others List.mem_cons_self)).2
        omega
  refine ⟨around, trace.of_append, kinds, stop, ?_, ?_⟩
  · exact stands.entered entry (by simp [split]) visible
  · exact fun other member => stands.entered other (by simp [split, member])

/-! ## Walkers under a list of kinds -/

/-- The kinds around a walker are an end of a list, if need be after the node it stands in. -/
def Under (kinds : List Nat) (walker : Walker) : Prop :=
  walker.kinds <:+ kinds ∨ (walker.Flush ∧ walker.kinds.tail <:+ kinds)

variable {kinds : List Nat}

theorem Under.tail (under : walker.Under kinds) : walker.kinds.tail <:+ kinds := by
  rcases under with suffix | ⟨_, suffix⟩
  · exact (List.tail_suffix _).trans suffix
  · exact suffix

theorem Under.drop (under : walker.Under kinds) {count : Nat}
    (some : walker.Flush → 1 ≤ count) : walker.kinds.drop count <:+ kinds := by
  rcases under with suffix | ⟨flush, suffix⟩
  · exact (List.drop_suffix _ _).trans suffix
  · obtain ⟨fewer, rfl⟩ : ∃ fewer, count = fewer + 1 := ⟨count - 1, by have := some flush; omega⟩
    rw [← List.drop_tail]
    exact (List.drop_suffix _ _).trans suffix

theorem Under.moves {next : Walker} (under : walker.Under kinds) (moves : walker.Moves next) :
    next.Under kinds := by
  rcases moves with ⟨count, some, dropped | ⟨flush, dropped⟩⟩
  · left
    rw [dropped]
    exact under.drop some
  · right
    rw [dropped]
    exact ⟨flush, under.drop some⟩

theorem Under.past {next : Walker} (under : walker.Under kinds)
    (past : Past root walker position next) : next.Under kinds := by
  rcases past.moves with rfl | moves
  · exact under
  · exact under.moves moves

theorem Under.raised {above : Walker} {depth : Int} (under : walker.Under kinds)
    (stands : walker.Stands root position) (raised : Raised root walker position depth above) :
    above.Under kinds := by
  by_cases low : walker.depth ≤ depth
  · rw [raised.same low]
    exact under
  · left
    have level := raised.least (by omega)
    rcases raised.kinds with ⟨count, dropped⟩
    rw [dropped]
    apply under.drop
    -- a walker that was raised has left the node it stood in
    intro _
    have before := stands.depth
    have after := raised.stands.depth
    rw [dropped, List.length_drop] at after
    omega

/-- What is found below a walker is under the kinds around it. -/
theorem Sought.under {result : Bool × Walker} (sought : Sought root walker position result) :
    result.2.Under walker.kinds := by
  cases found : result.1
  · left
    simp [(sought.failure found).1]
  · rcases (sought.success found).2.2 with ⟨_, same⟩ | ⟨flush, same⟩
    · left
      simp [same]
    · right
      simp [same, flush]

theorem suffix_unique {left right all : List Nat} (leftSuffix : left <:+ all)
    (rightSuffix : right <:+ all) (level : left.length = right.length) : left = right :=
  (List.suffix_of_suffix_length_le leftSuffix rightSuffix (Nat.le_of_eq level)).eq_of_length level

/-- Walkers under one list that are as deep as each other agree but for the innermost node. -/
theorem tail_kinds_eq {old new : Walker} (oldUnder : old.Under kinds) (newUnder : new.Under kinds)
    (level : old.kinds.length = new.kinds.length) : old.kinds.tail = new.kinds.tail := by
  apply suffix_unique oldUnder.tail newUnder.tail
  rw [List.length_tail, List.length_tail, level]

end Walker

end Reparse
