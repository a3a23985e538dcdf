import Reparse.Proofs.Difference.Walker

/-!
# The moves of a walker

A walker descends into the visible node that reaches past a position, ascends to the node around it,
and advances to the next place in reading order. What each move does to the place and to the visible
nodes around it is said once here.

A walker advances only so often before it leaves its tree: `Walker.potential` bounds the number of
moves, and every move makes it smaller.
-/

namespace Reparse

namespace Walker

/-! ## The moves that are left -/

/-- Twice the number of nodes that lie behind a stack of entries. -/
def pending : List WalkEntry → Nat
  | [] => 0
  | entry :: around => 2 * Tree.countAll entry.later + pending around

/-- A bound on the number of moves that are left. -/
def potential (walker : Walker) : Nat :=
  match walker.stack with
  | [] => 0
  | entry :: _ =>
    1 + pending walker.stack +
      if walker.inPadding then 2 * Tree.countAll entry.tree.children + 1 else 0

/-- What lies behind and below a place is part of the tree. -/
theorem pending_le {root : Tree} {entry : WalkEntry} {around : List WalkEntry}
    (trace : Trace root (entry :: around)) :
    pending (entry :: around) + 2 * Tree.countAll entry.tree.children ≤
      2 * Tree.countAll root.children := by
  generalize same : entry :: around = stack at trace
  induction trace generalizing entry around with
  | root begins =>
      cases same
      simp [pending, Tree.countAll]
  | @child outer rest before later field tree start _ siblings begins ih =>
      cases same
      have nodes := ih rfl
      simp only [siblings, pending, Tree.countAll_append, Tree.countAll, tree.count_eq] at nodes ⊢
      omega

/-- The nodes around a place are part of the tree, like the nodes below it. -/
theorem length_le {root : Tree} {entry : WalkEntry} {around : List WalkEntry}
    (trace : Trace root (entry :: around)) :
    (entry :: around).length + Tree.countAll entry.tree.children ≤ root.count := by
  generalize same : entry :: around = stack at trace
  induction trace generalizing entry around with
  | root begins =>
      cases same
      simp [root.count_eq]
  | @child outer rest before later field tree start _ siblings begins ih =>
      cases same
      have nodes := ih rfl
      simp only [siblings, List.length_cons, Tree.countAll_append, Tree.countAll,
        tree.count_eq] at nodes ⊢
      omega

theorem Stands.potential_le {root : Tree} {walker : Walker} {position : Nat}
    (stands : walker.Stands root position) : walker.potential ≤ 2 * root.count := by
  cases stack : walker.stack with
  | nil => simp [potential, stack]
  | cons entry around =>
      have trace := stands.trace (by simp [stack])
      rw [stack] at trace
      have nodes := pending_le trace
      simp only [potential, stack, root.count_eq]
      split <;> omega

theorem Stands.length_kinds_le {root : Tree} {walker : Walker} {position : Nat}
    (stands : walker.Stands root position) : walker.kinds.length ≤ root.count := by
  have short : walker.kinds.length ≤ walker.stack.length := by
    rw [kinds, kindsOf, List.length_map]
    refine Nat.le_trans (List.length_filter_le _ _) ?_
    simp only [Walker.around]
    split
    · simp
    · exact Nat.le_refl _
  cases stack : walker.stack with
  | nil => simpa [stack] using Nat.le_trans short (by simp [stack])
  | cons entry around =>
      have trace := stands.trace (by simp [stack])
      rw [stack] at trace short
      have nodes := length_le trace
      omega

/-! ## Descending -/

/-- What a walker can come to that enters a tree to find the visible node that reaches past `goal`,
where `nodes` nodes lie below it. If there is none, it ends in a node without children that reach
past the goal. -/
structure Entered (root : Tree) (walker : Walker) (goal position nodes : Nat)
    (result : Bool × Walker) : Prop where
  stands : result.2.Stands root position
  inhabited : result.2.stack ≠ []
  ahead : result.1 = true ∨ goal < walker.stop.bytes → goal < result.2.stop.bytes
  moved : result.2 = walker ∨ goal < result.2.stop.bytes
  success : result.1 = true →
    (result.2.inPadding = true ∧ result.2.kinds = walker.kinds) ∨
      (result.2.Flush ∧ result.2.kinds.tail = walker.kinds)
  failure : result.1 = false →
    result.2.inPadding = false ∧ result.2.kinds = walker.kinds ∧
      (result.2.Flush → result.2 = walker)
  bare : result.1 = false → ∀ entry ∈ result.2.stack.head?,
    entry.tree.children = [] ∨ entry.start.bytes + Tree.widthOf entry.tree.children ≤ goal
  fewer : result.2.potential ≤ walker.potential + 2 * nodes

variable {root : Tree} {walker : Walker} {goal position : Nat}

/-- The walker that has gone one node down from another. -/
def pushed (walker : Walker) (entry : WalkEntry) : Walker :=
  { walker with stack := entry :: walker.stack }

section Push

variable {entry : WalkEntry} {rootEntry : WalkEntry} {around : List WalkEntry}

/-- Going down to a visible child whose content has begun. -/
theorem Stands.push_visible (stands : walker.Stands root position)
    (content : walker.inPadding = false) (trace : Trace root (entry :: walker.stack))
    (visible : entry.tree.info.visible = true) (begun : entry.content ≤ position) :
    Stands root { walker.pushed entry with depth := walker.depth + 1 } position := by
  have same := around_of_content content
  have kinds : walker.kinds = kindsOf walker.stack := by rw [Walker.kinds, same]
  refine ⟨fun _ => trace, ?_, ?_, ?_⟩
  · simp only [Walker.kinds, around, pushed, content, Bool.false_eq_true, if_false,
      kindsOf_cons_of_visible visible, List.length_cons]
    rw [stands.depth, kinds]
    omega
  · simp only [pushed, List.forall_mem_cons]
    refine ⟨?_, stands.begun⟩
    simp only [WalkEntry.content] at begun
    omega
  · simp only [around, pushed, content, Bool.false_eq_true, if_false, List.forall_mem_cons]
    rw [← same]
    exact ⟨fun _ => begun, stands.entered⟩

/-- Going down into the padding of a child. -/
theorem Stands.push_padding (stands : walker.Stands root position)
    (content : walker.inPadding = false) (trace : Trace root (entry :: walker.stack))
    (begun : entry.start.bytes ≤ position) :
    Stands root { walker.pushed entry with inPadding := true } position := by
  have same := around_of_content content
  refine ⟨fun _ => trace, ?_, ?_, ?_⟩
  · simp only [Walker.kinds, around, pushed, if_true, List.drop_one, List.tail_cons]
    rw [stands.depth, Walker.kinds, same]
  · simp only [pushed, List.forall_mem_cons]
    exact ⟨begun, stands.begun⟩
  · simp only [around, pushed, if_true, List.drop_one, List.tail_cons]
    rw [← same]
    exact stands.entered

/-- Going down to a hidden child. -/
theorem Stands.push_hidden (stands : walker.Stands root position)
    (content : walker.inPadding = false) (trace : Trace root (entry :: walker.stack))
    (hidden : entry.tree.info.visible = false) (begun : entry.start.bytes ≤ position) :
    (walker.pushed entry).Stands root position := by
  have same := around_of_content content
  refine ⟨fun _ => trace, ?_, ?_, ?_⟩
  · simp only [Walker.kinds, around, pushed, content, Bool.false_eq_true, if_false,
      kindsOf_cons_of_hidden hidden]
    rw [stands.depth, Walker.kinds, same]
  · simp only [pushed, List.forall_mem_cons]
    exact ⟨begun, stands.begun⟩
  · simp only [around, pushed, content, Bool.false_eq_true, if_false, List.forall_mem_cons]
    rw [← same]
    refine ⟨fun visible => ?_, stands.entered⟩
    rw [hidden] at visible
    cases visible

theorem kinds_pushed_of_hidden (content : walker.inPadding = false)
    (hidden : entry.tree.info.visible = false) : (walker.pushed entry).kinds = walker.kinds := by
  simp [Walker.kinds, around, pushed, content, kindsOf_cons_of_hidden hidden]

theorem potential_pushed (entry : WalkEntry) (content : walker.inPadding = false)
    (inhabited : walker.stack ≠ []) :
    (walker.pushed entry).potential = walker.potential + 2 * Tree.countAll entry.later := by
  cases same : walker.stack with
  | nil => exact absurd same inhabited
  | cons top around =>
      simp only [potential, pushed, same, content, pending, Bool.false_eq_true, if_false]
      omega

end Push

/-- From a child that lies further on, what is entered is entered from its parent. -/
theorem Entered.mono {nodes more : Nat} {result : Bool × Walker}
    (entered : Entered root walker goal position nodes result) (le : nodes ≤ more) :
    Entered root walker goal position more result :=
  { entered with fewer := Nat.le_trans entered.fewer (by omega) }

section Child

variable {entry : WalkEntry}

theorem entered_padding (stands : walker.Stands root position)
    (content : walker.inPadding = false) (inhabited : walker.stack ≠ [])
    (trace : Trace root (entry :: walker.stack)) (begun : entry.start.bytes ≤ position)
    (outside : goal < entry.content) :
    Entered root walker goal position (entry.tree.count + Tree.countAll entry.later)
      (true, { walker.pushed entry with inPadding := true }) where
  stands := stands.push_padding content trace begun
  inhabited := by simp [pushed]
  ahead _ := by simpa [stop, pushed, WalkEntry.content] using outside
  moved := Or.inr (by simpa [stop, pushed, WalkEntry.content] using outside)
  success _ := by
    left
    exact ⟨rfl, by simp [kinds, around, pushed, content]⟩
  failure := nofun
  bare := nofun
  fewer := by
    have below := potential_pushed entry content inhabited
    simp only [potential, pushed, content, Bool.false_eq_true, if_false, if_true,
      entry.tree.count_eq] at below ⊢
    omega

theorem entered_visible (stands : walker.Stands root position) (le : goal ≤ position)
    (content : walker.inPadding = false) (inhabited : walker.stack ≠ [])
    (trace : Trace root (entry :: walker.stack)) (visible : entry.tree.info.visible = true)
    (inside : entry.content ≤ goal) (reached : goal < entry.stop) :
    Entered root walker goal position (entry.tree.count + Tree.countAll entry.later)
      (true, { walker.pushed entry with depth := walker.depth + 1 }) where
  stands := stands.push_visible content trace visible (Nat.le_trans inside le)
  inhabited := by simp [pushed]
  ahead _ := by simpa [stop, pushed, content, WalkEntry.stop] using reached
  moved := Or.inr (by simpa [stop, pushed, content, WalkEntry.stop] using reached)
  success _ := by
    right
    refine ⟨⟨content, by simpa [isVisible, pushed] using visible⟩, ?_⟩
    simp [kinds, around, pushed, content, kindsOf_cons_of_visible visible]
  failure := nofun
  bare := nofun
  fewer := by
    have below := potential_pushed entry content inhabited
    change (walker.pushed entry).potential ≤ _
    omega

/-- What is entered from a hidden child is entered from the node around it. -/
theorem Entered.of_hidden {result : Bool × Walker} (content : walker.inPadding = false)
    (inhabited : walker.stack ≠ []) (hidden : entry.tree.info.visible = false)
    (reached : goal < entry.stop)
    (entered : Entered root (walker.pushed entry) goal position
      (Tree.countAll entry.tree.children) result) :
    Entered root walker goal position (entry.tree.count + Tree.countAll entry.later) result := by
  have same := kinds_pushed_of_hidden content hidden
  have ahead : goal < result.2.stop.bytes :=
    entered.ahead (Or.inr (by simpa [stop, pushed, content, WalkEntry.stop] using reached))
  refine ⟨entered.stands, entered.inhabited, fun _ => ahead, Or.inr ahead, ?_, ?_,
    entered.bare, ?_⟩
  · rw [← same]
    exact entered.success
  · intro failed
    rcases entered.failure failed with ⟨outside, kinds, back⟩
    refine ⟨outside, kinds.trans same, fun flush => ?_⟩
    have stuck := back flush
    rw [stuck] at flush
    simp [Flush, isVisible, pushed, hidden] at flush
  · have fewer := entered.fewer
    have below := potential_pushed entry content inhabited
    rw [entry.tree.count_eq]
    omega

end Child

mutual

theorem enter_spec (tree : Tree) {walker : Walker} (stands : walker.Stands root position)
    (le : goal ≤ position) (content : walker.inPadding = false) {entry : WalkEntry}
    {around : List WalkEntry} (stack : walker.stack = entry :: around) (top : entry.tree = tree)
    {start : Extent} (begins : start.bytes = entry.start.bytes) :
    Entered root walker goal position (Tree.countAll tree.children)
      (walker.enter goal start tree) := by
  rcases tree with ⟨info, children⟩
  have siblings : entry.tree.children = [] ++ children := by rw [top]; rfl
  exact enterAmong_spec children stands le content stack siblings (by simpa using begins)
    (Or.inl rfl)

theorem enterAmong_spec (children : List (Edge Tree)) {walker : Walker}
    (stands : walker.Stands root position) (le : goal ≤ position)
    (content : walker.inPadding = false) {entry : WalkEntry} {around : List WalkEntry}
    (stack : walker.stack = entry :: around) {before : List (Edge Tree)}
    (siblings : entry.tree.children = before ++ children) {start : Extent}
    (begins : start.bytes = entry.start.bytes + Tree.widthOf before)
    (passed : before = [] ∨ start.bytes ≤ goal) :
    Entered root walker goal position (Tree.countAll children)
      (walker.enterAmong goal start before.isEmpty children) := by
  have inhabited : walker.stack ≠ [] := by simp [stack]
  cases children with
  | nil =>
      rw [List.append_nil] at siblings
      refine ⟨stands, inhabited, by simp [enterAmong], Or.inl rfl, nofun,
        fun _ => ⟨content, rfl, fun _ => rfl⟩, ?_, Nat.le_add_right _ _⟩
      intro _ first member
      simp only [enterAmong, stack, List.head?_cons, Option.mem_def, Option.some.injEq] at member
      subst member
      rw [siblings]
      rcases passed with empty | reached
      · exact Or.inl empty
      · exact Or.inr (by omega)
  | cons edge rest =>
      rcases edge with ⟨field, child⟩
      have trace := stands.trace inhabited
      rw [stack] at trace
      have down := Trace.child trace siblings begins
      rw [← stack] at down
      have begun : start.bytes ≤ position := by
        have := stands.begun entry (by simp [stack])
        rcases passed with empty | reached
        · subst empty
          simp only [Tree.widthOf_nil] at begins
          omega
        · omega
      rw [enterAmong]
      dsimp only
      split
      · rename_i reached
        have reached : goal < WalkEntry.stop ⟨child, start, before.isEmpty, rest⟩ := by
          simp only [Extent.bytes_add] at reached
          simp only [WalkEntry.stop, Tree.total, Info.total, Extent.bytes_add]
          omega
        split
        · rename_i visible
          split
          · rename_i outside
            exact entered_padding stands content inhabited down begun outside
          · rename_i inside
            exact entered_visible stands le content inhabited down visible
              (Nat.le_of_not_lt inside) reached
        · rename_i hidden
          have hidden : child.info.visible = false := by simpa using hidden
          exact .of_hidden content inhabited hidden reached
            (enter_spec child (stands.push_hidden content down hidden begun) le content rfl rfl rfl)
      · rename_i ended
        simp only [Extent.bytes_add] at ended
        have rebuilt : entry.tree.children = (before ++ [⟨field, child⟩]) ++ rest := by
          rw [siblings, List.append_assoc, List.singleton_append]
        have notFirst : (before ++ [Edge.mk field child]).isEmpty = false := by simp
        have further : (start + child.info.padding + child.info.size).bytes =
            entry.start.bytes + Tree.widthOf (before ++ [⟨field, child⟩]) := by
          simp only [Extent.bytes_add, begins, Tree.widthOf_append, Tree.widthOf_cons,
            Tree.widthOf_nil, Tree.total, Info.total]
          omega
        have next := enterAmong_spec rest stands le content stack rebuilt further
          (Or.inr (by simp only [Extent.bytes_add]; omega))
        rw [notFirst] at next
        exact next.mono (Nat.le_add_left _ _)

end

/-- Descending from the content of a node. -/
theorem descend_spec (goal : Nat) (stands : walker.Stands root position) (le : goal ≤ position)
    (content : walker.inPadding = false) {entry : WalkEntry} {around : List WalkEntry}
    (stack : walker.stack = entry :: around) :
    Entered root walker goal position (Tree.countAll entry.tree.children)
      (walker.descend goal) := by
  have step : walker.descend goal = walker.enter goal entry.start entry.tree := by
    simp [descend, content, stack]
  rw [step]
  exact enter_spec entry.tree stands le content stack rfl rfl

/-! ## Ascending -/

/-- What ascending does: the walker leaves the visible node that it stands in, and no other. -/
structure Ascended (root : Tree) (walker : Walker) (position : Nat) (above : Walker) : Prop where
  stands : above.Stands root position
  ahead : above.stack ≠ [] → position < above.stop.bytes
  kinds : (walker.Flush ∧ above.kinds = walker.kinds.tail) ∨
    (¬walker.Flush ∧ above.kinds = walker.kinds)

section Ascend

variable {entry : WalkEntry} {around : List WalkEntry}

theorem ascend_content_spec (rootLaid : root.Laid) (stands : walker.Stands root position)
    (ahead : position < walker.stop.bytes) (stack : walker.stack = entry :: around)
    (content : walker.inPadding = false) : Ascended root walker position walker.ascend := by
  have trace := stands.trace (by simp [stack])
  have kinds : walker.kinds = kindsOf (entry :: around) := by
    rw [Walker.kinds, around_of_content content, stack]
  have above : walker.ascend = ⟨around,
      if entry.tree.info.visible then walker.depth - 1 else walker.depth, false⟩ := by
    simp [ascend, stack, isVisible, content]
  have aboveKinds : walker.ascend.kinds = kindsOf around := by
    simp [above, Walker.kinds, Walker.around]
  have flush : walker.Flush ↔ entry.tree.info.visible = true := by
    simp [Flush, content, isVisible, stack]
  have depth := stands.depth
  refine ⟨⟨?_, ?_, ?_, ?_⟩, ?_, ?_⟩
  · rw [above]
    rw [stack] at trace
    exact trace.outer_of_ne_nil
  · rw [aboveKinds, above]
    cases visible : entry.tree.info.visible
    · rw [depth, kinds, kindsOf_cons_of_hidden visible]
      rfl
    · rw [depth, kinds, kindsOf_cons_of_visible visible]
      simp only [if_true, List.length_cons]
      omega
  · rw [above]
    intro other member
    exact stands.begun other (by simp [stack, member])
  · rw [above]
    intro other member
    exact stands.entered other (by
      rw [around_of_content content, stack]
      exact List.mem_cons_of_mem _ (by simpa [Walker.around] using member))
  · rw [above]
    intro inhabited
    cases around with
    | nil => exact absurd rfl inhabited
    | cons parent rest =>
        rw [stack] at trace
        have := (trace.within rootLaid).2
        simp only [stop, stack, content, Bool.false_eq_true, if_false, Extent.bytes_add] at ahead ⊢
        simp only [WalkEntry.stop] at this
        omega
  · rw [aboveKinds, kinds, flush]
    cases visible : entry.tree.info.visible
    · right
      exact ⟨Bool.false_ne_true, (kindsOf_cons_of_hidden visible).symm⟩
    · left
      exact ⟨rfl, by rw [kindsOf_cons_of_visible visible, List.tail_cons]⟩

/-- Ahead of the first child the content of its parent is not reached either. -/
theorem parent_ahead (rootLaid : root.Laid) {parent : WalkEntry}
    (stands : walker.Stands root position) (ahead : position < walker.stop.bytes)
    (stack : walker.stack = entry :: parent :: around) (padding : walker.inPadding = true) (first : entry.first = true) :
    position < parent.content := by
  have trace := stands.trace (by simp [stack])
  rw [stack] at trace
  rw [← trace.content_eq rootLaid first]
  simpa [stop, stack, padding, WalkEntry.content] using ahead

theorem kinds_of_padding (stack : walker.stack = entry :: around)
    (padding : walker.inPadding = true) : walker.kinds = kindsOf around := by
  simp [Walker.kinds, Walker.around, padding, stack]

theorem entered_of_padding (stands : walker.Stands root position)
    (stack : walker.stack = entry :: around) (padding : walker.inPadding = true) :
    ∀ other ∈ around, other.tree.info.visible = true → other.content ≤ position := by
  intro other member
  exact stands.entered other (by simpa [Walker.around, padding, stack] using member)

/-- A parent that begins where its first child does is hidden, since the position has not reached
its content. -/
theorem kinds_ascend_padding (rootLaid : root.Laid) (stands : walker.Stands root position)
    (ahead : position < walker.stop.bytes) (stack : walker.stack = entry :: around)
    (padding : walker.inPadding = true) : walker.ascend.kinds = kindsOf around := by
  have above : walker.ascend = ⟨around, walker.depth, entry.first⟩ := by
    simp [ascend, stack, padding]
  rw [above]
  cases first : entry.first
  · simp [Walker.kinds, Walker.around]
  · cases around with
    | nil => simp [Walker.kinds, Walker.around]
    | cons parent rest =>
        have beyond := parent_ahead rootLaid stands ahead stack padding first
        have hidden : parent.tree.info.visible = false := by
          cases visible : parent.tree.info.visible
          · rfl
          · have := entered_of_padding stands stack padding parent List.mem_cons_self visible
            omega
        simp [Walker.kinds, Walker.around, kindsOf_cons_of_hidden hidden]

/-- From padding a walker goes to the padding of the parent, if the child is the first one. -/
theorem ascend_padding_spec (rootLaid : root.Laid) (stands : walker.Stands root position)
    (ahead : position < walker.stop.bytes) (stack : walker.stack = entry :: around)
    (padding : walker.inPadding = true) : Ascended root walker position walker.ascend := by
  have trace := stands.trace (by simp [stack])
  have kinds := kinds_of_padding stack padding
  have above : walker.ascend = ⟨around, walker.depth, entry.first⟩ := by
    simp [ascend, stack, padding]
  have outside : position < entry.content := by
    simpa [stop, stack, padding, WalkEntry.content] using ahead
  have aboveKinds := kinds_ascend_padding rootLaid stands ahead stack padding
  refine ⟨⟨?_, ?_, ?_, ?_⟩, ?_, ?_⟩
  · rw [above]
    rw [stack] at trace
    exact trace.outer_of_ne_nil
  · rw [aboveKinds, above, ← kinds]
    exact stands.depth
  · rw [above]
    intro other member
    exact stands.begun other (by simp [stack, member])
  · rw [above]
    intro other member
    refine entered_of_padding stands stack padding other ?_
    simp only [Walker.around] at member
    split at member
    · exact List.mem_of_mem_drop member
    · exact member
  · rw [above]
    intro inhabited
    cases around with
    | nil => exact absurd rfl inhabited
    | cons parent rest =>
        cases first : entry.first
        · rw [stack] at trace
          have inside := (trace.within rootLaid).2
          have ends := entry.content_le_stop
          simp only [stop, Bool.false_eq_true, if_false, Extent.bytes_add]
          simp only [WalkEntry.stop] at inside ends
          omega
        · exact parent_ahead rootLaid stands ahead stack padding first
  · rw [aboveKinds, kinds]
    right
    exact ⟨by simp [Flush, padding], rfl⟩

theorem ascend_spec (rootLaid : root.Laid) (stands : walker.Stands root position)
    (ahead : position < walker.stop.bytes) (stack : walker.stack = entry :: around) :
    Ascended root walker position walker.ascend := by
  cases place : walker.inPadding
  · exact ascend_content_spec rootLaid stands ahead stack place
  · exact ascend_padding_spec rootLaid stands ahead stack place

theorem stack_ascend (stack : walker.stack = entry :: around) :
    walker.ascend.stack = around := by
  simp [ascend, stack]

end Ascend

/-- A walker that ascends until its depth is small enough. It stays where it is if it is there. -/
structure Raised (root : Tree) (walker : Walker) (position : Nat) (depth : Int) (above : Walker) :
    Prop where
  stands : above.Stands root position
  ahead : above.stack ≠ [] → position < above.stop.bytes
  kinds : ∃ count, above.kinds = walker.kinds.drop count
  low : above.depth ≤ depth
  least : depth ≤ walker.depth → above.depth = depth
  same : walker.depth ≤ depth → above = walker

theorem kinds_of_stack_nil (empty : walker.stack = []) : walker.kinds = [] := by
  simp [kinds, around, empty, kindsOf]

theorem ascendTo_spec (rootLaid : root.Laid) (stands : walker.Stands root position)
    (ahead : walker.stack ≠ [] → position < walker.stop.bytes) {depth : Int}
    (least : surplus root ≤ depth) {height : Nat} (high : walker.stack.length ≤ height) :
    ∃ above, ascendTo depth walker height = some above ∧
      Raised root walker position depth above := by
  have stay (low : walker.depth ≤ depth) : Raised root walker position depth walker :=
    ⟨stands, ahead, ⟨0, rfl⟩, low, fun _ => by omega, fun _ => rfl⟩
  induction height generalizing walker with
  | zero =>
      have empty : walker.stack = [] := by simpa using high
      have shallow : walker.depth = surplus root := by
        rw [stands.depth, kinds_of_stack_nil empty]
        simp
      refine ⟨walker, ?_, stay (by omega)⟩
      rw [ascendTo, if_neg (by omega)]
  | succ height ih =>
      rw [ascendTo]
      split
      · rename_i deep
        cases stack : walker.stack with
        | nil =>
            have shallow : walker.depth = surplus root := by
              rw [stands.depth, kinds_of_stack_nil stack]
              simp
            omega
        | cons entry around =>
            have up := ascend_spec rootLaid stands (ahead (by simp [stack])) stack
            have lower : walker.ascend.stack.length ≤ height := by
              rw [stack_ascend stack]
              simpa [stack] using high
            have step : walker.ascend.depth = walker.depth ∨
                walker.ascend.depth = walker.depth - 1 := by
              rw [up.stands.depth, stands.depth]
              rcases up.kinds with ⟨_, tail⟩ | ⟨_, same⟩
              · rw [tail, List.length_tail]
                omega
              · left
                rw [same]
            rcases ih up.stands up.ahead lower
              (fun low => ⟨up.stands, up.ahead, ⟨0, rfl⟩, low, fun _ => by omega, fun _ => rfl⟩)
              with ⟨above, raised, spec⟩
            refine ⟨above, raised, spec.stands, spec.ahead, ?_, spec.low, ?_, ?_⟩
            · rcases spec.kinds with ⟨count, rest⟩
              rcases up.kinds with ⟨_, tail⟩ | ⟨_, same⟩
              · exact ⟨count + 1, by rw [rest, tail, List.drop_tail]⟩
              · exact ⟨count, by rw [rest, same]⟩
            · intro _
              exact spec.least (by omega)
            · omega
      · rename_i low
        exact ⟨walker, rfl, stay (by omega)⟩

theorem raiseTo_spec (rootLaid : root.Laid) (stands : walker.Stands root position)
    (ahead : walker.stack ≠ [] → position < walker.stop.bytes) (depth : Int)
    (least : surplus root ≤ depth) :
    ∃ above, walker.raiseTo depth = some above ∧ Raised root walker position depth above :=
  ascendTo_spec rootLaid stands ahead least (Nat.le_refl _)

theorem stack_ascend_nil (empty : walker.stack = []) : walker.ascend = walker := by
  simp [ascend, empty]

/-- A walker in a tree with a hidden root gets no higher than depth one. -/
theorem ascendTo_eq_none (rootLaid : root.Laid) (stands : walker.Stands root position)
    (ahead : walker.stack ≠ [] → position < walker.stop.bytes) {depth : Int}
    (below : depth < surplus root) (height : Nat) : ascendTo depth walker height = none := by
  have deep : depth < walker.depth := by
    have := stands.depth
    omega
  induction height generalizing walker with
  | zero => rw [ascendTo, if_pos deep]
  | succ height ih =>
      rw [ascendTo, if_pos deep]
      cases stack : walker.stack with
      | nil =>
          rw [stack_ascend_nil stack]
          exact ih stands ahead deep
      | cons entry around =>
          have up := ascend_spec rootLaid stands (ahead (by simp [stack])) stack
          have depthAbove := up.stands.depth
          exact ih up.stands up.ahead (by omega)

/-! ## Advancing -/

/-- A move takes some of the innermost visible nodes away, the one that the walker stood in among
them, and puts at most one in their place, in which the walker then stands. -/
def Moves (walker next : Walker) : Prop :=
  ∃ count, (walker.Flush → 1 ≤ count) ∧
    (next.kinds = walker.kinds.drop count ∨
      (next.Flush ∧ next.kinds.tail = walker.kinds.drop count))

theorem Flush.kinds_ne_nil (flush : walker.Flush) : walker.kinds ≠ [] := by
  rcases flush with ⟨content, visible⟩
  rw [Walker.kinds, around_of_content content]
  cases stack : walker.stack with
  | nil => simp [isVisible, stack] at visible
  | cons entry around =>
      have shown : entry.tree.info.visible = true := by simpa [isVisible, stack] using visible
      simp [kindsOf_cons_of_visible shown]

theorem Moves.trans {middle last : Walker} (first : walker.Moves middle)
    (second : middle.Moves last) : walker.Moves last := by
  rcases first with ⟨count, left, dropped | ⟨flush, replaced⟩⟩
  · rcases second with ⟨more, _, rest⟩
    refine ⟨count + more, fun flush => Nat.le_trans (left flush) (Nat.le_add_right _ _), ?_⟩
    rw [dropped, List.drop_drop] at rest
    exact rest
  · rcases second with ⟨more, gone, rest⟩
    have some := gone flush
    obtain ⟨fewer, rfl⟩ : ∃ fewer, more = fewer + 1 := ⟨more - 1, by omega⟩
    refine ⟨count + fewer, fun flush => Nat.le_trans (left flush) (Nat.le_add_right _ _), ?_⟩
    rw [← List.drop_tail, replaced, List.drop_drop] at rest
    exact rest

/-- What is entered from a node whose own place was left adds at most one visible node. -/
theorem Entered.kinds {nodes : Nat} {result : Bool × Walker}
    (entered : Entered root walker goal position nodes result) :
    result.2.kinds = walker.kinds ∨ (result.2.Flush ∧ result.2.kinds.tail = walker.kinds) := by
  cases found : result.1
  · exact Or.inl (entered.failure found).2.1
  · rcases entered.success found with ⟨_, same⟩ | flush
    · exact Or.inl same
    · exact Or.inr flush

/-- What an advance from one place to the next does. -/
structure Advanced (root : Tree) (kinds : List Nat) (flush : Prop) (position potential : Nat)
    (next : Walker) : Prop where
  stands : next.Stands root position
  moves : ∃ count, (flush → 1 ≤ count) ∧
    (next.kinds = kinds.drop count ∨ (next.Flush ∧ next.kinds.tail = kinds.drop count))
  fewer : next.potential < potential
  left : next.stack = [] → root.total.bytes ≤ position

/-- Going on to a sibling, or into it if it is hidden, from the node around it. -/
theorem sibling_spec (stands : walker.Stands root position) (content : walker.inPadding = false)
    (inhabited : walker.stack ≠ []) {entry : WalkEntry}
    (trace : Trace root (entry :: walker.stack)) (begun : entry.start.bytes ≤ position)
    (next : Walker)
    (step : next =
      if entry.tree.info.visible then
        if 0 < entry.tree.info.padding.bytes then { walker.pushed entry with inPadding := true }
        else { walker.pushed entry with depth := walker.depth + 1 }
      else ((walker.pushed entry).descend 0).2) :
    next.Stands root position ∧ next.stack ≠ [] ∧
      (next.kinds = walker.kinds ∨ (next.Flush ∧ next.kinds.tail = walker.kinds)) ∧
      next.potential <
        walker.potential + 2 * (entry.tree.count + Tree.countAll entry.later) := by
  have pushedPotential := potential_pushed entry content inhabited
  have nodes := entry.tree.count_eq
  split at step
  · rename_i visible
    split at step
    · subst step
      refine ⟨stands.push_padding content trace begun, by simp [pushed], Or.inl ?_, ?_⟩
      · simp [Walker.kinds, Walker.around, pushed, content]
      · simp only [potential, pushed, content, Bool.false_eq_true, if_false, if_true] at *
        omega
    · rename_i unpadded
      subst step
      have entered : entry.content ≤ position := by
        simp only [WalkEntry.content]
        omega
      refine ⟨stands.push_visible content trace visible entered, by simp [pushed],
        Or.inr ⟨⟨content, by simpa [isVisible, pushed] using visible⟩, ?_⟩, ?_⟩
      · simp [Walker.kinds, Walker.around, pushed, content, kindsOf_cons_of_visible visible]
      · change (walker.pushed entry).potential < _
        omega
  · rename_i hidden
    have hidden : entry.tree.info.visible = false := by simpa using hidden
    have below := stands.push_hidden content trace hidden begun
    have spec := descend_spec 0 below (Nat.zero_le _) content rfl
    have same := kinds_pushed_of_hidden content hidden
    have fewer := spec.fewer
    subst step
    refine ⟨spec.stands, spec.inhabited, ?_, by omega⟩
    rw [← same]
    exact spec.kinds

/-- Leaving the innermost node takes its symbol away if it is visible. -/
theorem exists_drop_of_leave (entry : WalkEntry) (around : List WalkEntry) {depth : Int}
    (deep : depth = (kindsOf (entry :: around)).length + surplus root) :
    ∃ gone, (entry.tree.info.visible = true → 1 ≤ gone) ∧
      kindsOf around = (kindsOf (entry :: around)).drop gone ∧
      (if entry.tree.info.visible then depth - 1 else depth) =
        (kindsOf around).length + surplus root := by
  cases visible : entry.tree.info.visible
  · refine ⟨0, nofun, (kindsOf_cons_of_hidden visible).symm, ?_⟩
    rw [deep, kindsOf_cons_of_hidden visible]
    rfl
  · refine ⟨1, fun _ => Nat.le_refl 1, by rw [kindsOf_cons_of_visible visible]; rfl, ?_⟩
    rw [deep, kindsOf_cons_of_visible visible]
    simp only [if_true, List.length_cons]
    omega

theorem leave_spec (rootLaid : root.Laid) {entry : WalkEntry} {around : List WalkEntry}
    (trace : Trace root (entry :: around)) {depth : Int}
    (deep : depth = (kindsOf (entry :: around)).length + surplus root)
    (begun : ∀ other ∈ around, other.start.bytes ≤ position)
    (entered : ∀ other ∈ around, other.tree.info.visible = true → other.content ≤ position)
    (passed : entry.stop ≤ position) :
    Advanced root (kindsOf (entry :: around)) (entry.tree.info.visible = true) position
      (1 + pending (entry :: around)) (leave depth (entry :: around)) := by
  induction around generalizing entry depth with
  | nil =>
      rcases exists_drop_of_leave entry [] deep with ⟨gone, some, rest, shallow⟩
      have outside : leave depth [entry] =
          ⟨[], if entry.tree.info.visible then depth - 1 else depth, false⟩ := by
        rw [leave]
      rw [outside, shallow]
      refine ⟨⟨nofun, by simp [kinds, Walker.around], nofun, by simp [Walker.around]⟩,
        ⟨gone, some, Or.inl ?_⟩, by simp only [potential]; omega, fun _ => ?_⟩
      · rw [← rest]
        simp [kinds, Walker.around]
      · cases trace with
        | root begins =>
            simp only [WalkEntry.stop] at passed
            omega
  | cons parent others ih =>
      rcases exists_drop_of_leave entry (parent :: others) deep with ⟨gone, some, rest, shallow⟩
      cases siblings : entry.later with
      | nil =>
          have step : leave depth (entry :: parent :: others) =
              leave (if entry.tree.info.visible then depth - 1 else depth) (parent :: others) := by
            rw [leave]
            exact siblings
          have outer := ih trace.outer shallow
            (fun other member => begun other (List.mem_cons_of_mem _ member))
            (fun other member => entered other (List.mem_cons_of_mem _ member))
            (by rw [← trace.stop_eq rootLaid siblings]; exact passed)
          rw [step]
          rcases outer.moves with ⟨count, _, moved⟩
          refine ⟨outer.stands, ⟨gone + count, fun visible => ?_, ?_⟩, ?_, outer.left⟩
          · exact Nat.le_trans (some visible) (Nat.le_add_right _ _)
          · rw [rest, List.drop_drop] at moved
            exact moved
          · have fewer := outer.fewer
            simp only [pending] at fewer ⊢
            omega
      | cons edge later =>
          rcases edge with ⟨field, next⟩
          -- the walker in the parent, from where the sibling is reached
          have stands : Walker.Stands root ⟨parent :: others,
              if entry.tree.info.visible then depth - 1 else depth, false⟩ position :=
            ⟨fun _ => trace.outer, shallow, begun, entered⟩
          have begins : (entry.start + entry.tree.total).bytes = entry.stop := rfl
          have there := sibling_spec stands rfl (by simp) (trace.next siblings begins)
            (by rw [begins]; exact passed) (leave depth (entry :: parent :: others)) (by
              unfold leave
              simp only [siblings]
              rfl)
          rcases there with ⟨stands, inhabited, kinds, fewer⟩
          refine ⟨stands, ⟨gone, some, ?_⟩, ?_, fun empty => absurd empty inhabited⟩
          · rw [← rest]
            exact kinds
          · simp only [potential, pending, siblings, Tree.countAll] at fewer ⊢
            simp only [Bool.false_eq_true, if_false] at fewer
            omega

section AdvancePadding

variable {entry : WalkEntry} {around : List WalkEntry}

/-- What is known of a walker that has passed the padding of the node it stands at. -/
theorem padding_passed (stands : walker.Stands root position)
    (stack : walker.stack = entry :: around) (padding : walker.inPadding = true)
    (passed : walker.stop.bytes ≤ position) :
    walker.kinds = kindsOf around ∧
      (∀ other ∈ entry :: around, other.tree.info.visible = true → other.content ≤ position) ∧
      walker.potential =
        1 + pending (entry :: around) + (2 * Tree.countAll entry.tree.children + 1) := by
  refine ⟨kinds_of_padding stack padding, ?_, by simp [Walker.potential, stack, padding]⟩
  rw [List.forall_mem_cons]
  refine ⟨fun _ => ?_, entered_of_padding stands stack padding⟩
  simpa [stop, stack, padding, WalkEntry.content] using passed

/-- From the padding of a visible node a walker goes to its content. -/
theorem advance_padding_visible (stands : walker.Stands root position)
    (stack : walker.stack = entry :: around) (padding : walker.inPadding = true)
    (passed : walker.stop.bytes ≤ position) (visible : entry.tree.info.visible = true) :
    Advanced root walker.kinds walker.Flush position walker.potential walker.advance := by
  rcases padding_passed stands stack padding passed with ⟨kinds, entered, potential⟩
  have notFlush : ¬walker.Flush := by simp [Flush, padding]
  have step : walker.advance = { walker with depth := walker.depth + 1, inPadding := false } := by
    simp [advance, padding, isVisible, stack, visible]
  have nextKinds : Walker.kinds { walker with depth := walker.depth + 1, inPadding := false } =
      entry.tree.info.symbol :: kindsOf around := by
    simp [Walker.kinds, Walker.around, stack, kindsOf_cons_of_visible visible]
  rw [step]
  refine ⟨⟨stands.trace, ?_, stands.begun, ?_⟩,
    ⟨0, fun flush => absurd flush notFlush, ?_⟩, ?_, ?_⟩
  · rw [nextKinds, List.length_cons]
    dsimp only
    rw [stands.depth, kinds]
    omega
  · simp only [Walker.around, Bool.false_eq_true, if_false, stack]
    exact entered
  · right
    refine ⟨⟨rfl, by simpa [isVisible, stack] using visible⟩, ?_⟩
    rw [nextKinds, kinds, List.tail_cons, List.drop_zero]
  · simp only [Walker.potential, stack, Bool.false_eq_true, if_false] at potential ⊢
    omega
  · intro empty
    simp [stack] at empty

/-- From the padding of a hidden node it goes on into the node. -/
theorem advance_padding_hidden (stands : walker.Stands root position)
    (stack : walker.stack = entry :: around) (padding : walker.inPadding = true)
    (passed : walker.stop.bytes ≤ position) (hidden : entry.tree.info.visible = false) :
    Advanced root walker.kinds walker.Flush position walker.potential walker.advance := by
  rcases padding_passed stands stack padding passed with ⟨kinds, entered, potential⟩
  have notFlush : ¬walker.Flush := by simp [Flush, padding]
  have insideKinds : Walker.kinds { walker with inPadding := false } = kindsOf around := by
    simp [Walker.kinds, Walker.around, stack, kindsOf_cons_of_hidden hidden]
  have inside : Walker.Stands root { walker with inPadding := false } position := by
    refine ⟨stands.trace, ?_, stands.begun, ?_⟩
    · rw [insideKinds, ← kinds]
      exact stands.depth
    · simp only [Walker.around, Bool.false_eq_true, if_false, stack]
      exact entered
  have step : walker.advance = (Walker.descend { walker with inPadding := false } 0).2 := by
    simp [advance, padding, isVisible, stack, hidden]
  have spec := descend_spec 0 inside (Nat.zero_le _) rfl stack
  have insidePotential : Walker.potential { walker with inPadding := false } =
      1 + pending (entry :: around) := by
    simp [Walker.potential, stack]
  have fewer := spec.fewer
  rw [step]
  refine ⟨spec.stands, ⟨0, fun flush => absurd flush notFlush, ?_⟩, by omega,
    fun empty => absurd empty spec.inhabited⟩
  rw [kinds, List.drop_zero, ← insideKinds]
  exact spec.kinds

end AdvancePadding

theorem advance_spec (rootLaid : root.Laid) (stands : walker.Stands root position)
    (inhabited : walker.stack ≠ []) (passed : walker.stop.bytes ≤ position) :
    Advanced root walker.kinds walker.Flush position walker.potential walker.advance := by
  cases stack : walker.stack with
  | nil => exact absurd stack inhabited
  | cons entry around =>
      cases padding : walker.inPadding
      · have trace := stands.trace inhabited
        rw [stack] at trace
        have same := around_of_content padding
        have kinds : walker.kinds = kindsOf (entry :: around) := by
          rw [Walker.kinds, same, stack]
        have flush : walker.Flush ↔ entry.tree.info.visible = true := by
          simp [Flush, padding, isVisible, stack]
        have step : walker.advance = leave walker.depth (entry :: around) := by
          simp [advance, padding, stack]
        have potential : walker.potential = 1 + pending (entry :: around) := by
          simp [Walker.potential, stack, padding]
        rw [step, kinds, flush, potential]
        apply leave_spec rootLaid trace
        · rw [← kinds]
          exact stands.depth
        · exact fun other member => stands.begun other (by simp [stack, member])
        · exact fun other member => stands.entered other (by simp [same, stack, member])
        · simpa [stop, stack, padding, WalkEntry.stop] using passed
      · cases visible : entry.tree.info.visible
        · exact advance_padding_hidden stands stack padding passed visible
        · exact advance_padding_visible stands stack padding passed visible

/-- A walker that was brought past a position: it stands there, or its tree ends there. -/
structure Past (root : Tree) (walker : Walker) (position : Nat) (next : Walker) : Prop where
  stands : next.Stands root position
  ahead : next.stack ≠ [] → position < next.stop.bytes
  moves : next = walker ∨ walker.Moves next
  left : walker.stack ≠ [] → next.stack = [] → root.total.bytes ≤ position
  stays : position < walker.stop.bytes → next = walker

theorem advancePast_spec (rootLaid : root.Laid) (stands : walker.Stands root position)
    {fuel : Nat} (enough : walker.potential < fuel) :
    ∃ next, advancePast position walker fuel = some next ∧ Past root walker position next := by
  induction fuel generalizing walker with
  | zero => omega
  | succ fuel ih =>
      rw [advancePast]
      split
      · rename_i behind
        simp only [isDone, Bool.and_eq_true, Bool.not_eq_true', List.isEmpty_eq_false_iff,
          decide_eq_true_eq] at behind
        rcases behind with ⟨inhabited, passed⟩
        have step := advance_spec rootLaid stands inhabited passed
        have fewer := step.fewer
        rcases ih step.stands (by omega) with ⟨next, run, past⟩
        refine ⟨next, run, past.stands, past.ahead, Or.inr ?_, fun _ empty => ?_, fun ahead => ?_⟩
        · rcases past.moves with rfl | moves
          · exact step.moves
          · exact Moves.trans step.moves moves
        · by_cases already : walker.advance.stack = []
          · exact step.left already
          · exact past.left already empty
        · omega
      · rename_i there
        refine ⟨walker, rfl, stands, fun inhabited => ?_, Or.inl rfl, fun inhabited empty => ?_,
          fun _ => rfl⟩
        · simpa [isDone, inhabited] using there
        · exact absurd empty inhabited

end Walker

end Reparse
