import Reparse.Proofs.Query.Siblings

/-!
# Moving backward and to a place

A cursor goes down to the last child that its node shows, back to the sibling shown before its node,
and down to the first child that ends behind a place. Where it comes to is told by what is shown
after it (`Cursor.Closes`): nothing at the last child, and the cursor's old node with all after it at
the sibling before.
-/

namespace Reparse

namespace Cursor

open Node (shownBelow shownFrom startOf placedAt placedFrom)

variable {cursor reached : Cursor} {node parent : Node} {around : List Node} {index number : Nat}
  {place : Extent} {edges : List (Edge Tree)} {behind : List Child}

/-- The cursor has come to a node that some others are shown after, and going up leads out of
`around` as it would from there. -/
structure Closes (behind : List Child) (around : List Node) (cursor : Cursor) : Prop where
  later : later cursor.node cursor.around = behind
  parent : climb cursor.around = climb around
  base : cursor.around.getLast? = around.getLast?
  visible : cursor.node.info.visible = true

theorem Closes.of_hidden (closes : cursor.Closes behind (node :: parent :: around))
    (hidden : ¬node.info.visible = true) : cursor.Closes behind (parent :: around) where
  later := closes.later
  parent := closes.parent.trans (climb_of_hidden hidden)
  base := closes.base.trans List.getLast?_cons_cons
  visible := closes.visible

theorem Closes.of_around (closes : cursor.Closes behind (parent :: around))
    (hidden : ¬node.info.visible = true) : cursor.Closes behind (node :: parent :: around) where
  later := closes.later
  parent := closes.parent.trans (climb_of_hidden hidden).symm
  base := closes.base.trans List.getLast?_cons_cons.symm
  visible := closes.visible

/-! ## The last child -/

mutual

theorem enterLast_spec (cursor : Cursor) : (inner : Tree) → inner = cursor.node.tree →
    inner.Counted →
      (shown cursor.node cursor.around = [] ∧ enterLast cursor inner = (false, cursor)) ∨
        ∃ next, enterLast cursor inner = (true, next) ∧
          next.Closes (beyond cursor.node cursor.around) (cursor.node :: cursor.around)
  | .node info children, same, counted => by
    have edges : cursor.node.tree.children.drop 0 = children := by rw [← same]; rfl
    have among := (Tree.everywhere_node.mp counted).2
    rw [enterLast, shown, ← same, shownBelow]
    rcases enterLastAmong_spec cursor 0 cursor.node.start children edges among with
      ⟨empty, none⟩ | ⟨next, entered, closes⟩
    · rw [none]
      exact Or.inl ⟨empty, rfl⟩
    · rw [entered]
      exact Or.inr ⟨next, rfl, closes⟩

theorem enterLastAmong_spec (cursor : Cursor) (index : Nat) (place : Extent) :
    (edges : List (Edge Tree)) → cursor.node.tree.children.drop index = edges →
      Tree.EverywhereAmong Tree.IsCounted edges →
        (shownFrom cursor.node.trail index place (handedDown cursor.node cursor.around) edges = [] ∧
            enterLastAmong cursor index place edges = none) ∨
          ∃ next, enterLastAmong cursor index place edges = some (true, next) ∧
            next.Closes (beyond cursor.node cursor.around) (cursor.node :: cursor.around)
  | [], _, _ => by
    rw [shownFrom, enterLastAmong]
    exact Or.inl ⟨rfl, rfl⟩
  | ⟨own, child⟩ :: rest, dropped, counted => by
    rcases Tree.everywhereAmong_cons.mp counted with ⟨here, behind⟩
    let entered := cursor.push ⟨child, startOf index place child, index :: cursor.node.trail⟩
    have after := later_child cursor.around dropped (startOf index place child)
    rw [enterLastAmong]
    rcases enterLastAmong_spec cursor (index + 1) (startOf index place child + child.info.size) rest
      (drop_succ dropped) behind with ⟨empty, none⟩ | ⟨next, entered, closes⟩
    · -- nothing is shown behind this child
      rw [empty, List.nil_append] at after
      rw [none, shownFrom_cons cursor.around here dropped, empty, List.append_nil]
      dsimp only
      split
      · rename_i visible
        exact Or.inr ⟨entered, rfl, after, rfl, rfl, visible⟩
      · rename_i hidden
        have hidden : ¬entered.node.info.visible = true := hidden
        have share : ownShare entered.node entered.around = _ := ownShare_of_hidden hidden
        have below := enterLast_spec entered child rfl here
        have outer : beyond entered.node entered.around = _ :=
          (beyond_of_hidden hidden).trans after
        rw [outer] at below
        have shows := Node.shownBelow_ne_nil here entered.node.trail entered.node.start
          (handedDown entered.node entered.around)
        split
        · rename_i some_
          rcases below with ⟨none, _⟩ | ⟨next, moved, closes⟩
          · exact absurd none (shows.mpr some_)
          · exact Or.inr ⟨next, congrArg some moved, closes.of_hidden hidden⟩
        · rename_i none_
          refine Or.inl ⟨share.trans ?_, rfl⟩
          by_contra some_
          exact none_ (shows.mp some_)
    · rw [entered]
      exact Or.inr ⟨next, rfl, closes⟩

end

/-- A cursor goes down to the last child that its node shows, if there is one. -/
theorem lastChild_spec (cursor : Cursor) (counted : cursor.node.tree.Counted) :
    (shown cursor.node cursor.around = [] ∧ cursor.lastChild = (false, cursor)) ∨
      ∃ next, cursor.lastChild = (true, next) ∧
        next.Closes (beyond cursor.node cursor.around) (cursor.node :: cursor.around) :=
  enterLast_spec cursor cursor.node.tree rfl counted

/-! ## The sibling before -/

/-- What is shown behind a child of a node, inside the node. -/
def shownBehind (parent node : Node) (around : List Node) : List Child :=
  shownFrom parent.trail (Cursor.number node + 1) node.stop (handedDown parent around)
    (parent.tree.children.drop (Cursor.number node + 1))

theorem later_eq (node parent : Node) (around : List Node) :
    later node (parent :: around) = shownBehind parent node around ++ beyond parent around := rfl

/-- The reachable child before a child comes just before the share of that, and where there is none
nothing is shown before the share. -/
theorem reachable_before (around : List Node)
    (dropped : parent.tree.children.drop index = edges)
    (counted : Tree.EverywhereAmong Tree.IsCounted edges)
    (placed : placedAt parent.trail index place number edges = some node) :
    let search := (placedFrom parent.trail index place (edges.take number)).reverse.find?
      fun child => isReachable child.node.info
    let rest := ownShare node (parent :: around) ++ shownBehind parent node around
    (search = none ∧
        shownFrom parent.trail index place (handedDown parent around) edges = rest) ∨
      ∃ found, search = some found ∧ isReachable found.node.info = true ∧
        found.node.tree.Counted ∧ shownBehind parent found.node around = rest := by
  intro search rest
  induction edges generalizing index number place with
  | nil => simp [placedAt] at placed
  | cons edge edges ih =>
      rcases edge with ⟨own, child⟩
      rcases Tree.everywhereAmong_cons.mp counted with ⟨here, after⟩
      have split : shownFrom parent.trail index place _ _ = _ :=
        shownFrom_cons around here dropped
      cases number with
      | zero =>
          simp only [placedAt, Option.some.injEq] at placed
          subst placed
          refine Or.inl ⟨rfl, split.trans ?_⟩
          simp only [rest, shownBehind, Cursor.number, List.headD_cons, drop_succ dropped]
          rfl
      | succ number =>
          have onward := drop_succ dropped
          let passed : Node := ⟨child, startOf index place child, index :: parent.trail⟩
          have step : search = ((placedFrom parent.trail (index + 1)
              (startOf index place child + child.info.size) (edges.take number)).reverse.find?
                fun child => isReachable child.node.info).or
                  (if isReachable passed.info then some ⟨passed, own⟩ else none) := by
            simp only [search, List.take_succ_cons, placedFrom, List.reverse_cons,
              List.find?_append, List.find?_singleton]
            rfl
          rw [step]
          rcases ih onward after placed with ⟨none, shows⟩ | ⟨found, search, reachable⟩
          · rw [none, Option.none_or]
            have behind : shownBehind parent passed around = rest := by
              rw [← shows]
              simp only [shownBehind, Cursor.number, passed, List.headD_cons, onward]
              rfl
            split
            · rename_i reachable
              exact Or.inr ⟨_, rfl, reachable, here, behind⟩
            · rename_i unreachable
              refine Or.inl ⟨rfl, split.trans ?_⟩
              simp only [isReachable, Bool.or_eq_true, decide_eq_true_eq, not_or] at unreachable
              have hidden : ¬passed.info.visible = true := unreachable.1
              have empty : shown passed (parent :: around) = [] := by
                by_contra some_
                exact unreachable.2 ((Node.shownBelow_ne_nil here _ _ _).mp some_)
              rw [ownShare_of_hidden hidden, empty, List.nil_append]
              exact shows
          · rw [search, Option.some_or]
            exact Or.inr ⟨found, rfl, reachable⟩

theorem reachableBefore_spec (around : List Node) (counted : parent.tree.Counted)
    (child : IsChild parent node) :
    let rest := ownShare node (parent :: around) ++ shownBehind parent node around
    (reachableBefore parent node = none ∧ shown parent around = rest) ∨
      ∃ found, reachableBefore parent node = some found ∧ isReachable found.info = true ∧
        found.tree.Counted ∧ shownBehind parent found around = rest := by
  intro rest
  have edges : parent.tree.children.drop 0 = parent.tree.children := rfl
  have among := countedAmong_drop counted 0
  rw [shown_eq, reachableBefore]
  rcases reachable_before around edges among child with ⟨none, shows⟩ | ⟨found, search, reachable⟩
  · exact Or.inl ⟨by rw [none]; rfl, shows⟩
  · exact Or.inr ⟨found.node, by rw [search]; rfl, reachable⟩

/-- The search for a sibling before comes to the node that is shown before the share of a node, and
where it finds none nothing is shown before the share by the node that is climbed to. -/
theorem sideways_before (node : Node) {tree : Tree} (counted : CountedAll around)
    (chained : Chained tree node around) (climbed : climb around = some reached) :
    (sideways reachableBefore node around = none ∧
        reached.node.children = ownShare node around ++ later node around) ∨
      ∃ found next, sideways reachableBefore node around = some found ∧
        (if found.node.info.visible then found else found.lastChild.2) = next ∧
        next.Closes (ownShare node around ++ later node around) around := by
  induction around generalizing node with
  | nil => simp [climb] at climbed
  | cons parent rest ih =>
      rcases List.forall_mem_cons.mp counted with ⟨here, above⟩
      rw [sideways, later_eq, ← List.append_assoc]
      rcases reachableBefore_spec rest here chained.1 with
        ⟨none, shows⟩ | ⟨found, search, reachable, counts, behind⟩
      · rw [none, ← shows]
        by_cases passes : isParent parent rest = true
        · rw [climb_of_parent passes, Option.some.injEq] at climbed
          rw [← climbed, beyond, if_pos passes, List.append_nil, ← shown_of_isParent passes]
          exact Or.inl ⟨if_pos passes, rfl⟩
        · rcases hidden_of_not_isParent passes with ⟨hidden, outer, rest, rfl⟩
          rw [climb_of_hidden hidden] at climbed
          have outside : ¬(List.isEmpty (outer :: rest) || parent.info.visible) = true :=
            passes
          rw [beyond_of_hidden hidden, ← ownShare_of_hidden hidden, if_neg outside]
          rcases ih parent above chained.2 climbed with stays | ⟨found, next, search, moved, closes⟩
          · exact Or.inl stays
          · exact Or.inr ⟨found, next, search, moved, closes.of_around hidden⟩
      · have place : later found (parent :: rest) =
            (ownShare node (parent :: rest) ++ shownBehind parent node rest) ++
              beyond parent rest := by
          rw [later_eq, behind]
        rw [search]
        by_cases visible : found.info.visible = true
        · exact Or.inr ⟨_, _, rfl, if_pos visible, place, rfl, rfl, visible⟩
        · have some_ : 0 < found.info.visibleChildren := by
            simpa [isReachable, visible] using reachable
          have outer : beyond found (parent :: rest) = _ := (beyond_of_hidden visible).trans place
          rcases lastChild_spec ⟨found, parent :: rest⟩ counts with
            ⟨none, _⟩ | ⟨next, entered, closes⟩
          · exact absurd none ((Node.shownBelow_ne_nil counts _ _ _).mpr some_)
          · rw [outer] at closes
            refine Or.inr ⟨_, next, rfl, ?_, closes.of_hidden visible⟩
            rw [if_neg visible, entered]

/-- A cursor goes back to the node that is shown before its own, if there is one. -/
theorem previousSibling_spec (cursor : Cursor) {tree : Tree} (counted : CountedAll cursor.around)
    (lies : cursor.LiesIn tree) (visible : cursor.node.info.visible = true)
    (climbed : climb cursor.around = some reached) :
    (cursor.previousSibling = (false, cursor) ∧
        reached.node.children = cursor.here :: later cursor.node cursor.around) ∨
      ∃ next, cursor.previousSibling = (true, next) ∧
        next.Closes (cursor.here :: later cursor.node cursor.around) cursor.around := by
  have share : ownShare cursor.node cursor.around = [cursor.here] := if_pos visible
  rw [previousSibling]
  rcases sideways_before cursor.node counted lies climbed with
    ⟨none, first⟩ | ⟨found, next, search, moved, closes⟩
  · rw [none]
    rw [share] at first
    exact Or.inl ⟨rfl, first⟩
  · rw [search]
    rw [share] at closes
    refine Or.inr ⟨next, ?_, closes⟩
    rw [← moved]
    dsimp only
    split <;> rfl

/-! ## The first child behind a place -/

section Seek

variable {goal : Nat} {goalPoint : Point} {next : Cursor} {count : Nat}

/-- The cursor has come from inside `around` to one of some nodes that are shown, at the number that
is left of `count` after `passed` others, and the node ends behind the goals. -/
structure Hits (goal : Nat) (goalPoint : Point) (shown : List Child) (around : List Node)
    (passed count : Nat) (cursor : Cursor) : Prop where
  shown : ∃ before after, shown = before ++ cursor.here :: after ∧ count = passed + before.length
  base : cursor.around.getLast? = around.getLast?
  visible : cursor.node.info.visible = true
  byte : goal < cursor.node.stop.bytes
  point : goalPoint.before cursor.node.stop.point = true

theorem Hits.past {shown : List Child} {passed : Nat} {others : List Child}
    (hits : next.Hits goal goalPoint shown around (passed + others.length) count) :
    next.Hits goal goalPoint (others ++ shown) around passed count where
  shown := by
    rcases hits.shown with ⟨before, after, rfl, number⟩
    refine ⟨others ++ before, after, (List.append_assoc _ _ _).symm, ?_⟩
    rw [List.length_append, number, Nat.add_assoc]
  base := hits.base
  visible := hits.visible
  byte := hits.byte
  point := hits.point

theorem Hits.inside {shown : List Child} {passed : Nat} (others : List Child)
    (hits : next.Hits goal goalPoint shown (node :: parent :: around) passed count) :
    next.Hits goal goalPoint (shown ++ others) (parent :: around) passed count where
  shown := by
    rcases hits.shown with ⟨before, after, rfl, number⟩
    exact ⟨before, after ++ others, by simp, number⟩
  base := hits.base.trans List.getLast?_cons_cons
  visible := hits.visible
  byte := hits.byte
  point := hits.point

mutual

theorem seek_hits (cursor : Cursor) (passed : Nat) : (inner : Tree) → inner = cursor.node.tree →
    inner.Counted → seek goal goalPoint passed cursor inner = some (count, next) →
      next.Hits goal goalPoint (shown cursor.node cursor.around) (cursor.node :: cursor.around) passed
        count
  | .node info children, same, counted, found => by
    have edges : cursor.node.tree.children.drop 0 = children := by rw [← same]; rfl
    have among := (Tree.everywhere_node.mp counted).2
    rw [seek] at found
    rw [shown, ← same, shownBelow]
    exact seekAmong_hits cursor passed 0 cursor.node.start children edges among found

theorem seekAmong_hits (cursor : Cursor) (passed index : Nat) (place : Extent) :
    (edges : List (Edge Tree)) → cursor.node.tree.children.drop index = edges →
      Tree.EverywhereAmong Tree.IsCounted edges →
        seekAmong goal goalPoint passed cursor index place edges = some (count, next) →
          next.Hits goal goalPoint
            (shownFrom cursor.node.trail index place (handedDown cursor.node cursor.around) edges)
            (cursor.node :: cursor.around) passed count
  | [], _, _, found => by
    rw [seekAmong] at found
    cases found
  | ⟨own, child⟩ :: rest, dropped, counted, found => by
    rcases Tree.everywhereAmong_cons.mp counted with ⟨here, behind⟩
    let entered := cursor.push ⟨child, startOf index place child, index :: cursor.node.trail⟩
    have later (passed : Nat) := seekAmong_hits cursor passed (index + 1)
      (startOf index place child + child.info.size) rest (drop_succ dropped) behind
    have split : shownFrom cursor.node.trail index place _ (⟨own, child⟩ :: rest) =
        ownShare entered.node entered.around ++ _ := shownFrom_cons cursor.around here dropped
    rw [split]
    rw [seekAmong] at found
    dsimp only at found
    by_cases visible : child.info.visible = true
    · have share : ownShare entered.node entered.around = [entered.here] := if_pos visible
      rw [if_pos visible, if_pos visible] at found
      rw [share]
      split at found
      · rename_i reached
        cases found
        exact ⟨⟨[], _, rfl, rfl⟩, rfl, visible, reached.1, reached.2⟩
      · exact Hits.past (later _ found)
    · have hidden : ¬entered.node.info.visible = true := visible
      have width : (shown entered.node entered.around).length = child.info.visibleChildren :=
        Node.length_shownBelow _ _ _ child here
      rw [if_neg visible, if_neg visible] at found
      rw [ownShare_of_hidden hidden]
      split at found
      · split at found
        · exact (seek_hits entered passed child rfl here found).inside _
        · rename_i none_
          refine Hits.past ?_
          rw [width, Nat.eq_zero_of_not_pos none_]
          exact later _ found
      · refine Hits.past ?_
        rw [width]
        exact later _ found

end

end Seek

/-! ## Depth -/

theorem depth_cons (node parent : Node) (around : List Node) :
    (⟨node, parent :: around⟩ : Cursor).depth =
      (⟨parent, around⟩ : Cursor).depth + if node.info.visible then 1 else 0 := by
  simp only [depth, List.dropLast_cons_cons, List.filter_cons]
  split <;> rfl

theorem depth_of_climb_self (climbed : climb (node :: around) = some reached) :
    (⟨node, around⟩ : Cursor).depth = reached.depth := by
  induction around generalizing node with
  | nil =>
      simp only [climb, Option.some.injEq] at climbed
      rw [climbed]
  | cons parent rest ih =>
      by_cases visible : node.info.visible = true
      · rw [climb_of_parent (isParent_of_visible visible), Option.some.injEq] at climbed
        rw [climbed]
      · rw [climb_of_hidden visible] at climbed
        rw [depth_cons, if_neg visible, ih climbed, Nat.add_zero]

/-- A visible node is one step deeper than the one that a cursor climbs to from it. -/
theorem depth_of_climb (visible : node.info.visible = true) (climbed : climb around = some reached) :
    (⟨node, around⟩ : Cursor).depth = reached.depth + 1 := by
  cases around with
  | nil => simp [climb] at climbed
  | cons parent rest => rw [depth_cons, if_pos visible, depth_of_climb_self climbed]

end Cursor

end Reparse
