import Reparse.Proofs.Node.Order

/-!
# The smallest node around a stretch of text

The search for the smallest node around a stretch goes down from child to child. At every level it
passes over the children that do not end behind the beginning of the stretch or end before its end,
and enters the first other one, if that begins early enough. It never comes back, and need not: in a
tree that is laid out no child beside the one that it enters lies around the stretch, and below a
node that does not there is none that does (`Node.Encloses.of_follow`).

The search remembers the last relevant node on its way. The node that it comes to may be far below.
-/

namespace Reparse

namespace Node

/-- The node is shown, and it is named unless anonymous nodes are asked for as well. -/
def isRelevant (node : Node) (anonymous : Bool) : Bool :=
  node.isVisible && (anonymous || node.info.named)

/-- The node lies around a stretch and does not end where that begins. -/
structure Encloses (first stop : Nat) (node : Node) : Prop where
  begun : node.start.bytes ≤ first
  ended : stop ≤ node.stop.bytes
  past : first < node.stop.bytes

/-- No relevant node below the node encloses the stretch. -/
def IsInnermost (first stop : Nat) (anonymous : Bool) (node : Node) : Prop :=
  ∀ path below, path ≠ [] → node.follow path = some below → below.isRelevant anonymous = true →
    ¬below.Encloses first stop

/-- What the search below a node comes to: the best node so far, or a better one below. -/
inductive Smallest (first stop : Nat) (anonymous : Bool) (best node : Node) : Node → Prop where
  | kept (innermost : node.IsInnermost first stop anonymous) :
      Smallest first stop anonymous best node best
  | found {path : List Nat} {result : Node} (proper : path ≠ [])
      (followed : node.follow path = some result) (relevant : result.isRelevant anonymous = true)
      (encloses : result.Encloses first stop)
      (innermost : result.IsInnermost first stop anonymous) :
      Smallest first stop anonymous best node result

variable {tree : Tree} {node best here below result : Node} {first stop number index : Nat}
  {anonymous : Bool} {path : List Nat}

/-- The way down from a node begins with a step to a child. -/
theorem exists_placed_of_follow (proper : path ≠ []) (followed : node.follow path = some below) :
    ∃ number rest child, path = number :: rest ∧ node.placed? number = some child ∧
      child.follow rest = some below := by
  cases path with
  | nil => exact absurd rfl proper
  | cons number rest =>
      rcases follow_cons_iff.mp followed with ⟨child, placed, onward⟩
      exact ⟨number, rest, child, rfl, placed, onward⟩

/-- A node encloses what a node below it does. -/
theorem Encloses.of_follow (encloses : below.Encloses first stop) (laid : tree.Laid)
    (lies : node.LiesIn tree) (followed : node.follow path = some below) :
    node.Encloses first stop := by
  have within := lies.within_of_follow laid followed
  exact ⟨Nat.le_trans within.1 encloses.begun, Nat.le_trans encloses.ended within.2,
    Nat.lt_of_lt_of_le encloses.past within.2⟩

/-- Where no child encloses the stretch, nothing below does. -/
theorem isInnermost_of_children (laid : tree.Laid) (lies : node.LiesIn tree)
    (beside : ∀ number child, node.placed? number = some child → ¬child.Encloses first stop) :
    node.IsInnermost first stop anonymous := by
  intro path below proper followed _ encloses
  rcases exists_placed_of_follow proper followed with ⟨number, rest, child, rfl, placed, onward⟩
  exact beside number child placed (encloses.of_follow laid (lies.placed placed) onward)

/-- The search enters the only child that encloses the stretch. -/
theorem Smallest.enter (laid : tree.Laid) (lies : node.LiesIn tree)
    (placed : node.placed? index = some here) (encloses : here.Encloses first stop)
    (beside : ∀ number child, number ≠ index → node.placed? number = some child →
      ¬child.Encloses first stop)
    (sought : Smallest first stop anonymous
      (if here.isRelevant anonymous = true then here else best) here result) :
    Smallest first stop anonymous best node result := by
  cases sought with
  | kept innermost =>
      split
      · rename_i relevant
        have followed : node.follow [index] = some here := follow_cons_iff.mpr ⟨here, placed, rfl⟩
        exact .found (List.cons_ne_nil _ _) followed relevant encloses innermost
      · rename_i irrelevant
        refine .kept fun path below proper followed relevant inside => ?_
        rcases exists_placed_of_follow proper followed with
          ⟨number, rest, child, rfl, entered, onward⟩
        by_cases same : number = index
        · subst same
          obtain rfl : child = here := Option.some.inj (entered.symm.trans placed)
          cases rest with
          | nil =>
              obtain rfl : child = below := Option.some.inj onward
              exact irrelevant relevant
          | cons step rest =>
              exact innermost _ below (List.cons_ne_nil _ _) onward relevant inside
        · exact beside number child same entered
            (inside.of_follow laid (lies.placed entered) onward)
  | @found path result _ onward relevant inside innermost =>
      have followed : node.follow (index :: path) = some result :=
        follow_cons_iff.mpr ⟨here, placed, onward⟩
      exact .found (List.cons_ne_nil _ _) followed relevant inside innermost

/-! ## The search -/

/-- None of the first children encloses the stretch. -/
def PassedOver (first stop : Nat) (node : Node) (index : Nat) : Prop :=
  ∀ number child, number < index → node.placed? number = some child → ¬child.Encloses first stop

theorem PassedOver.next (passed : node.PassedOver first stop index)
    (placed : node.placed? index = some here) (outside : ¬here.Encloses first stop) :
    node.PassedOver first stop (index + 1) := by
  intro number child before entered
  rcases Nat.lt_or_eq_of_le (Nat.le_of_lt_succ before) with earlier | same
  · exact passed number child earlier entered
  · subst same
    exact Option.some.inj (entered.symm.trans placed) ▸ outside

/-- If the first child that is not passed over ends behind the beginning of the stretch, no child
beside it encloses the stretch: the later ones begin behind its end. -/
theorem PassedOver.beside {place : Extent} {field : Nat} {child : Tree} {rest : List (Edge Tree)}
    (passed : node.PassedOver first stop index)
    (onward : node.Onward index place (⟨field, child⟩ :: rest))
    (behind : first < (startOf index place child + child.info.size).bytes) (number : Nat)
    (other : Node) (apart : number ≠ index) (placed : node.placed? number = some other) :
    ¬other.Encloses first stop := by
  intro encloses
  rcases Nat.lt_or_gt_of_ne apart with earlier | later
  · exact passed number other earlier placed encloses
  · have begun := Nat.le_trans (onward.le_start later placed) encloses.begun
    exact Nat.not_lt_of_le begun behind

mutual

/-- In a tree that is laid out the search comes to the smallest relevant node below a node, or keeps
the best one so far if there is none. -/
theorem smallestBelow_smallest (laid : tree.Laid) (best node : Node) (lies : node.LiesIn tree) :
    (inner : Tree) → inner = node.tree → Smallest first stop anonymous best node
      (smallestBelow first stop anonymous best node.trail node.start inner)
  | .node info children, same => by
    have onward := onward_start node
    rw [← same] at onward
    rw [smallestBelow]
    exact smallestAmong_smallest laid best node 0 node.start lies children onward nofun

theorem smallestAmong_smallest (laid : tree.Laid) (best node : Node) (index : Nat) (place : Extent)
    (lies : node.LiesIn tree) : (edges : List (Edge Tree)) → node.Onward index place edges →
      node.PassedOver first stop index →
      Smallest first stop anonymous best node
        (smallestAmong first stop anonymous best node.trail index place edges)
  | [], onward, passed => by
    rw [smallestAmong]
    refine .kept (isInnermost_of_children laid lies fun number child placed => ?_)
    by_cases before : number < index
    · exact passed number child before placed
    · have last := onward (number - index)
      rw [show index + (number - index) = number by omega, placed] at last
      simp [placedAt] at last
  | ⟨field, child⟩ :: rest, onward, passed => by
    let here : Node := ⟨child, startOf index place child, index :: node.trail⟩
    have entered : node.placed? index = some here := onward.here
    rw [smallestAmong]
    dsimp only
    split
    · rename_i short
      have outside : ¬here.Encloses first stop := by
        intro encloses
        rcases short with short | short
        · exact Nat.not_le_of_lt short encloses.ended
        · exact Nat.not_lt_of_le short encloses.past
      exact smallestAmong_smallest laid best node (index + 1) _ lies rest onward.next
        (passed.next entered outside)
    · rename_i long
      rcases not_or.mp long with ⟨reaches, past⟩
      have behind := Nat.lt_of_not_le past
      have beside := passed.beside onward behind
      split
      · rename_i early
        refine .kept (isInnermost_of_children laid lies fun number other placed encloses => ?_)
        by_cases same : number = index
        · subst same
          obtain rfl : other = here := Option.some.inj (placed.symm.trans entered)
          exact Nat.not_lt_of_le encloses.begun early
        · exact beside number other same placed encloses
      · rename_i begun
        have encloses : here.Encloses first stop :=
          ⟨Nat.le_of_not_lt begun, Nat.le_of_not_lt reaches, behind⟩
        exact Smallest.enter laid lies entered encloses beside
          (smallestBelow_smallest laid _ here (lies.here onward) child rfl)

end

/-- In a tree that is laid out the search for a stretch within a node finds that node or a relevant
one below it. What it finds lies around the stretch, and no relevant node below it does that and
ends behind the beginning of the stretch. -/
theorem smallest_innermost (laid : tree.Laid) (lies : node.LiesIn tree) (anonymous : Bool)
    (begun : node.start.bytes ≤ first) (forward : first ≤ stop) (ended : stop ≤ node.stop.bytes) :
    ∃ result, node.smallest? first stop anonymous = some result ∧
      (result = node ∨ result.isRelevant anonymous = true ∧
        ∃ path, path ≠ [] ∧ node.follow path = some result) ∧
      result.start.bytes ≤ first ∧ stop ≤ result.stop.bytes ∧
      ∀ path below, path ≠ [] → result.follow path = some below →
        below.isRelevant anonymous = true →
        ¬(below.start.bytes ≤ first ∧ stop ≤ below.stop.bytes ∧ first < below.stop.bytes) := by
  have sought : Smallest first stop anonymous node node (node.smallest first stop anonymous) :=
    smallestBelow_smallest laid node node lies node.tree rfl
  refine ⟨node.smallest first stop anonymous, if_pos ⟨begun, forward, ended⟩, ?_⟩
  generalize node.smallest first stop anonymous = result at sought
  have around (inner : Node) (innermost : inner.IsInnermost first stop anonymous) :
      ∀ path below, path ≠ [] → inner.follow path = some below →
        below.isRelevant anonymous = true →
        ¬(below.start.bytes ≤ first ∧ stop ≤ below.stop.bytes ∧ first < below.stop.bytes) :=
    fun path below proper followed relevant inside =>
      innermost path below proper followed relevant ⟨inside.1, inside.2.1, inside.2.2⟩
  cases sought with
  | kept innermost => exact ⟨Or.inl rfl, begun, ended, around _ innermost⟩
  | found proper followed relevant encloses innermost =>
      exact ⟨Or.inr ⟨relevant, _, proper, followed⟩, encloses.begun, encloses.ended,
        around _ innermost⟩

/-- A token, a missing one and a hidden node around two more tokens: the second byte of the first
token in the hidden node. -/
theorem smallest_innermost_hidden :
    let token := Tree.leaf 1 Extent.zero ⟨2, 0, 2⟩ 0 .regular false
    let tree := Tree.branch 3 noState .regular [⟨0, token⟩, ⟨0, Tree.missing 1 .regular⟩,
      ⟨0, Tree.branch 2 noState .auxiliary [⟨0, token⟩, ⟨0, token⟩]⟩]
    tree.Laid ∧ (root tree).LiesIn tree ∧ (root tree).start.bytes ≤ 3 ∧ 3 ≤ 4 ∧
      4 ≤ (root tree).stop.bytes ∧
      ∃ result, (root tree).smallest? 3 4 false = some result ∧ result.start.bytes ≤ 3 ∧
        4 ≤ result.stop.bytes ∧ result.info.size.bytes = 2 := by
  intro token tree
  have laid : tree.Laid := by
    apply Tree.Sound.laid
    apply Tree.sound_branch
    have tokenSound : token.Sound := Tree.sound_of_childless _
    have missingSound : (Tree.missing 1 .regular).Sound := Tree.sound_of_childless _
    have pairSound : (Tree.branch 2 noState .auxiliary [⟨0, token⟩, ⟨0, token⟩]).Sound :=
      Tree.sound_branch (by simp [tokenSound])
    simp [tokenSound, missingSound, pairSound]
  have lies := liesIn_root tree
  have begins : (root tree).start.bytes ≤ 3 := by decide
  have forward : 3 ≤ 4 := by decide
  have ends : 4 ≤ (root tree).stop.bytes := by decide
  rcases smallest_innermost laid lies false begins forward ends with
    ⟨result, some, _, begun, ended, _⟩
  refine ⟨laid, lies, begins, forward, ends, result, some, begun, ended, ?_⟩
  have size : ((root tree).smallest? 3 4 false).map (·.info.size.bytes) = Option.some 2 := by decide
  rw [some] at size
  exact Option.some.inj size

end Node

end Reparse
