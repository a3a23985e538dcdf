import Reparse.Grammar.Arithmetic
import Reparse.Proofs.Document.Obtained
import Reparse.Proofs.Edit.Layout
import Reparse.Proofs.Edit.Marking
import Reparse.Proofs.Node.Current
import Reparse.Proofs.Node.Place
import Reparse.Proofs.Parse.Families

/-!
# What an edit marks

After an edit of a document the marked nodes are those that were marked before and those that the edit
touches: it begins before the end of what the node depended on, and ends behind the beginning of the
node's padding. At the ends of such a stretch the edit may or may not count as touching it.

Whoever looks for what changed in a tree goes down from the root and turns back at unmarked nodes. This
is right if a marked node never lies below an unmarked one (`Tree.MarkedAbove`). An edit keeps it so,
since it goes down through nodes that it marks, and a parse starts over with a tree without marks
(`Tree.Unmarked`): whatever it takes over from an older tree is unmarked, all the way down. So a node
around a marked node is marked (`Document.MarksGoUp`), and all that changed is found from the root.

One kind of node is passed over although the edit touches it: a node without text that looked at
nothing, such as a missing token, that begins where its parent does
(`Document.edit_passes_over_missing`).
-/

namespace Reparse

/-! ## Marks and the nodes around them -/

namespace Tree

/-- A node around a marked child is marked. -/
def IsMarkedAbove (info : Info) (children : List (Edge Tree)) : Prop :=
  ∀ edge ∈ children, edge.tree.info.changed = true → info.changed = true

/-- Every marked node has marked nodes around it. -/
def MarkedAbove (tree : Tree) : Prop := tree.Everywhere IsMarkedAbove

/-- No node is marked. -/
def Unmarked (tree : Tree) : Prop := tree.Everywhere fun info _ => info.changed = false

theorem Unmarked.info {tree : Tree} (unmarked : tree.Unmarked) : tree.info.changed = false := by
  cases tree with
  | node info children => exact (everywhere_node.mp unmarked).1

theorem MarkedAbove.children {tree : Tree} (above : tree.MarkedAbove) :
    Among MarkedAbove tree.children := by
  cases tree with
  | node info children => exact everywhereAmong_iff.mp (everywhere_node.mp above).2

theorem Unmarked.children {tree : Tree} (unmarked : tree.Unmarked) :
    Among Unmarked tree.children := by
  cases tree with
  | node info children => exact everywhereAmong_iff.mp (everywhere_node.mp unmarked).2

mutual

/-- A tree whose root is unmarked has no marks at all if they go up. -/
theorem MarkedAbove.unmarked : (tree : Tree) → tree.MarkedAbove → tree.info.changed = false →
    tree.Unmarked
  | node info children, above, unmarked => by
    rcases everywhere_node.mp above with ⟨here, among⟩
    refine everywhere_node.mpr ⟨unmarked, unmarkedAmong_of_above children among ?_⟩
    intro edge member
    cases child : edge.tree.info.changed with
    | false => rfl
    | true =>
        rw [info_node, here edge member child] at unmarked
        cases unmarked

theorem unmarkedAmong_of_above : (children : List (Edge Tree)) →
    EverywhereAmong IsMarkedAbove children →
      (∀ edge ∈ children, edge.tree.info.changed = false) →
        EverywhereAmong (fun info _ => info.changed = false) children
  | [], _, _ => everywhereAmong_nil
  | edge :: rest, above, unmarked => by
    rcases everywhereAmong_cons.mp above with ⟨here, later⟩
    rw [List.forall_mem_cons] at unmarked
    exact everywhereAmong_cons.mpr ⟨MarkedAbove.unmarked edge.tree here unmarked.1,
      unmarkedAmong_of_above rest later unmarked.2⟩

end

mutual

/-- Where there are no marks, they go up. -/
theorem Unmarked.markedAbove : (tree : Tree) → tree.Unmarked → tree.MarkedAbove
  | node info children, unmarked => by
    refine everywhere_node.mpr ⟨?_, markedAbove_of_unmarkedAmong children
      (everywhere_node.mp unmarked).2⟩
    intro edge member marked
    rw [(unmarked.children edge member).info] at marked
    cases marked

theorem markedAbove_of_unmarkedAmong : (children : List (Edge Tree)) →
    EverywhereAmong (fun info _ => info.changed = false) children →
      EverywhereAmong IsMarkedAbove children
  | [], _ => everywhereAmong_nil
  | edge :: rest, unmarked => by
    rcases everywhereAmong_cons.mp unmarked with ⟨here, later⟩
    exact everywhereAmong_cons.mpr ⟨Unmarked.markedAbove edge.tree here,
      markedAbove_of_unmarkedAmong rest later⟩

end

/-! ## Parses -/

/-- What is built of trees without marks has none. -/
theorem isHereditary_unmarked : IsHereditary Unmarked where
  ending _ := everywhere_node.mpr ⟨rfl, everywhereAmong_nil⟩
  unexpected _ _ _ _ := everywhere_node.mpr ⟨rfl, everywhereAmong_nil⟩
  missing _ _ := everywhere_node.mpr ⟨rfl, everywhereAmong_nil⟩
  branch among := everywhere_node.mpr ⟨rfl, everywhereAmong_iff.mpr among⟩
  children := Unmarked.children

/-- A parse takes over unmarked subtrees only. -/
theorem MarkedAbove.lends {tree : Tree} (above : tree.MarkedAbove) : tree.Lends Unmarked := by
  intro length position state found search
  rcases at_of_findReusable search with ⟨path, at_, suits⟩
  exact MarkedAbove.unmarked found (at_.everywhere above) suits.unmarked

/-! ## Edits -/

mutual

/-- An edit that comes to a node marks it, so marks go on to lie below marks. -/
theorem MarkedAbove.edit (edit : Edit) : (tree : Tree) → tree.MarkedAbove →
    (tree.edit edit).MarkedAbove
  | node info children, above => by
    by_cases before : info.isBefore edit = true
    · rw [edit_of_isBefore (node info children) before]
      exact above
    · rw [edit_of_not_isBefore (by simpa using before)]
      exact everywhere_node.mpr ⟨fun _ _ _ => Info.changed_reshape info edit,
        markedAbove_editChildren edit true Extent.zero children (everywhere_node.mp above).2⟩

theorem markedAbove_editChildren (edit : Edit) (first : Bool) (left : Extent) :
    (children : List (Edge Tree)) → EverywhereAmong IsMarkedAbove children →
      EverywhereAmong IsMarkedAbove (editChildren edit first left children)
  | [], above => above
  | ⟨field, child⟩ :: rest, above => by
    rcases everywhereAmong_cons.mp above with ⟨here, later⟩
    rw [editChildren]
    split
    · exact everywhereAmong_cons.mpr ⟨here, markedAbove_editChildren edit false _ rest later⟩
    · split
      · exact above
      · split
        · exact everywhereAmong_cons.mpr ⟨MarkedAbove.edit _ child here,
            markedAbove_editChildren _ false _ rest later⟩
        · exact everywhereAmong_cons.mpr ⟨MarkedAbove.edit _ child here,
            markedAbove_editChildren _ false _ rest later⟩

end

end Tree

/-- The tokens that a program scans are unmarked. -/
theorem ScanProgram.scansIn_unmarked (program : ScanProgram) : program.ScansIn Tree.Unmarked :=
  Tree.isHereditary_unmarked.scansIn
    (fun _ _ _ _ _ _ => Tree.everywhere_node.mpr ⟨rfl, Tree.everywhereAmong_nil⟩) program

/-! ## Nodes of a document -/

namespace Node

variable {tree : Tree} {node parent below : Node} {number : Nat} {path : List Nat}

/-- A child of an unmarked node is unmarked if marks go up. -/
theorem changed_of_placed (above : parent.tree.MarkedAbove)
    (placed : parent.placed? number = some node) (marked : node.info.changed = true) :
    parent.info.changed = true := by
  rcases parent with ⟨⟨info, children⟩, start, trail⟩
  have among : Tree.Among (fun child => child.info.changed = true → info.changed = true)
      children := (Tree.everywhere_node.mp above).1
  exact tree_in_of_placedAt among placed marked

/-- A node is marked if there is a marked one below it and marks go up. -/
theorem changed_of_follow (above : node.tree.MarkedAbove)
    (followed : node.follow path = some below) (marked : below.info.changed = true) :
    node.info.changed = true := by
  cases unmarked : node.info.changed with
  | true => rfl
  | false =>
      have all := Tree.MarkedAbove.unmarked node.tree above unmarked
      have none := (tree_in_of_follow (fun _ => Tree.Unmarked.children) all followed).info
      exact none.symm.trans marked

/-- On the way to a marked node all visible nodes are marked. -/
theorem changed_of_nearestVisible {nearest reached : Node} (above : node.tree.MarkedAbove)
    (marked : nearest.info.changed = true) (followed : node.follow path = some below)
    (changed : below.info.changed = true)
    (found : nearestVisible nearest node path = some reached) : reached.info.changed = true := by
  induction path generalizing nearest node with
  | nil =>
      simp only [nearestVisible, Option.some.injEq] at found
      exact found ▸ marked
  | cons number rest ih =>
      simp only [nearestVisible, follow] at found followed
      split at found
      · cases found
      · rename_i child placed
        rw [placed] at followed
        have inner : child.tree.MarkedAbove :=
          tree_in_of_placedAt above.children placed
        refine ih inner ?_ followed found
        split
        · exact changed_of_follow inner followed changed
        · exact marked

end Node

namespace Document

/-- The parent of a marked node is marked, the one in the tree and the visible one. -/
def MarksGoUp (document : Document) : Prop :=
  ∀ node : Node, node.LiesIn document.tree → node.info.changed = true →
    (∀ (parent : Node) (number : Nat), parent.LiesIn document.tree → parent.placed? number = some node →
      parent.info.changed = true) ∧
    ∀ parent : Node, node.parent? (Node.root document.tree) = some parent → parent.info.changed = true

variable {document : Document}

/-- Every document that can be come by has marked nodes around its marked nodes. -/
theorem Obtained.markedAbove (obtained : document.Obtained) : document.tree.MarkedAbove := by
  induction obtained with
  | parsed byInterface _ run ih =>
      refine Tree.Unmarked.markedAbove _ (Parser.in_parseIn_of_lends Tree.isHereditary_unmarked
        (ScanProgram.scansIn_unmarked _) byInterface ?_ run)
      exact fun document older => (ih document older).lends
  | edited _ _ ih => exact ih.edit _
  | copied _ ih => exact ih
  | handedOut _ node ih =>
      rw [tree_handOut]
      exact ih

theorem Obtained.marksGoUp (obtained : document.Obtained) : document.MarksGoUp := by
  have above := obtained.markedAbove
  intro node lies marked
  have direct (parent : Node) (number : Nat) (around : parent.LiesIn document.tree)
      (placed : parent.placed? number = some node) : parent.info.changed = true :=
    Node.changed_of_placed (around.tree_in (fun _ => Tree.MarkedAbove.children) above) placed marked
  refine ⟨direct, fun reached found => ?_⟩
  unfold Node.parent? at found
  split at found
  · cases found
  · rename_i number around inner
    rcases lies.exists_parent inner with ⟨parent, parentLies, rfl, placed⟩
    have changed := direct parent number parentLies placed
    have top : (Node.root document.tree).info.changed = true :=
      Node.changed_of_follow above parentLies changed
    exact Node.changed_of_nearestVisible above top parentLies changed found

/-- What an edit touches it marks, and nothing else; but a node without text that looked at nothing is
marked only if its parent begins before it. Marks go up before and after. -/
theorem edit_marks (obtained : document.Obtained) {edit : Edit} (forward : edit.Forward) :
    (∀ node : Node, node.LiesIn document.tree →
      ∃ after : Node, after.LiesIn (document.edit edit).tree ∧ after.trail = node.trail ∧
        (node.left < edit.oldStop.bytes →
          edit.start.bytes < node.stop.bytes + node.info.lookahead →
            (after.info.changed = true ↔
              node.info.changed = true ∨ 0 < node.tree.reach ∨
                ∃ (parent : Node) (number : Nat), parent.LiesIn document.tree ∧
                  parent.placed? number = some node ∧ parent.left < node.left)) ∧
        (node.info.changed = false → after.info.changed = true →
          node.left ≤ edit.oldStop.bytes ∧
            edit.start.bytes ≤ node.stop.bytes + node.info.lookahead)) ∧
      document.MarksGoUp ∧ (document.edit edit).MarksGoUp := by
  have sound := obtained.sound
  refine ⟨fun node lies => ?_, obtained.marksGoUp, (obtained.edited forward).marksGoUp⟩
  rcases Node.at_of_resolve sound.laid lies with ⟨offset, at_, start⟩
  rcases Tree.At.handed forward document.tree sound at_ with ⟨target, tree, edited, handed⟩
  rcases Node.exists_resolve (sound.edit forward).laid edited with ⟨after, resolved, rfl, _⟩
  have left := Node.left_eq start
  have stop := Node.stop_add_lookahead start
  have trail : after.trail = node.trail := by
    simpa [Node.root] using Node.trail_of_follow resolved
  refine ⟨after, Node.liesIn_of_resolve resolved, trail, fun ends begun => ?_,
    fun unmarked marked => ?_⟩
  · rw [left] at ends
    rw [stop] at begun
    refine (at_.changed_edit_iff forward sound edited begun ends).trans (or_congr_right
      (or_congr_right ⟨?_, ?_⟩))
    · rintro ⟨front, number, place, _, path, above, behind⟩
      rw [List.reverse_eq_append_iff, List.reverse_singleton, List.singleton_append] at path
      rcases lies.exists_parent path with ⟨parent, parentLies, parentTrail, placed⟩
      rcases Node.at_of_resolve sound.laid parentLies with ⟨_, parentAt, parentStart⟩
      rw [parentTrail, List.reverse_reverse] at parentAt
      obtain ⟨rfl, _⟩ := parentAt.unique above
      exact ⟨parent, number, parentLies, placed, by rw [left, Node.left_eq parentStart]; exact behind⟩
    · rintro ⟨parent, number, parentLies, placed, behind⟩
      rcases Node.at_of_resolve sound.laid parentLies with ⟨place, parentAt, parentStart⟩
      have inner := Node.trail_of_placedAt placed
      rw [left, Node.left_eq parentStart] at behind
      exact ⟨parent.trail.reverse, number, place, parent.tree, by simp [inner], parentAt, behind⟩
  · have touched := handed.touched unmarked marked
    omega

/-- The front of `1+2` is replaced: its first operand, which was unmarked, is marked. -/
theorem edit_marks_replaced :
    let edit : Edit := ⟨⟨0, 0, 0⟩, ⟨1, 0, 1⟩, ⟨2, 0, 2⟩⟩
    ∃ (result : Parsed) (node after : Node),
      Parser.new.parseIn (Language.arithmetic 0) #[49, 43, 50] none = .ok result ∧
      result.document.Obtained ∧ edit.Forward ∧
      node.LiesIn result.document.tree ∧ node.trail = [0, 0] ∧ node.info.changed = false ∧
      after.LiesIn (result.document.edit edit).tree ∧ after.trail = [0, 0] ∧
      after.info.changed = true ∧ (result.document.edit edit).MarksGoUp := by
  intro edit
  have facts : (match Parser.new.parseIn (Language.arithmetic 0) #[49, 43, 50] none with
      | .ok result =>
        (Node.resolve result.document.tree [0, 0]).any fun node =>
          !node.info.changed && decide (node.left < 1) && decide (0 < node.stop.bytes) &&
            decide (0 < node.tree.total.bytes)
      | .error _ => false) = true := by decide +kernel
  cases run : Parser.new.parseIn (Language.arithmetic 0) #[49, 43, 50] none with
  | error fault => simp [run] at facts
  | ok result =>
      simp only [run, Option.any_eq_true, Bool.and_eq_true, Bool.not_eq_true',
        decide_eq_true_eq] at facts
      rcases facts with ⟨node, resolved, ⟨⟨unmarked, left⟩, stop⟩, size⟩
      have obtained : result.document.Obtained := .fresh Arithmetic.byInterface_grammar run
      have forward : edit.Forward := ⟨by decide, by decide⟩
      have lies := Node.liesIn_of_resolve resolved
      have trail : node.trail = [0, 0] := Node.trail_of_follow resolved
      rcases edit_marks obtained forward with ⟨marks, _, goUp⟩
      rcases marks node lies with ⟨after, afterLies, same, marked, _⟩
      have some := Nat.lt_of_lt_of_le size node.tree.total_le_reach
      exact ⟨result, node, after, rfl, obtained, forward, lies, trail, unmarked, afterLies,
        same.trans trail,
        (marked left (Nat.lt_add_right _ stop)).mpr (Or.inr (Or.inl some)), goUp⟩

/-- The missing operand in `( )` stands at byte 1, where its expression begins. When bytes 0 and 1 are
taken away it is not marked, although the edit begins before it and ends behind it. -/
theorem edit_passes_over_missing :
    let edit : Edit := ⟨⟨0, 0, 0⟩, ⟨2, 0, 2⟩, ⟨0, 0, 0⟩⟩
    ∃ (result : Parsed) (node after : Node),
      Parser.new.parseIn (Language.arithmetic 0) #[40, 32, 41] none = .ok result ∧
      result.document.Obtained ∧ edit.Forward ∧ node.LiesIn result.document.tree ∧
      after.LiesIn (result.document.edit edit).tree ∧ after.trail = node.trail ∧
      node.left < edit.oldStop.bytes ∧ edit.start.bytes < node.stop.bytes + node.info.lookahead ∧
      after.info.changed = false := by
  intro edit
  have facts : (match Parser.new.parseIn (Language.arithmetic 0) #[40, 32, 41] none with
      | .ok result =>
        (Node.resolve result.document.tree [0, 1]).any fun node =>
          (Node.resolve (result.document.edit edit).tree [0, 1]).any fun after =>
            decide (node.left < 2) && decide (0 < node.stop.bytes + node.info.lookahead) &&
              !after.info.changed
      | .error _ => false) = true := by decide +kernel
  cases run : Parser.new.parseIn (Language.arithmetic 0) #[40, 32, 41] none with
  | error fault => simp [run] at facts
  | ok result =>
      simp only [run, Option.any_eq_true, Bool.and_eq_true, decide_eq_true_eq,
        Bool.not_eq_true'] at facts
      rcases facts with ⟨node, before, after, behind, ⟨left, stop⟩, unmarked⟩
      refine ⟨result, node, after, rfl, .fresh Arithmetic.byInterface_grammar run,
        ⟨by decide, by decide⟩, Node.liesIn_of_resolve before, Node.liesIn_of_resolve behind, ?_,
        left, stop, unmarked⟩
      rw [Node.trail_of_follow before, Node.trail_of_follow behind]
      rfl

end Document

end Reparse
