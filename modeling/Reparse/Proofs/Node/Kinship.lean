import Reparse.Proofs.Document.Summaries
import Reparse.Proofs.Workspace.Walks

/-!
# Parents, children and siblings

The children of a node are found by going down through hidden nodes, the parent by following the
node's path from the root, and siblings by looking for the path among the children of the parent. In
a tree with right counts the three agree (`Node.IsAtHome`): every node shown below a node has it for
its parent (`Node.parent?_of_mem_children`), its siblings are the children before and after it, and
every visible node is a child of its parent, once (`Node.exists_parent_of_visible`).
-/

namespace Reparse

namespace Node

variable {tree : Tree} {node above parent : Node} {number : Nat} {before after : List Child}
  {child : Child}

/-- The first named node among some children, if any of them is named. -/
def IsFirstNamed (among : List Child) : Option Node → Prop
  | none => ∀ child ∈ among, child.node.info.named = false
  | some node => ∃ before child after, among = before ++ child :: after ∧ child.node = node ∧
      child.node.info.named = true ∧ ∀ other ∈ before, other.node.info.named = false

/-- What navigation tells of a node, of its children and of its parent is consistent. -/
structure IsAtHome (node root : Node) : Prop where
  parent : ∀ child ∈ node.children, child.node.parent? root = some node
  next : ∀ before child after, node.children = before ++ child :: after →
    child.node.next? root false = after.head?.map (·.node)
  previous : ∀ before child after, node.children = before ++ child :: after →
    child.node.previous? root false = before.getLast?.map (·.node)
  nextNamed : ∀ before child after, node.children = before ++ child :: after →
    IsFirstNamed after (child.node.next? root true)
  previousNamed : ∀ before child after, node.children = before ++ child :: after →
    IsFirstNamed before.reverse (child.node.previous? root true)
  child : ∀ number, node.child? number false = node.children[number]?
  namedChild : ∀ number,
    node.child? number true = (node.children.filter fun child => child.node.info.named)[number]?
  ordered : node.children.Pairwise fun left right => left.node.path < right.node.path
  /-- The node occurs once among the children of its parent. -/
  once : node.isRoot = false → ∃ above before child after, node.parent? root = some above ∧
    above.isVisible = true ∧ above.children = before ++ child :: after ∧ child.node = node ∧
    ∀ other ∈ before ++ after, other.node.path ≠ node.path

/-! ## The parent of a child -/

/-- The parent of a child, hidden or not, is the nearest visible node at or around the node it is a
child of. -/
theorem parent?_of_placed (placed : parent.placed? number = some node) :
    node.parent? (root tree) = nearest? tree parent := by
  have trail : node.trail = number :: parent.trail := by
    rw [trail_of_placedAt placed, Nat.zero_add]
  rw [parent?, trail, nearest?]

mutual

theorem parent?_of_shownBelow (node : Node) (inherited : Nat) (lies : node.LiesIn tree)
    (nearest : nearest? tree node = some above) : (inner : Tree) → inner = node.tree →
      ∀ child ∈ shownBelow node.trail node.start inherited inner,
        child.node.parent? (root tree) = some above
  | .node info children, same => by
    have onward := onward_start node
    rw [← same] at onward
    rw [shownBelow]
    exact parent?_of_shownFrom node 0 node.start inherited lies nearest children onward

/-- All nodes that a node shows have the same parent: hidden nodes on the way are none. -/
theorem parent?_of_shownFrom (node : Node) (index : Nat) (place : Extent) (inherited : Nat)
    (lies : node.LiesIn tree) (nearest : nearest? tree node = some above) :
    (edges : List (Edge Tree)) → node.Onward index place edges →
      ∀ child ∈ shownFrom node.trail index place inherited edges,
        child.node.parent? (root tree) = some above
  | [], _ => by simp [shownFrom]
  | ⟨own, child⟩ :: rest, onward => by
    have placed := onward.here
    have later (inherited : Nat) := parent?_of_shownFrom node (index + 1)
      (startOf index place child + child.info.size) inherited lies nearest rest onward.next
    rw [shownFrom]
    split
    · exact List.forall_mem_cons.mpr ⟨(parent?_of_placed placed).trans nearest, later _⟩
    · rename_i hidden
      have same := (nearest?_of_placed lies placed).trans (if_neg hidden)
      split
      · exact List.forall_mem_append.mpr ⟨parent?_of_shownBelow
          ⟨child, startOf index place child, index :: node.trail⟩ _ (lies.here onward)
          (same.trans nearest) child rfl, later _⟩
      · exact later _

end

theorem parent?_of_mem_children (lies : node.LiesIn tree) (visible : node.isVisible = true)
    (member : child ∈ node.children) : child.node.parent? (root tree) = some node :=
  parent?_of_shownFrom node 0 node.start 0 lies (nearest?_of_visible lies visible)
    node.tree.children node.onward_start child member

/-! ## The siblings of a child -/

/-- The siblings of a child are the children before it and those after it. -/
theorem siblings?_of_children (lies : node.LiesIn tree) (visible : node.isVisible = true)
    (split : node.children = before ++ child :: after) :
    child.node.siblings? (root tree) = some (before, after) := by
  have member : child ∈ node.children := by
    rw [split]
    exact List.mem_append_right _ List.mem_cons_self
  have distinct := node.distinct_children
  rw [split] at distinct
  have front : ∀ sibling ∈ before, (sibling.node.trail != child.node.trail) = true := by
    intro sibling among
    have apart := (List.pairwise_append.mp distinct).2.2 sibling among child List.mem_cons_self
    simpa using apart
  rw [siblings?, parent?_of_mem_children lies visible member]
  dsimp only
  rw [split, List.span_eq_takeWhile_dropWhile, List.takeWhile_append_of_pos front,
    List.dropWhile_append_of_pos front]
  simp

/-- A search for a named node finds the first one. -/
theorem isFirstNamed_find (among : List Child) :
    IsFirstNamed among
      ((among.find? fun child => !true || child.node.info.named).map (·.node)) := by
  cases search : among.find? fun child => !true || child.node.info.named with
  | none =>
      intro child member
      simpa using List.find?_eq_none.mp search child member
  | some found =>
      rcases List.find?_eq_some_iff_append.mp search with ⟨named, before, after, split, others⟩
      refine ⟨before, found, after, split, rfl, by simpa using named, fun other member => ?_⟩
      simpa using others other member

/-! ## The way up -/

/-- A node that lies in a tree has the nodes around it on a chain up to the root. -/
theorem exists_chained (lies : node.LiesIn tree) :
    ∃ around, Cursor.Chained tree node around ∧ (node :: around).getLast? = some (root tree) := by
  induction up : node.trail generalizing node with
  | nil =>
      have same : root tree = node := by
        rw [LiesIn, up] at lies
        exact Option.some.inj lies
      exact ⟨[], lies, congrArg some same.symm⟩
  | cons number trail ih =>
      rcases lies.exists_parent up with ⟨parent, above, onward, placed⟩
      rcases ih above onward with ⟨around, chained, base⟩
      refine ⟨parent :: around, ⟨Cursor.isChild_of_placed placed, chained⟩, ?_⟩
      rwa [List.getLast?_cons_cons]

/-- A visible node other than the root stands among the children of its parent. -/
theorem exists_parent_of_visible (counted : tree.Counted) (lies : node.LiesIn tree)
    (inner : node.isRoot = false) (visible : node.isVisible = true) :
    ∃ above before child after, node.parent? (root tree) = some above ∧
      above.isVisible = true ∧ above.children = before ++ child :: after ∧ child.node = node := by
  have shows : node.info.visible = true := by simpa [isVisible, inner] using visible
  rcases exists_chained lies with ⟨around, chained, base⟩
  have walks : (⟨node, around⟩ : Cursor).Walks tree (root tree) :=
    ⟨counted, rfl, chained, base, fun _ => shows⟩
  have other : node ≠ root tree := by
    rintro rfl
    cases inner
  rcases walks.goes_beside other with ⟨above, before, after, climbed, _, parent, split, _⟩
  have up := walks.parent
  rw [climbed] at up
  refine ⟨above.node, before, _, after, parent, ?_, split, rfl⟩
  by_cases top : above.around = []
  · rw [up.node_eq_iff.mpr top]
    rfl
  · simp [isVisible, up.visible top]

/-- In a tree with right counts navigation is consistent at the root and at every visible node. -/
theorem isAtHome (counted : tree.Counted) (lies : node.LiesIn tree)
    (visible : node.isVisible = true) : node.IsAtHome (root tree) where
  parent child member := parent?_of_mem_children lies visible member
  next before child after split := by
    rw [next?, siblings?_of_children lies visible split]
    cases after <;> rfl
  previous before child after split := by
    rw [previous?, siblings?_of_children lies visible split, ← List.head?_reverse]
    dsimp only
    cases before.reverse <;> rfl
  nextNamed before child after split := by
    rw [next?, siblings?_of_children lies visible split]
    exact isFirstNamed_find after
  previousNamed before child after split := by
    rw [previous?, siblings?_of_children lies visible split]
    exact isFirstNamed_find before.reverse
  child number := by simp [child?, childrenOf]
  namedChild number := by simp [child?, childrenOf]
  ordered := node.ordered_children
  once inner := by
    rcases exists_parent_of_visible counted lies inner visible with
      ⟨above, before, child, after, parent, shown, split, rfl⟩
    refine ⟨above, before, child, after, parent, shown, split, rfl, fun other member same => ?_⟩
    have order := above.ordered_children
    rw [split] at order
    rcases List.mem_append.mp member with earlier | later
    · have less := (List.pairwise_append.mp order).2.2 other earlier child List.mem_cons_self
      exact List.lt_irrefl _ (same ▸ less)
    · have behind := (List.pairwise_append.mp order).2.1
      have less := (List.pairwise_cons.mp behind).1 other later
      exact List.lt_irrefl _ (same ▸ less)

end Node

namespace Document

/-- Counts are right in the documents of all languages whose grammars go by the interface. -/
theorem counted_of_obtainedIn {document : Document}
    (obtained : document.ObtainedIn fun language => Parsing.ByInterface language.grammar) :
    document.tree.Counted :=
  obtained.tree_in Tree.isFamily_counted.isHereditary
    (fun language _ => Tree.isFamily_counted.scansIn language.program)
    (fun _ byInterface => byInterface) fun _ edit counted => counted.edit edit

/-- Parents, children and siblings are consistent at the root and at every visible node of a
document, whatever parses, edits and copies it came from. -/
theorem kin_consistent {document : Document}
    (obtained : document.ObtainedIn fun language => Parsing.ByInterface language.grammar)
    {node : Node} (lies : node.LiesIn document.tree) (visible : node.isVisible = true) :
    node.IsAtHome document.root :=
  Node.isAtHome (counted_of_obtainedIn obtained) lies visible

/-- A sum in front of which text was inserted: its node is a child of the root and has three children
of its own. -/
theorem kin_consistent_sum :
    ∃ result : Parsed, ∃ child : Child,
      Parser.new.parseIn (Language.arithmetic 0) #[49, 43, 50] none = .ok result ∧
      let document := result.document.edit ⟨⟨0, ⟨0, 0⟩⟩, ⟨0, ⟨0, 0⟩⟩, ⟨1, ⟨0, 1⟩⟩⟩
      (document.ObtainedIn fun language => Parsing.ByInterface language.grammar) ∧
      child.node.LiesIn document.tree ∧ child.node.isVisible = true ∧
      child.node.children.length = 3 ∧ child.node.IsAtHome document.root := by
  let edit : Edit := ⟨⟨0, ⟨0, 0⟩⟩, ⟨0, ⟨0, 0⟩⟩, ⟨1, ⟨0, 1⟩⟩⟩
  have facts : (match Parser.new.parseIn (Language.arithmetic 0) #[49, 43, 50] none with
      | .ok result => (result.document.edit edit).root.children.map fun child =>
          (child.node.isVisible, child.node.children.length)
      | .error _ => []) = [(true, 3)] := by decide +kernel
  cases run : Parser.new.parseIn (Language.arithmetic 0) #[49, 43, 50] none with
  | error fault => simp [run] at facts
  | ok result =>
      simp only [run] at facts
      rcases List.map_eq_singleton_iff.mp facts with ⟨child, only, shape⟩
      rw [Prod.mk.injEq] at shape
      have obtained : (result.document.edit edit).ObtainedIn fun language =>
          Parsing.ByInterface language.grammar :=
        .edited (.parsed Arithmetic.byInterface_grammar (by simp) run) edit
      have lies : child.node.LiesIn (result.document.edit edit).tree :=
        (Node.liesIn_root _).children child (by rw [← Document.root, only]; simp)
      exact ⟨result, child, rfl, obtained, lies, shape.1, shape.2,
        kin_consistent obtained lies shape.1⟩

end Document

end Reparse
