import Reparse.Proofs.Tree.Families

/-!
# Sound trees

An edit is handed down to a node only if it touches what the node looked at. So that it reaches
every node it concerns, a node has to look at least as far as the nodes below it. After an edit this
is promised for unmarked nodes only: the record of a marked one may be too short for the others.

A tree is sound if all its nodes cover their children and look far enough. Tokens are sound, and so
is every node that the parser builds around sound children.
-/

namespace Reparse

namespace Tree

/-- The bytes from the start of a tree to the end of what its scan depended on. -/
def reach (tree : Tree) : Nat := tree.total.bytes + tree.info.lookahead

/-- A node looked at least as far as the unmarked nodes below it. -/
def IsGuard (info : Info) (children : List (Edge Tree)) : Prop :=
  ∀ ⦃number : Nat⦄ ⦃path : List Nat⦄ ⦃offset : Nat⦄ ⦃found : Tree⦄,
    AtAmong children number path offset found → found.info.changed = false →
      offset + found.reach ≤ info.total.bytes + info.lookahead

/-- All nodes of a tree cover their children and look at least as far as those do. -/
def Sound (tree : Tree) : Prop :=
  tree.Everywhere fun info children => IsLaid info children ∧ IsGuard info children

/-- All children are sound. -/
def SoundAmong (children : List (Edge Tree)) : Prop := ∀ edge ∈ children, edge.tree.Sound

theorem sound_node {info : Info} {children : List (Edge Tree)} :
    (node info children).Sound ↔
      IsLaid info children ∧ IsGuard info children ∧ SoundAmong children := by
  simp only [Sound, SoundAmong, everywhere_node, everywhereAmong_iff, and_assoc]

theorem Sound.laid {tree : Tree} (sound : tree.Sound) : tree.Laid :=
  Everywhere.imp (fun _ _ both => both.1) tree sound

theorem Sound.children {tree : Tree} (sound : tree.Sound) : SoundAmong tree.children := by
  cases tree with
  | node info children => exact (sound_node.mp sound).2.2

theorem SoundAmong.laid {children : List (Edge Tree)} (sound : SoundAmong children) :
    EverywhereAmong IsLaid children :=
  everywhereAmong_iff.mpr fun edge member => (sound edge member).laid

@[simp]
theorem soundAmong_nil : SoundAmong [] := by simp [SoundAmong]

@[simp]
theorem soundAmong_cons {edge : Edge Tree} {rest : List (Edge Tree)} :
    SoundAmong (edge :: rest) ↔ edge.tree.Sound ∧ SoundAmong rest := by
  simp [SoundAmong]

@[simp]
theorem soundAmong_append {left right : List (Edge Tree)} :
    SoundAmong (left ++ right) ↔ SoundAmong left ∧ SoundAmong right := by
  simp only [SoundAmong, List.mem_append, or_imp, forall_and]

@[simp]
theorem soundAmong_reverse {children : List (Edge Tree)} :
    SoundAmong children.reverse ↔ SoundAmong children := by
  simp [SoundAmong]

/-- The unmarked nodes of a sound tree depend on nothing past what the tree depends on. -/
theorem Sound.reach_le {tree found : Tree} {path : List Nat} {offset : Nat} (sound : tree.Sound)
    (at_ : tree.At path offset found) (unmarked : found.info.changed = false) :
    offset + found.reach ≤ tree.reach := by
  cases at_ with
  | here => simp
  | inside among => exact (sound_node.mp sound).2.1 among unmarked

/-! ## Tokens -/

/-- A node without children is sound, whatever it records. -/
theorem sound_of_childless (info : Info) : (node info []).Sound := by
  refine sound_node.mpr ⟨fun inhabited => absurd rfl inhabited, ?_, soundAmong_nil⟩
  intro number path offset found among
  cases among

/-! ## Nodes around children -/

theorem bytes_foldl_size (children : List (Edge Tree)) (size : Extent) :
    (children.foldl (fun size edge => size + edge.tree.total) size).bytes =
      size.bytes + widthOf children := by
  induction children generalizing size with
  | nil => simp
  | cons edge rest ih =>
      rw [List.foldl_cons, ih, Extent.bytes_add]
      simp only [widthOf]
      omega

theorem bytes_paddingOf_add_sizeOf (children : List (Edge Tree)) :
    (paddingOf children).bytes + (sizeOf children).bytes = widthOf children := by
  cases children with
  | nil => rfl
  | cons edge rest =>
      rw [paddingOf, sizeOf, bytes_foldl_size, ← Nat.add_assoc]
      rfl

/-- The farthest byte that the children depended on lies behind all that a sound child's unmarked
nodes depended on. -/
theorem le_lookaheadEnd {children : List (Edge Tree)} (sound : SoundAmong children)
    {number : Nat} {path : List Nat} {offset : Nat} {found : Tree} (start : Nat)
    (among : AtAmong children number path offset found)
    (unmarked : found.info.changed = false) :
    start + offset + found.reach ≤ lookaheadEnd start children := by
  induction children generalizing number offset start with
  | nil => cases among
  | cons edge rest ih =>
      rcases edge with ⟨field, child⟩
      rcases soundAmong_cons.mp sound with ⟨here, later⟩
      simp only [lookaheadEnd]
      cases among with
      | first within =>
          have := here.reach_le within unmarked
          simp only [reach] at this ⊢
          omega
      | later among =>
          have := ih later (start + child.total.bytes) among
          omega

theorem sound_branch {symbol state : Nat} {kind : SymbolKind} {children : List (Edge Tree)}
    (sound : SoundAmong children) : (branch symbol state kind children).Sound := by
  have covered := bytes_paddingOf_add_sizeOf children
  refine sound_node.mpr ⟨?_, ?_, sound⟩
  · intro _
    exact ⟨rfl, covered⟩
  · intro number path offset found among unmarked
    have := le_lookaheadEnd sound 0 among unmarked
    simp only [Info.total, Extent.bytes_add, Info.plain]
    omega

/-- What is built of sound trees is sound. -/
theorem isFamily_sound : IsFamily Sound where
  token _ := sound_of_childless _
  branch := sound_branch
  children := Sound.children

end Tree

end Reparse
