import Reparse.Syntax.Tree

/-!
# Where the nodes of a tree lie

A tree stands over a stretch of text. `Tree.At` says that child numbers lead to a subtree and how
many bytes lie before it; it is the notion of place behind the statements on edits, on reuse and on
comparison. In a tree that is laid out (`Tree.Laid`) every inner node covers its children end to
end, so that a subtree lies inside every node around it.

`Tree.Everywhere` turns a property of one node into the property that all nodes of a tree have it.
-/

namespace Reparse

/-- What is left behind the first of the items that are left. -/
theorem drop_succ {α : Type} {items rest : List α} {item : α} {index : Nat}
    (dropped : items.drop index = item :: rest) : items.drop (index + 1) = rest := by
  rw [← List.tail_drop, dropped, List.tail_cons]

namespace Tree

/-! ## Widths -/

/-- The bytes that children laid end to end take up. -/
def widthOf : List (Edge Tree) → Nat
  | [] => 0
  | edge :: rest => edge.tree.total.bytes + widthOf rest

@[simp]
theorem widthOf_nil : widthOf [] = 0 := rfl

@[simp]
theorem widthOf_cons (field : Nat) (child : Tree) (rest : List (Edge Tree)) :
    widthOf (⟨field, child⟩ :: rest) = child.total.bytes + widthOf rest := rfl

@[simp]
theorem widthOf_append (left right : List (Edge Tree)) :
    widthOf (left ++ right) = widthOf left + widthOf right := by
  induction left with
  | nil => simp
  | cons edge rest ih =>
      rw [List.cons_append, widthOf_cons, widthOf_cons, ih, Nat.add_assoc]

theorem count_eq (tree : Tree) : tree.count = 1 + countAll tree.children := by
  cases tree with
  | node info children => simp only [count, children_node]

@[simp]
theorem countAll_append (left right : List (Edge Tree)) :
    countAll (left ++ right) = countAll left + countAll right := by
  induction left with
  | nil => simp [countAll]
  | cons edge rest ih => simp only [List.cons_append, countAll, ih, Nat.add_assoc]

@[simp]
theorem bytes_total_node (info : Info) (children : List (Edge Tree)) :
    (node info children).total.bytes = info.padding.bytes + info.size.bytes := rfl

/-! ## Properties of all nodes -/

mutual

/-- Every node of a tree has a property. -/
def Everywhere (property : Info → List (Edge Tree) → Prop) : Tree → Prop
  | node info children => property info children ∧ EverywhereAmong property children

/-- Every node of every child has a property. -/
def EverywhereAmong (property : Info → List (Edge Tree) → Prop) : List (Edge Tree) → Prop
  | [] => True
  | edge :: rest => edge.tree.Everywhere property ∧ EverywhereAmong property rest

end

section Everywhere

variable {property other : Info → List (Edge Tree) → Prop}

@[simp]
theorem everywhereAmong_nil : EverywhereAmong property [] := by
  simp [EverywhereAmong]

@[simp]
theorem everywhereAmong_cons {edge : Edge Tree} {rest : List (Edge Tree)} :
    EverywhereAmong property (edge :: rest) ↔
      edge.tree.Everywhere property ∧ EverywhereAmong property rest := by
  simp [EverywhereAmong]

theorem everywhereAmong_iff {children : List (Edge Tree)} :
    EverywhereAmong property children ↔ ∀ edge ∈ children, edge.tree.Everywhere property := by
  induction children with
  | nil => simp
  | cons edge rest ih => simp [ih]

theorem everywhere_node {info : Info} {children : List (Edge Tree)} :
    (node info children).Everywhere property ↔
      property info children ∧ EverywhereAmong property children := by
  simp [Everywhere]

mutual

theorem Everywhere.imp (implies : ∀ info children, property info children → other info children) :
    (tree : Tree) → tree.Everywhere property → tree.Everywhere other
  | node info children, everywhere => by
    rcases everywhere_node.mp everywhere with ⟨here, among⟩
    exact everywhere_node.mpr ⟨implies info children here, EverywhereAmong.imp implies _ among⟩

theorem EverywhereAmong.imp
    (implies : ∀ info children, property info children → other info children) :
    (children : List (Edge Tree)) → EverywhereAmong property children →
      EverywhereAmong other children
  | [], _ => everywhereAmong_nil
  | edge :: rest, everywhere => by
    rcases everywhereAmong_cons.mp everywhere with ⟨here, later⟩
    exact everywhereAmong_cons.mpr
      ⟨Everywhere.imp implies edge.tree here, EverywhereAmong.imp implies rest later⟩

end

end Everywhere

/-! ## Layout -/

/-- An inner node begins with the padding of its first child and covers its children end to end. -/
def IsLaid (info : Info) (children : List (Edge Tree)) : Prop :=
  children ≠ [] →
    info.padding.bytes = (paddingOf children).bytes ∧ info.total.bytes = widthOf children

/-- All inner nodes of a tree cover their children end to end. -/
def Laid (tree : Tree) : Prop := tree.Everywhere IsLaid

theorem Laid.children {info : Info} {children : List (Edge Tree)}
    (laid : (node info children).Laid) : EverywhereAmong IsLaid children :=
  (everywhere_node.mp laid).2

theorem Laid.total_eq {info : Info} {edge : Edge Tree} {rest : List (Edge Tree)}
    (laid : (node info (edge :: rest)).Laid) : info.total.bytes = widthOf (edge :: rest) :=
  ((everywhere_node.mp laid).1 (by simp)).2

theorem Laid.padding_eq {info : Info} {edge : Edge Tree} {rest : List (Edge Tree)}
    (laid : (node info (edge :: rest)).Laid) :
    info.padding.bytes = edge.tree.info.padding.bytes :=
  ((everywhere_node.mp laid).1 (by simp)).1

/-- The children of a node do not reach past it. -/
theorem Laid.widthOf_le {info : Info} {children : List (Edge Tree)}
    (laid : (node info children).Laid) : widthOf children ≤ info.total.bytes := by
  cases children with
  | nil => simp
  | cons edge rest => exact Nat.le_of_eq laid.total_eq.symm

/-! ## Places -/

mutual

/-- Child numbers lead from a tree to a subtree that has so many bytes of the tree before it. -/
inductive At : Tree → List Nat → Nat → Tree → Prop where
  | here (tree : Tree) : At tree [] 0 tree
  | inside {info : Info} {children : List (Edge Tree)} {number : Nat} {path : List Nat}
      {offset : Nat} {found : Tree} (among : AtAmong children number path offset found) :
      At (node info children) (number :: path) offset found

/-- The same from a list of children on, the first of which has number 0. -/
inductive AtAmong : List (Edge Tree) → Nat → List Nat → Nat → Tree → Prop where
  | first {field : Nat} {child : Tree} {rest : List (Edge Tree)} {path : List Nat} {offset : Nat}
      {found : Tree} (within : At child path offset found) :
      AtAmong (⟨field, child⟩ :: rest) 0 path offset found
  | later {field : Nat} {child : Tree} {rest : List (Edge Tree)} {number : Nat} {path : List Nat}
      {offset : Nat} {found : Tree} (among : AtAmong rest number path offset found) :
      AtAmong (⟨field, child⟩ :: rest) (number + 1) path (child.total.bytes + offset) found

end

mutual

/-- In a tree that is laid out a subtree ends where the tree does, or before. -/
theorem At.le_total {tree found : Tree} {path : List Nat} {offset : Nat} :
    tree.At path offset found → tree.Laid → offset + found.total.bytes ≤ tree.total.bytes
  | .here _, _ => by simp
  | .inside among, laid => Nat.le_trans (among.le_widthOf laid.children) laid.widthOf_le

theorem AtAmong.le_widthOf {children : List (Edge Tree)} {found : Tree} {number : Nat}
    {path : List Nat} {offset : Nat} :
    AtAmong children number path offset found → EverywhereAmong IsLaid children →
      offset + found.total.bytes ≤ widthOf children
  | .first within, laid => by
    have := within.le_total (everywhereAmong_cons.mp laid).1
    simp only [widthOf_cons]
    omega
  | .later among, laid => by
    have := among.le_widthOf (everywhereAmong_cons.mp laid).2
    simp only [widthOf_cons]
    omega

end

mutual

/-- What holds at every node of a tree holds at every node of a subtree. -/
theorem At.everywhere {property : Info → List (Edge Tree) → Prop} {tree found : Tree}
    {path : List Nat} {offset : Nat} :
    tree.At path offset found → tree.Everywhere property → found.Everywhere property
  | .here _, everywhere => everywhere
  | .inside among, everywhere => among.everywhere (everywhere_node.mp everywhere).2

theorem AtAmong.everywhere {property : Info → List (Edge Tree) → Prop}
    {children : List (Edge Tree)} {found : Tree} {number : Nat} {path : List Nat} {offset : Nat} :
    AtAmong children number path offset found → EverywhereAmong property children →
      found.Everywhere property
  | .first within, everywhere => within.everywhere (everywhereAmong_cons.mp everywhere).1
  | .later among, everywhere => among.everywhere (everywhereAmong_cons.mp everywhere).2

end

mutual

/-- A subtree of a subtree is a subtree. -/
theorem At.trans {tree middle found : Tree} {path rest : List Nat} {offset inner : Nat} :
    tree.At path offset middle → middle.At rest inner found →
      tree.At (path ++ rest) (offset + inner) found
  | .here _, within => by
    rw [List.nil_append, Nat.zero_add]
    exact within
  | .inside among, within => .inside (among.trans within)

theorem AtAmong.trans {children : List (Edge Tree)} {middle found : Tree} {number : Nat}
    {path rest : List Nat} {offset inner : Nat} :
    AtAmong children number path offset middle → middle.At rest inner found →
      AtAmong children number (path ++ rest) (offset + inner) found
  | .first outer, within => .first (outer.trans within)
  | .later among, within => by
    rw [Nat.add_assoc]
    exact .later (among.trans within)

end

mutual

/-- Child numbers lead to one subtree. -/
theorem At.unique {tree found other : Tree} {path : List Nat} {offset place : Nat} :
    tree.At path offset found → tree.At path place other → offset = place ∧ found = other
  | .here _, .here _ => ⟨rfl, rfl⟩
  | .inside among, .inside again => among.unique again

theorem AtAmong.unique {children : List (Edge Tree)} {found other : Tree} {number : Nat}
    {path : List Nat} {offset place : Nat} :
    AtAmong children number path offset found → AtAmong children number path place other →
      offset = place ∧ found = other
  | .first within, .first again => within.unique again
  | .later among, .later again => by
    rcases among.unique again with ⟨rfl, rfl⟩
    exact ⟨rfl, rfl⟩

end

/-- The way to a subtree begins with a step to a child. -/
theorem AtAmong.enter {children : List (Edge Tree)} {found : Tree} {number : Nat}
    {path : List Nat} {offset : Nat} (among : AtAmong children number path offset found) :
    ∃ before child inner, AtAmong children number [] before child ∧ child.At path inner found ∧
      offset = before + inner := by
  induction children generalizing number offset with
  | nil => cases among
  | cons edge rest ih =>
      cases among with
      | first within => exact ⟨0, _, offset, .first (.here _), within, (Nat.zero_add _).symm⟩
      | later among =>
          rcases ih among with ⟨before, child, inner, at_, within, rfl⟩
          exact ⟨_, child, inner, .later at_, within, (Nat.add_assoc _ _ _).symm⟩

/-- The way to a subtree ends with a step to a child. -/
theorem At.last {tree found : Tree} {front : List Nat} {number offset : Nat}
    (at_ : tree.At (front ++ [number]) offset found) :
    ∃ place parent before, tree.At front place parent ∧
      AtAmong parent.children number [] before found ∧ offset = place + before := by
  induction front generalizing tree offset with
  | nil =>
      cases at_ with
      | inside among => exact ⟨0, _, offset, .here _, among, (Nat.zero_add _).symm⟩
  | cons step front ih =>
      cases at_ with
      | inside among =>
          rcases among.enter with ⟨start, child, inner, first, within, rfl⟩
          rcases ih within with ⟨place, parent, before, at_, last, rfl⟩
          exact ⟨start + place, parent, before, .inside (first.trans at_), last,
            (Nat.add_assoc _ _ _).symm⟩

/-- Where a child of a subtree lies. -/
theorem At.child {tree parent found : Tree} {front : List Nat} {number place before : Nat}
    (at_ : tree.At front place parent) (among : AtAmong parent.children number [] before found) :
    tree.At (front ++ [number]) (place + before) found := by
  cases parent with
  | node info children => exact at_.trans (.inside among)

/-- A child begins behind the children before it. -/
theorem AtAmong.of_append (before : List (Edge Tree)) (field : Nat) (child : Tree)
    (later : List (Edge Tree)) :
    AtAmong (before ++ ⟨field, child⟩ :: later) before.length [] (widthOf before) child := by
  induction before with
  | nil => exact .first (.here child)
  | cons edge rest ih => exact .later ih

end Tree

end Reparse
