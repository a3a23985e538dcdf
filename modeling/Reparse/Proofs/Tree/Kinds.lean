import Reparse.Proofs.Tree.Layout

/-!
# What stands over a byte

The visible structure of a tree at a byte is the list of the symbols of the visible nodes whose
content holds the byte, outermost first (`Tree.kindsAt`). In a tree that is laid out these nodes lie
inside one another, and none lies over a byte outside of the content.
-/

namespace Reparse

namespace Tree

mutual

/-- The symbols of the visible nodes whose content holds a byte, outermost first, in a tree that
begins at `start`. -/
def kindsAt (byte start : Nat) : Tree → List Nat
  | node info children =>
    (if info.visible ∧ start + info.padding.bytes ≤ byte ∧ byte < start + info.total.bytes then
      [info.symbol] else []) ++ kindsAmong byte start children

/-- The same for children laid end to end, the first of which begins at `start`. -/
def kindsAmong (byte start : Nat) : List (Edge Tree) → List Nat
  | [] => []
  | edge :: rest =>
    edge.tree.kindsAt byte start ++ kindsAmong byte (start + edge.tree.total.bytes) rest

end

variable {byte : Nat}

@[simp]
theorem kindsAmong_nil {start : Nat} : kindsAmong byte start [] = [] := rfl

@[simp]
theorem kindsAmong_cons {start : Nat} (field : Nat) (child : Tree) (rest : List (Edge Tree)) :
    kindsAmong byte start (⟨field, child⟩ :: rest) =
      child.kindsAt byte start ++ kindsAmong byte (start + child.total.bytes) rest := rfl

theorem kindsAmong_append {start : Nat} (left right : List (Edge Tree)) :
    kindsAmong byte start (left ++ right) =
      kindsAmong byte start left ++ kindsAmong byte (start + widthOf left) right := by
  induction left generalizing start with
  | nil => simp
  | cons edge rest ih =>
      rcases edge with ⟨field, child⟩
      rw [List.cons_append, kindsAmong_cons, kindsAmong_cons, ih, widthOf_cons, List.append_assoc,
        Nat.add_assoc]

theorem kindsAt_of_hidden {start : Nat} {tree : Tree} (hidden : tree.info.visible = false) :
    tree.kindsAt byte start = kindsAmong byte start tree.children := by
  rcases tree with ⟨info, children⟩
  rw [info_node] at hidden
  simp [kindsAt, hidden]

/-- A visible node stands over its content. -/
theorem kindsAt_of_inside {start : Nat} {tree : Tree} (visible : tree.info.visible = true)
    (begun : start + tree.info.padding.bytes ≤ byte) (inside : byte < start + tree.total.bytes) :
    tree.kindsAt byte start = tree.info.symbol :: kindsAmong byte start tree.children := by
  rcases tree with ⟨info, children⟩
  rw [kindsAt, if_pos ⟨visible, begun, inside⟩]
  rfl

mutual

/-- No node of a tree stands over a byte before its content. -/
theorem kindsAt_of_before (start : Nat) : (tree : Tree) → tree.Laid →
    byte < start + tree.info.padding.bytes → tree.kindsAt byte start = []
  | node info children, laid, before => by
    rw [info_node] at before
    rw [kindsAt, if_neg (by omega), List.nil_append]
    cases children with
    | nil => rfl
    | cons edge rest =>
        have padded := laid.padding_eq
        exact kindsAmong_of_before start (edge :: rest) laid.children (by
          simp only [paddingOf]
          omega)

theorem kindsAmong_of_before (start : Nat) :
    (children : List (Edge Tree)) → EverywhereAmong IsLaid children →
    byte < start + (paddingOf children).bytes → kindsAmong byte start children = []
  | [], _, _ => rfl
  | ⟨field, child⟩ :: rest, laid, before => by
    rcases everywhereAmong_cons.mp laid with ⟨childLaid, restLaid⟩
    rw [kindsAmong_cons, kindsAt_of_before start child childLaid before, List.nil_append]
    simp only [paddingOf] at before
    have within : child.info.padding.bytes ≤ child.total.bytes := by
      simp only [total, Info.total, Extent.bytes_add]
      omega
    exact kindsAmong_of_before _ rest restLaid (by omega)

end

mutual

/-- No node of a tree stands over a byte after it. -/
theorem kindsAt_of_after (start : Nat) : (tree : Tree) → tree.Laid →
    start + tree.total.bytes ≤ byte → tree.kindsAt byte start = []
  | node info children, laid, after => by
    change start + info.total.bytes ≤ byte at after
    have within := laid.widthOf_le
    rw [kindsAt, if_neg (by omega), List.nil_append]
    exact kindsAmong_of_after start children laid.children (by omega)

theorem kindsAmong_of_after (start : Nat) :
    (children : List (Edge Tree)) → EverywhereAmong IsLaid children →
    start + widthOf children ≤ byte → kindsAmong byte start children = []
  | [], _, _ => rfl
  | ⟨field, child⟩ :: rest, laid, after => by
    rcases everywhereAmong_cons.mp laid with ⟨childLaid, restLaid⟩
    rw [widthOf_cons] at after
    rw [kindsAmong_cons, kindsAt_of_after start child childLaid (by omega), List.nil_append]
    exact kindsAmong_of_after _ rest restLaid (by omega)

end

/-- Among children laid end to end only one stands over a byte. -/
theorem kindsAmong_of_within {start : Nat} {before later : List (Edge Tree)} {field : Nat}
    {child : Tree}
    (laid : EverywhereAmong IsLaid (before ++ ⟨field, child⟩ :: later))
    (begun : start + widthOf before ≤ byte)
    (inside : byte < start + widthOf before + child.total.bytes) :
    kindsAmong byte start (before ++ ⟨field, child⟩ :: later) =
      child.kindsAt byte (start + widthOf before) := by
  have among := everywhereAmong_iff.mp laid
  have beforeLaid : EverywhereAmong IsLaid before :=
    everywhereAmong_iff.mpr fun edge member => among edge (List.mem_append_left _ member)
  have laterLaid : EverywhereAmong IsLaid later :=
    everywhereAmong_iff.mpr fun edge member => among edge (by simp [member])
  rw [kindsAmong_append, kindsAmong_of_after _ before beforeLaid begun, List.nil_append,
    kindsAmong_cons, kindsAmong_of_before _ later laterLaid (by omega), List.append_nil]

end Tree

end Reparse
