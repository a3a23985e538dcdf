import Reparse.Proofs.Node.Moves
import Reparse.Proofs.Node.Order
import Reparse.Proofs.Query.Enumeration

/-!
# The search for the first child behind a byte

A cursor that looks for the first child behind a byte goes into the first hidden node that ends
behind the byte and shows anything, and does not come out of it again. Where a hidden token at the end
of such a node is all of it that lies behind the byte, the search comes to nothing, though there may
be a child behind the hidden node (`Node.IsVeiled`). Everywhere else it finds the first child behind
the byte (`Cursor.Sought`).
-/

namespace Reparse

/-- The tree is laid out, and a node that ends behind the first byte ends behind the first point. -/
structure Tree.Upright (tree : Tree) : Prop where
  laid : tree.Laid
  ends : ∀ node : Node, node.LiesIn tree → 0 < node.stop.bytes →
    Point.zero.before node.stop.point = true

namespace Node

variable {node outer hidden : Node} {goal number : Nat}

/-- A node lies in another one, and it is hidden, as are all nodes between the two. -/
inductive Conceals : Node → Node → Prop where
  | child {node hidden : Node} {number : Nat} (placed : node.placed? number = some hidden)
      (unseen : hidden.info.visible = false) : Conceals node hidden
  | within {node outer hidden : Node} {number : Nat} (placed : node.placed? number = some outer)
      (unseen : outer.info.visible = false) (inner : Conceals outer hidden) : Conceals node hidden

/-- A node that shows others ends behind the byte, but none of those does. -/
structure Veils (goal : Nat) (hidden : Node) : Prop where
  shows : hidden.children ≠ []
  behind : goal < hidden.stop.bytes
  ended : ∀ child ∈ hidden.children, child.node.stop.bytes ≤ goal

/-- A hidden node in the node veils what is behind it. -/
def IsVeiled (goal : Nat) (node : Node) : Prop :=
  ∃ hidden, node.Conceals hidden ∧ hidden.Veils goal

theorem IsVeiled.within (placed : node.placed? number = some outer)
    (unseen : outer.info.visible = false) (veiled : outer.IsVeiled goal) : node.IsVeiled goal := by
  rcases veiled with ⟨hidden, inner, veils⟩
  exact ⟨hidden, .within placed unseen inner, veils⟩

variable {tree : Tree}

theorem Conceals.liesIn (conceals : node.Conceals hidden) (lies : node.LiesIn tree) :
    hidden.LiesIn tree := by
  induction conceals with
  | child placed _ => exact lies.placed placed
  | within placed _ _ ih => exact ih (lies.placed placed)

theorem Conceals.bytes_le (conceals : node.Conceals hidden) (laid : tree.Laid)
    (lies : node.LiesIn tree) :
    node.start.bytes ≤ hidden.start.bytes ∧ hidden.stop.bytes ≤ node.stop.bytes := by
  induction conceals with
  | child placed _ => exact (lies.stands laid).within placed
  | within placed _ _ ih =>
      have outer := (lies.stands laid).within placed
      have inner := ih (lies.placed placed)
      exact ⟨Nat.le_trans outer.1 inner.1, Nat.le_trans inner.2 outer.2⟩

/-- A node that veils something begins before the byte, since a node that it shows ends there. -/
theorem Veils.start_le (veils : hidden.Veils goal) (stands : hidden.Stands) :
    hidden.start.bytes ≤ goal := by
  rcases List.exists_mem_of_ne_nil _ veils.shows with ⟨child, member⟩
  have within := stands.children.within child member
  have ended := veils.ended child member
  rw [bytes_stop] at ended
  omega

/-! ## What a node shows -/

mutual

/-- The field that is handed down does not tell which nodes are shown. -/
theorem nodes_shownBelow (trail : List Nat) (start : Extent) (inherited other : Nat) :
    (tree : Tree) → (shownBelow trail start inherited tree).map Child.node =
      (shownBelow trail start other tree).map Child.node
  | .node _ children => by
    rw [shownBelow, shownBelow]
    exact nodes_shownFrom trail 0 start inherited other children

theorem nodes_shownFrom (trail : List Nat) (index : Nat) (place : Extent) (inherited other : Nat) :
    (edges : List (Edge Tree)) → (shownFrom trail index place inherited edges).map Child.node =
      (shownFrom trail index place other edges).map Child.node
  | [] => by rw [shownFrom, shownFrom]
  | ⟨own, child⟩ :: rest => by
    have later := nodes_shownFrom trail (index + 1) (startOf index place child + child.info.size)
      inherited other rest
    rw [shownFrom, shownFrom]
    split
    · rw [List.map_cons, List.map_cons, later]
    · split
      · rw [List.map_append, List.map_append, later, nodes_shownBelow]
      · exact later

end

end Node

namespace Cursor

open Node (shownFrom shownBelow startOf placedAt Onward Follows)

variable {tree : Tree} {cursor next : Cursor} {node outer hidden : Node} {around : List Node}
  {goal passed number : Nat} {shown others : List Child} {result : Option (Nat × Cursor)}

theorem nodes_shown (node : Node) (around : List Node) :
    (Cursor.shown node around).map Child.node = node.children.map Child.node := by
  rw [Node.children_eq_shownBelow]
  exact Node.nodes_shownBelow _ _ _ _ _

theorem shown_eq_nil : Cursor.shown node around = [] ↔ node.children = [] := by
  rw [← List.map_eq_nil_iff, nodes_shown, List.map_eq_nil_iff]

theorem forall_shown (P : Node → Prop) :
    (∀ child ∈ Cursor.shown node around, P child.node) ↔
      ∀ child ∈ node.children, P child.node := by
  have one : (∀ inner ∈ (Cursor.shown node around).map Child.node, P inner) ↔ _ :=
    List.forall_mem_map
  rw [← one, nodes_shown]
  exact List.forall_mem_map

/-! ## What a search comes to -/

/-- A search for the byte among the nodes that a node shows finds the first one that ends behind the
byte, `passed` others being before, or there is none, or it may be veiled. -/
inductive Sought (goal : Nat) (node : Node) (shown : List Child) (passed : Nat) :
    Option (Nat × Cursor) → Prop where
  | found {before after : List Child} {next : Cursor}
      (split : shown = before ++ next.here :: after)
      (front : ∀ child ∈ before, child.node.stop.bytes ≤ goal)
      (behind : goal < next.node.stop.bytes) :
      Sought goal node shown passed (some (passed + before.length, next))
  | missed (all : ∀ child ∈ shown, child.node.stop.bytes ≤ goal) :
      Sought goal node shown passed none
  | veiled (veiled : node.IsVeiled goal) : Sought goal node shown passed none

theorem Sought.past (sought : Sought goal node shown (passed + others.length) result)
    (all : ∀ child ∈ others, child.node.stop.bytes ≤ goal) :
    Sought goal node (others ++ shown) passed result := by
  cases sought with
  | @found before after next split front behind =>
      have whole : others ++ shown = (others ++ before) ++ next.here :: after := by
        rw [split, List.append_assoc]
      have further : Sought goal node (others ++ shown) passed _ :=
        .found whole (List.forall_mem_append.mpr ⟨all, front⟩) behind
      rw [List.length_append, ← Nat.add_assoc] at further
      exact further
  | missed rest => exact .missed (List.forall_mem_append.mpr ⟨all, rest⟩)
  | veiled veiled => exact .veiled veiled

theorem Sought.eq_none (sought : Sought goal node shown passed result)
    (all : ∀ child ∈ shown, child.node.stop.bytes ≤ goal) : result = none := by
  cases sought with
  | @found before after next split _ behind =>
      have last := all next.here (split ▸ List.mem_append_right _ List.mem_cons_self)
      exact absurd behind (Nat.not_lt_of_le last)
  | missed | veiled => rfl

/-- A search that comes to nothing in a hidden node does not go on behind it. -/
theorem Sought.inside (placed : node.placed? number = some outer)
    (unseen : outer.info.visible = false) (some_ : Cursor.shown outer around ≠ [])
    (behind : goal < outer.stop.bytes)
    (sought : Sought goal outer (Cursor.shown outer around) passed result) :
    Sought goal node (Cursor.shown outer around ++ others) passed result := by
  cases sought with
  | @found before after next split front behind =>
      have whole : Cursor.shown outer around ++ others =
          before ++ next.here :: (after ++ others) := by
        rw [split, List.append_assoc, List.cons_append]
      exact .found whole front behind
  | missed all =>
      refine .veiled ⟨outer, .child placed unseen, ?_, behind, ?_⟩
      · exact fun none => some_ (shown_eq_nil.mpr none)
      · exact (forall_shown fun node => node.stop.bytes ≤ goal).mp all
  | veiled veiled => exact .veiled (veiled.within placed unseen)

mutual

/-- In an upright tree a search comes to the first child behind the byte, unless that is veiled. -/
theorem seek_sought (upright : tree.Upright) (cursor : Cursor) (lies : cursor.LiesIn tree)
    (passed : Nat) : (inner : Tree) → inner = cursor.node.tree → inner.Counted →
      Sought goal cursor.node (Cursor.shown cursor.node cursor.around) passed
        (seek goal Point.zero passed cursor inner)
  | .node info children, same, counted => by
    have edges : cursor.node.tree.children.drop 0 = children := by rw [← same]; rfl
    have onward := cursor.node.onward_start
    rw [← same] at onward
    have among := (Tree.everywhere_node.mp counted).2
    rw [seek, Cursor.shown, ← same, shownBelow]
    exact seekAmong_sought upright cursor lies passed 0 cursor.node.start children edges onward among

theorem seekAmong_sought (upright : tree.Upright) (cursor : Cursor) (lies : cursor.LiesIn tree)
    (passed index : Nat) (place : Extent) :
    (edges : List (Edge Tree)) → cursor.node.tree.children.drop index = edges →
      cursor.node.Onward index place edges → Tree.EverywhereAmong Tree.IsCounted edges →
        Sought goal cursor.node
          (shownFrom cursor.node.trail index place (handedDown cursor.node cursor.around) edges)
          passed (seekAmong goal Point.zero passed cursor index place edges)
  | [], _, _, _ => by
    rw [seekAmong, shownFrom]
    exact .missed nofun
  | ⟨own, child⟩ :: rest, dropped, onward, counted => by
    rcases Tree.everywhereAmong_cons.mp counted with ⟨here, behind⟩
    let entered := cursor.push ⟨child, startOf index place child, index :: cursor.node.trail⟩
    have inside : entered.LiesIn tree := lies.push onward
    have stands : entered.node.Stands := inside.standing.stands upright.laid
    have later (passed : Nat) := seekAmong_sought upright cursor lies passed (index + 1)
      (startOf index place child + child.info.size) rest (drop_succ dropped) onward.next behind
    have split : shownFrom cursor.node.trail index place _ (⟨own, child⟩ :: rest) =
        ownShare entered.node entered.around ++ _ := shownFrom_cons cursor.around here dropped
    rw [split, seekAmong]
    dsimp only
    by_cases visible : child.info.visible = true
    · have share : ownShare entered.node entered.around = [entered.here] := if_pos visible
      rw [if_pos visible, if_pos visible, share]
      by_cases reached : goal < entered.node.stop.bytes
      · rw [if_pos ⟨reached, upright.ends _ inside.standing (Nat.zero_lt_of_lt reached)⟩]
        exact .found (List.nil_append _).symm nofun reached
      · rw [if_neg fun both => reached both.1]
        exact (later _).past (List.forall_mem_singleton.mpr (Nat.le_of_not_lt reached))
    · have hidden : ¬entered.node.info.visible = true := visible
      have width : (Cursor.shown entered.node entered.around).length = child.info.visibleChildren :=
        Node.length_shownBelow _ _ _ child here
      rw [if_neg visible, if_neg visible, ownShare_of_hidden hidden]
      by_cases reached : goal < entered.node.stop.bytes
      · rw [if_pos ⟨reached, upright.ends _ inside.standing (Nat.zero_lt_of_lt reached)⟩]
        split
        · rename_i some_
          refine Sought.inside onward.here (eq_false_of_ne_true hidden) ?_ reached
            (seek_sought upright entered inside passed child rfl here)
          exact List.length_pos_iff.mp (width ▸ some_)
        · rename_i none_
          have empty := List.eq_nil_of_length_eq_zero
            (width.trans (Nat.eq_zero_of_not_pos none_))
          rw [empty]
          exact later passed
      · rw [if_neg fun both => reached both.1]
        have order := Node.inOrder_shownBelow entered.node
          (handedDown entered.node entered.around) stands child rfl
        refine Sought.past ?_ fun shown member =>
          Nat.le_trans (order.within shown member).2 (Nat.le_of_not_lt reached)
        rw [width]
        exact later _

end

/-! ## What veils a child -/

/-- A node shows something if a hidden child of it does. -/
theorem children_ne_nil_of_placed (counted : node.tree.Counted)
    (placed : node.placed? number = some outer) (unseen : outer.info.visible = false)
    (some_ : outer.children ≠ []) : node.children ≠ [] := by
  have hidden : ¬outer.info.visible = true := ne_true_of_eq_false unseen
  obtain ⟨before, split⟩ :
      ∃ before, Cursor.shown node [] = before ++ (ownShare outer [node] ++ _) :=
    split_of_isChild counted (isChild_of_placed placed)
  rw [shown_of_isParent rfl, ownShare_of_hidden hidden] at split
  intro none
  rw [none] at split
  have empty := (List.append_eq_nil_iff.mp (List.append_eq_nil_iff.mp split.symm).2).1
  exact some_ (shown_eq_nil.mp empty)

theorem children_ne_nil_of_conceals (conceals : node.Conceals hidden)
    (counted : node.tree.Counted) (some_ : hidden.children ≠ []) : node.children ≠ [] := by
  induction conceals with
  | child placed unseen => exact children_ne_nil_of_placed counted placed unseen some_
  | within placed unseen _ ih =>
      have below := Node.tree_in_of_placedAt counted.children placed
      exact children_ne_nil_of_placed counted placed unseen (ih below some_)

/-- A search goes past all children in front of a hidden one that begins before the byte, and into that
one if it ends behind the byte and shows anything. -/
theorem seekAmong_of_placed {index : Nat} {place : Extent} {edges : List (Edge Tree)}
    (placed : placedAt cursor.node.trail index place number edges = some outer)
    (unseen : outer.info.visible = false) (some_ : 0 < outer.info.visibleChildren)
    (begun : outer.start.bytes ≤ goal)
    (behind : goal < outer.stop.bytes ∧ Point.zero.before outer.stop.point = true) :
    ∃ others, seekAmong goal Point.zero passed cursor index place edges =
      seek goal Point.zero others (cursor.push outer) outer.tree := by
  induction edges generalizing index number place passed with
  | nil => simp [placedAt] at placed
  | cons edge rest ih =>
      rcases edge with ⟨own, child⟩
      rw [seekAmong]
      cases number with
      | zero =>
          simp only [placedAt, Option.some.injEq] at placed
          subst placed
          have hidden : ¬child.info.visible = true := ne_true_of_eq_false unseen
          exact ⟨passed, (if_pos behind).trans ((if_neg hidden).trans (if_pos some_))⟩
      | succ number =>
          have before : (startOf index place child + child.info.size).bytes ≤ outer.start.bytes :=
            Node.le_start_of_placedAt placed
          rw [if_neg fun both => Nat.not_lt_of_le (Nat.le_trans before begun) both.1]
          exact ih placed

theorem seek_eq (goal : Nat) (goalPoint : Point) (passed : Nat) (cursor : Cursor) :
    seek goal goalPoint passed cursor cursor.node.tree =
      seekAmong goal goalPoint passed cursor 0 cursor.node.start cursor.node.tree.children := by
  rcases cursor with ⟨⟨⟨info, children⟩, start, trail⟩, around⟩
  rw [seek]
  rfl

theorem seek_of_placed (upright : tree.Upright) (counted : tree.Counted)
    (lies : cursor.LiesIn tree) (placed : cursor.node.placed? number = some outer)
    (unseen : outer.info.visible = false) (shows : outer.children ≠ [])
    (begun : outer.start.bytes ≤ goal) (behind : goal < outer.stop.bytes) (passed : Nat) :
    ∃ others, seek goal Point.zero passed cursor cursor.node.tree =
      seek goal Point.zero others (cursor.push outer) outer.tree := by
  have below := lies.standing.placed placed
  have some_ : 0 < outer.info.visibleChildren := by
    rw [Node.children_eq_shownBelow] at shows
    exact (Node.shownBelow_ne_nil (below.counted counted) _ _ _).mp shows
  have ends := upright.ends outer below (Nat.zero_lt_of_lt behind)
  rw [seek_eq]
  exact seekAmong_of_placed placed unseen some_ begun ⟨behind, ends⟩

/-- Where something is veiled, the search comes to nothing. -/
theorem seek_of_veils (upright : tree.Upright) (counted : tree.Counted)
    (conceals : node.Conceals hidden) (veils : hidden.Veils goal) :
    ∀ (cursor : Cursor) (passed : Nat), cursor.node = node → cursor.LiesIn tree →
      seek goal Point.zero passed cursor cursor.node.tree = none := by
  induction conceals with
  | @child node hidden number placed unseen =>
      rintro cursor passed rfl lies
      have below : (cursor.push hidden).LiesIn tree := ⟨isChild_of_placed placed, lies⟩
      have stands := below.standing.stands upright.laid
      rcases seek_of_placed upright counted lies placed unseen veils.shows (veils.start_le stands)
        veils.behind passed with ⟨others, enters⟩
      rw [enters]
      have sought : Sought goal hidden _ others _ :=
        seek_sought upright (cursor.push hidden) below others hidden.tree rfl
          (below.standing.counted counted)
      exact sought.eq_none ((forall_shown fun node => node.stop.bytes ≤ goal).mpr veils.ended)
  | @within node outer hidden number placed unseen inner ih =>
      rintro cursor passed rfl lies
      have below : (cursor.push outer).LiesIn tree := ⟨isChild_of_placed placed, lies⟩
      have within := inner.bytes_le upright.laid below.standing
      have stands := (inner.liesIn below.standing).stands upright.laid
      have shows := children_ne_nil_of_conceals inner (below.standing.counted counted) veils.shows
      rcases seek_of_placed upright counted lies placed unseen shows
        (Nat.le_trans within.1 (veils.start_le stands)) (Nat.lt_of_lt_of_le veils.behind within.2)
        passed with ⟨others, enters⟩
      rw [enters]
      exact ih veils (cursor.push outer) others rfl below

/-- A search comes to nothing just if nothing that is shown ends behind the byte, or it is veiled. -/
theorem seek_eq_none_iff (upright : tree.Upright) (counted : tree.Counted)
    (lies : cursor.LiesIn tree) (passed : Nat) :
    seek goal Point.zero passed cursor cursor.node.tree = none ↔
      (∀ child ∈ Cursor.shown cursor.node cursor.around, child.node.stop.bytes ≤ goal) ∨
        cursor.node.IsVeiled goal := by
  have sought : Sought goal cursor.node _ passed _ :=
    seek_sought upright cursor lies passed cursor.node.tree rfl (lies.standing.counted counted)
  constructor
  · intro none_
    rw [none_] at sought
    cases sought with
    | missed all => exact Or.inl all
    | veiled veiled => exact Or.inr veiled
  · rintro (all | ⟨hidden, conceals, veils⟩)
    · exact sought.eq_none all
    · exact seek_of_veils upright counted conceals veils cursor passed rfl lies

end Cursor

end Reparse
