import Reparse.Parse.Root
import Reparse.Proofs.Node.Place
import Reparse.Proofs.Text.Width
import Reparse.Proofs.Tree.Sound

/-!
# Trees measured by a text

A tree keeps rows and columns beside bytes, as relative extents. It is measured by a text if every
node in it is as wide as the stretch of the text that its bytes take up, in rows and columns too
(`Tree.Measured`). Nodes built around measured children are measured, and every node that navigation
gives in a measured tree starts and ends at positions of the text (`Node.Measured`).
-/

namespace Reparse

/-- The padding and the content are as wide as the text from `here` on is there. -/
structure Info.Measured (text : Text) (here : Nat) (info : Info) : Prop where
  padding_eq : info.padding = text.width here info.padding.bytes
  size_eq : info.size = text.width (here + info.padding.bytes) info.size.bytes

theorem Info.measured_of_widths {text : Text} {here : Nat} {info : Info} (padding size : Nat)
    (padding_eq : info.padding = text.width here padding)
    (size_eq : info.size = text.width (here + padding) size) : info.Measured text here := by
  constructor
  · rw [padding_eq, Text.bytes_width]
  · rw [padding_eq, size_eq, Text.bytes_width, Text.bytes_width]

namespace Info.Measured

variable {text : Text} {here : Nat} {info : Info}

theorem total_eq (measured : info.Measured text here) :
    info.total = text.width here info.total.bytes := by
  rw [Info.total, Extent.bytes_add, Text.width_append, ← measured.padding_eq, ← measured.size_eq]

theorem place_total (measured : info.Measured text here) :
    text.place here + info.total = text.place (here + info.total.bytes) := by
  rw [measured.total_eq, Text.bytes_width, Text.place_add]

/-- Where another text reads the same, the node is as wide. -/
theorem congr {other : Text} {there : Nat} (measured : info.Measured text here)
    (same : ∀ index < info.total.bytes, text[here + index]? = other[there + index]?) :
    info.Measured other there := by
  simp only [Info.total, Extent.bytes_add] at same
  constructor
  · rw [← Text.width_congr fun index inside => same index (by omega)]
    exact measured.padding_eq
  · have moved : text.width (here + info.padding.bytes) info.size.bytes =
        other.width (there + info.padding.bytes) info.size.bytes := by
      apply Text.width_congr
      intro index inside
      rw [Nat.add_assoc, Nat.add_assoc]
      exact same _ (by omega)
    rw [← moved]
    exact measured.size_eq

end Info.Measured

namespace Tree

mutual

/-- Every node of a tree is as wide as the text from `here` on is where the node lies. -/
def Measured (text : Text) (here : Nat) : Tree → Prop
  | node info children => info.Measured text here ∧ MeasuredAmong text here children

/-- The same for children laid end to end. -/
def MeasuredAmong (text : Text) (here : Nat) : List (Edge Tree) → Prop
  | [] => True
  | edge :: rest =>
    edge.tree.Measured text here ∧ MeasuredAmong text (here + edge.tree.total.bytes) rest

end

variable {text : Text} {here : Nat} {edges : List (Edge Tree)}

theorem measured_node {info : Info} {children : List (Edge Tree)} :
    (node info children).Measured text here ↔
      info.Measured text here ∧ MeasuredAmong text here children := by
  simp [Measured]

@[simp]
theorem measuredAmong_nil : MeasuredAmong text here [] := by simp [MeasuredAmong]

@[simp]
theorem measuredAmong_cons {edge : Edge Tree} {rest : List (Edge Tree)} :
    MeasuredAmong text here (edge :: rest) ↔
      edge.tree.Measured text here ∧
        MeasuredAmong text (here + edge.tree.total.bytes) rest := by
  simp [MeasuredAmong]

@[simp]
theorem measuredAmong_append {left right : List (Edge Tree)} :
    MeasuredAmong text here (left ++ right) ↔
      MeasuredAmong text here left ∧ MeasuredAmong text (here + widthOf left) right := by
  induction left generalizing here with
  | nil => simp
  | cons edge rest ih =>
      rcases edge with ⟨field, child⟩
      rw [List.cons_append, measuredAmong_cons, measuredAmong_cons, ih, widthOf_cons, and_assoc,
        Nat.add_assoc]

theorem Measured.info {tree : Tree} (measured : tree.Measured text here) :
    tree.info.Measured text here := by
  cases tree
  exact (measured_node.mp measured).1

theorem Measured.children {tree : Tree} (measured : tree.Measured text here) :
    MeasuredAmong text here tree.children := by
  cases tree
  exact (measured_node.mp measured).2

/-- The fields play no part. -/
theorem MeasuredAmong.unnamed (measured : MeasuredAmong text here edges) :
    MeasuredAmong text here (edges.map fun edge => ⟨0, edge.tree⟩) := by
  induction edges generalizing here with
  | nil => exact measured
  | cons edge rest ih =>
      rw [measuredAmong_cons] at measured
      exact measuredAmong_cons.mpr ⟨measured.1, ih measured.2⟩

/-! ## Parts of measured trees -/

mutual

/-- A subtree of a measured tree is measured where it lies. -/
theorem At.measured {tree found : Tree} {path : List Nat} {offset here : Nat} :
    tree.At path offset found → tree.Measured text here → found.Measured text (here + offset)
  | .here _, measured => measured
  | .inside among, measured => among.measured measured.children

theorem AtAmong.measured {children : List (Edge Tree)} {found : Tree} {number : Nat}
    {path : List Nat} {offset here : Nat} :
    AtAmong children number path offset found → MeasuredAmong text here children →
      found.Measured text (here + offset)
  | .first within, measured => within.measured (measuredAmong_cons.mp measured).1
  | .later among, measured => by
    rw [← Nat.add_assoc]
    exact among.measured (measuredAmong_cons.mp measured).2

end

/-! ## Other texts -/

mutual

/-- A tree over another text that reads the same is measured by that one. -/
theorem Measured.congr {other : Text} : (tree : Tree) → ∀ {here there : Nat}, tree.Laid →
    tree.Measured text here →
    (∀ index < tree.total.bytes, text[here + index]? = other[there + index]?) →
      tree.Measured other there
  | node info children, here, there, laid, measured, same => by
    rcases measured_node.mp measured with ⟨own, among⟩
    have within := laid.widthOf_le
    refine measured_node.mpr ⟨own.congr same, ?_⟩
    exact MeasuredAmong.congr children laid.children among fun index inside =>
      same index (Nat.lt_of_lt_of_le inside within)

theorem MeasuredAmong.congr {other : Text} : (children : List (Edge Tree)) →
    ∀ {here there : Nat}, EverywhereAmong IsLaid children → MeasuredAmong text here children →
    (∀ index < widthOf children, text[here + index]? = other[there + index]?) →
      MeasuredAmong other there children
  | [], _, _, _, _, _ => measuredAmong_nil
  | ⟨field, child⟩ :: rest, here, there, laid, measured, same => by
    rcases everywhereAmong_cons.mp laid with ⟨first, later⟩
    rcases measuredAmong_cons.mp measured with ⟨own, among⟩
    rw [widthOf_cons] at same
    refine measuredAmong_cons.mpr ⟨?_, ?_⟩
    · exact Measured.congr child first own fun index inside => same index (by omega)
    · refine MeasuredAmong.congr rest later among fun index inside => ?_
      change text[here + child.total.bytes + index]? = other[there + child.total.bytes + index]?
      rw [Nat.add_assoc, Nat.add_assoc]
      exact same _ (by omega)

end

/-! ## Nodes around children -/

theorem foldl_measured {first : Nat} (measured : MeasuredAmong text (here + first) edges) :
    edges.foldl (fun size edge => size + edge.tree.total) (text.width here first) =
      text.width here (first + widthOf edges) := by
  induction edges generalizing first with
  | nil => rfl
  | cons edge rest ih =>
      rcases edge with ⟨field, child⟩
      rcases measuredAmong_cons.mp measured with ⟨own, among⟩
      have step : text.width here first + child.total =
          text.width here (first + child.total.bytes) := by
        rw [Text.width_append]
        exact congrArg _ own.info.total_eq
      rw [List.foldl_cons, step, ih (by rw [← Nat.add_assoc]; exact among), widthOf_cons,
        Nat.add_assoc]

/-- What children that are measured sum up to is measured. -/
theorem measured_summary (measured : MeasuredAmong text here edges) :
    paddingOf edges = text.width here (paddingOf edges).bytes ∧
      sizeOf edges =
        text.width (here + (paddingOf edges).bytes) (sizeOf edges).bytes := by
  cases edges with
  | nil => exact ⟨rfl, rfl⟩
  | cons edge rest =>
      rcases edge with ⟨field, child⟩
      rcases measuredAmong_cons.mp measured with ⟨own, among⟩
      refine ⟨own.info.padding_eq, ?_⟩
      have start : here + child.total.bytes =
          here + child.info.padding.bytes + child.info.size.bytes := by
        simp only [total, Info.total, Extent.bytes_add, Nat.add_assoc]
      rw [start] at among
      have whole := foldl_measured among
      rw [← own.info.size_eq] at whole
      have sum : sizeOf (⟨field, child⟩ :: rest) = _ := whole
      rw [sum, Text.bytes_width]
      rfl

theorem measured_branch (symbol state : Nat) (kind : SymbolKind)
    (measured : MeasuredAmong text here edges) :
    (branch symbol state kind edges).Measured text here := by
  rcases measured_summary measured with ⟨padding, size⟩
  exact measured_node.mpr ⟨⟨padding, size⟩, measured⟩

theorem total_branch (symbol state : Nat) (kind : SymbolKind) (edges : List (Edge Tree)) :
    (branch symbol state kind edges).total.bytes = widthOf edges :=
  bytes_paddingOf_add_sizeOf edges

theorem total_error (edges : List (Edge Tree)) : (error edges).total.bytes = widthOf edges := by
  rw [error, total_branch]
  induction edges with
  | nil => rfl
  | cons edge rest ih =>
      rw [List.map_cons, widthOf, widthOf, ih]

theorem measured_error (measured : MeasuredAmong text here edges) :
    (error edges).Measured text here :=
  measured_branch _ _ _ measured.unnamed

/-- A root stands over the text that its parts stand over: where a part gives way to its children,
they take up what it did. -/
theorem measuredAmong_rootChildren {items : List (Edge Tree)}
    (measured : MeasuredAmong text here items) (laid : EverywhereAmong IsLaid items)
    (inner : ∀ edge ∈ items, edge.tree.isPrincipal = true → edge.tree.children ≠ []) :
    MeasuredAmong text here (rootChildren items) ∧
      widthOf (rootChildren items) = widthOf items := by
  induction items generalizing here with
  | nil => exact ⟨measuredAmong_nil, rfl⟩
  | cons edge rest ih =>
      rcases edge with ⟨field, child⟩
      rcases measuredAmong_cons.mp measured with ⟨own, among⟩
      rcases everywhereAmong_cons.mp laid with ⟨first, later⟩
      rcases List.forall_mem_cons.mp inner with ⟨inhabited, others⟩
      rcases ih among later others with ⟨behind, width⟩
      rw [rootChildren, widthOf_cons]
      split
      · rename_i principal
        rcases child with ⟨info, children⟩
        have whole : info.total.bytes = widthOf children :=
          ((everywhere_node.mp first).1 (inhabited principal)).2
        constructor
        · refine measuredAmong_append.mpr ⟨Measured.children own, ?_⟩
          rw [children_node, ← whole]
          exact behind
        · rw [widthOf_append, width, children_node, ← whole]
          rfl
      · exact ⟨measuredAmong_cons.mpr ⟨own, behind⟩, by rw [widthOf_cons, width]⟩

theorem measured_root (vocabulary : Vocabulary) {items : List (Edge Tree)}
    (measured : MeasuredAmong text here items) (laid : EverywhereAmong IsLaid items) :
    (root vocabulary items).Measured text here ∧
      (root vocabulary items).total.bytes = widthOf items := by
  unfold root
  split
  · rename_i principal only
    split
    · exact ⟨measured_error measured, total_error items⟩
    · rename_i inner
      have inhabited : ∀ edge ∈ items, edge.tree.isPrincipal = true → edge.tree.children ≠ [] := by
        intro edge member chosen
        have same : edge ∈ items.filter fun edge => edge.tree.isPrincipal :=
          List.mem_filter.mpr ⟨member, chosen⟩
        rw [only, List.mem_singleton] at same
        rw [same]
        simpa using inner
      rcases measuredAmong_rootChildren measured laid inhabited with ⟨among, width⟩
      exact ⟨measured_branch _ _ _ among, (total_branch _ _ _ _).trans width⟩
  · exact ⟨measured_error measured, total_error items⟩

end Tree

/-! ## Positions of nodes -/

namespace Node

open Tree (MeasuredAmong measuredAmong_cons)

/-- A node starts at a position of the text, and its tree is measured where it lies. -/
structure Measured (text : Text) (node : Node) : Prop where
  start_eq : node.start = text.place node.start.bytes
  tree : ∃ base, node.start.bytes = base + node.info.padding.bytes ∧
    node.tree.Measured text base

variable {text : Text} {tree : Tree} {node below : Node} {trail path : List Nat}
  {base index number : Nat} {place : Extent} {edges : List (Edge Tree)}

/-- A measured node also ends at a position of the text. -/
theorem Measured.stop_eq (measured : node.Measured text) :
    node.stop = text.place node.stop.bytes := by
  rcases measured with ⟨start, base, lies, own⟩
  have size := own.info.size_eq
  rw [show base + node.tree.info.padding.bytes = node.start.bytes from lies.symm] at size
  rw [stop, Extent.bytes_add, Text.place_add, ← start]
  exact congrArg (node.start + ·) size

theorem measured_root (measured : tree.Measured text 0) : (root tree).Measured text where
  start_eq := measured.info.padding_eq
  tree := ⟨0, (Nat.zero_add _).symm, measured⟩

theorem startOf_eq {field : Nat} {child : Tree} {rest : List (Edge Tree)}
    (follows : Follows base index place (⟨field, child⟩ :: rest))
    (position : place = text.place place.bytes) (own : child.Measured text base) :
    startOf index place child = text.place (startOf index place child).bytes := by
  have start := bytes_startOf follows
  unfold startOf at start ⊢
  split
  · exact position
  · rename_i later
    rw [if_neg later, Extent.bytes_add] at start
    have before : place.bytes = base := by omega
    rw [Extent.bytes_add, before, Text.place_add, ← own.info.padding_eq, ← before, ← position]

theorem measured_of_placedAt (follows : Follows base index place edges)
    (position : place = text.place place.bytes) (measured : MeasuredAmong text base edges)
    (placed : placedAt trail index place number edges = some node) : node.Measured text := by
  induction edges generalizing base index number place with
  | nil => simp [placedAt] at placed
  | cons edge rest ih =>
      rcases edge with ⟨field, child⟩
      rcases measuredAmong_cons.mp measured with ⟨own, among⟩
      have first := startOf_eq follows position own
      have start := bytes_startOf follows
      cases number with
      | zero =>
          simp only [placedAt, Option.some.injEq] at placed
          subst placed
          exact ⟨first, base, start, own⟩
      | succ number =>
          refine ih follows.next ?_ among placed
          have entered : Measured text ⟨child, startOf index place child, []⟩ :=
            ⟨first, base, start, own⟩
          exact entered.stop_eq

/-- Child numbers lead from a measured node to measured nodes. -/
theorem Measured.follow {node : Node} (measured : node.Measured text) (laid : node.tree.Laid)
    (followed : node.follow path = some below) : below.Measured text := by
  induction path generalizing node with
  | nil =>
      simp only [Node.follow, Option.some.injEq] at followed
      exact followed ▸ measured
  | cons number path ih =>
      rcases follow_cons_iff.mp followed with ⟨child, placed, onward⟩
      rcases measured.tree with ⟨base, start, own⟩
      rcases follows_start laid start with follows | empty
      · refine ih (measured_of_placedAt follows measured.start_eq own.children placed) ?_ onward
        rcases at_of_placedAt follows placed with ⟨before, _, lift⟩
        rcases node with ⟨⟨info, children⟩, place, trail⟩
        have at_ : (Tree.node info children).At [number] before child.tree :=
          .inside (lift [] 0 child.tree (.here _))
        exact at_.everywhere laid
      · simp [placed?, placedAt, empty] at placed

/-- Every node of a measured tree starts and ends at positions of the text. -/
theorem measured_of_resolve (laid : tree.Laid) (measured : tree.Measured text 0)
    (resolved : resolve tree trail = some node) : node.Measured text :=
  (measured_root measured).follow laid resolved

end Node

end Reparse
