import Reparse.Proofs.Tree.Layout
import Reparse.Syntax.Edit

/-!
# Edits keep trees laid out

The walk behind `Tree.edit` hands an edit down from a node to its children, each child seeing it
relative to its own start. New text goes to the first child that reaches the edit; from then on the
edit only removes. Whatever the walk does to a tree, the tree changes its length as the text below
it does (`Edit.resized`), and in a tree that is laid out the children go on to fill their parent
(`Tree.Laid.edit`).
-/

namespace Reparse

namespace Edit

/-- The replaced text ends where it starts or after that, and so does the new text. -/
structure Forward (edit : Edit) : Prop where
  old : edit.start.bytes ≤ edit.oldStop.bytes
  new : edit.start.bytes ≤ edit.newStop.bytes

/-- The length after an edit of a stretch of text that begins at 0. Text that is inserted just at
the end of the stretch belongs to it. -/
def resized (edit : Edit) (length : Nat) : Nat :=
  if edit.start.bytes < length ∨
      (edit.start.bytes = length ∧ edit.oldStop.bytes = edit.start.bytes) then
    edit.newStop.bytes + (length - edit.oldStop.bytes)
  else length

/-- The length after an edit of the padding in front of a node. -/
def repadded (edit : Edit) (length : Nat) : Nat :=
  if edit.oldStop.bytes ≤ length then edit.newStop.bytes + (length - edit.oldStop.bytes)
  else if edit.start.bytes < length then edit.newStop.bytes
  else length

/-- New text is still to be placed in a child that begins at `left` or later, or it has been placed
already and is left out of the edit. -/
def Due (edit : Edit) (first : Bool) (left : Nat) : Prop :=
  edit.newStop.bytes = edit.start.bytes ∨ left < edit.start.bytes ∨
    (left = edit.start.bytes ∧ (first ∨ edit.oldStop.bytes ≠ edit.start.bytes))

section Bytes

variable (edit : Edit) (origin : Extent)

@[simp]
theorem bytes_start_relativeTo :
    (edit.relativeTo origin).start.bytes = edit.start.bytes - origin.bytes := by
  simp [relativeTo]

@[simp]
theorem bytes_oldStop_relativeTo :
    (edit.relativeTo origin).oldStop.bytes = edit.oldStop.bytes - origin.bytes := by
  simp [relativeTo]

@[simp]
theorem bytes_newStop_relativeTo :
    (edit.relativeTo origin).newStop.bytes = edit.newStop.bytes - origin.bytes := by
  simp [relativeTo]

@[simp] theorem start_withoutNew : edit.withoutNew.start = edit.start := rfl
@[simp] theorem oldStop_withoutNew : edit.withoutNew.oldStop = edit.oldStop := rfl
@[simp] theorem newStop_withoutNew : edit.withoutNew.newStop = edit.start := rfl
@[simp] theorem start_emptied : edit.emptied.start = edit.start := rfl
@[simp] theorem oldStop_emptied : edit.emptied.oldStop = edit.start := rfl
@[simp] theorem newStop_emptied : edit.emptied.newStop = edit.start := rfl

@[simp]
theorem isInsertion_iff :
    edit.isInsertion = true ↔ edit.oldStop.bytes = edit.start.bytes := by
  simp [isInsertion]

@[simp]
theorem isEmpty_iff :
    edit.isEmpty = true ↔
      edit.oldStop.bytes = edit.start.bytes ∧ edit.newStop.bytes = edit.start.bytes := by
  simp [isEmpty]

end Bytes

variable {edit : Edit}

/-- Whether an edit reaches a stretch of text that begins at 0. -/
def Reaches (edit : Edit) (length : Nat) : Prop :=
  edit.start.bytes < length ∨
    (edit.start.bytes = length ∧ edit.oldStop.bytes = edit.start.bytes)

theorem resized_of_reaches {length : Nat} (reaches : edit.Reaches length) :
    edit.resized length = edit.newStop.bytes + (length - edit.oldStop.bytes) := if_pos reaches

theorem resized_of_not_reaches {length : Nat} (reaches : ¬edit.Reaches length) :
    edit.resized length = length := if_neg reaches

/-- An edit that begins before a stretch of text only takes away from its front. -/
theorem resized_of_zero {length : Nat} (start : edit.start.bytes = 0)
    (new : edit.newStop.bytes = 0) : edit.resized length = length - edit.oldStop.bytes := by
  by_cases reaches : edit.Reaches length
  · rw [resized_of_reaches reaches, new, Nat.zero_add]
  · rw [resized_of_not_reaches reaches]
    simp only [Reaches] at reaches
    omega

@[simp]
theorem resized_emptied (length : Nat) : edit.emptied.resized length = length := by
  by_cases reaches : edit.emptied.Reaches length
  · rw [resized_of_reaches reaches]
    simp only [Reaches, start_emptied] at reaches
    simp only [newStop_emptied, oldStop_emptied]
    omega
  · exact resized_of_not_reaches reaches

theorem repadded_of_past {length : Nat} (past : length ≤ edit.start.bytes)
    (removes : edit.oldStop.bytes ≤ length → edit.newStop.bytes = edit.oldStop.bytes) :
    edit.repadded length = length := by
  unfold repadded
  split
  · omega
  · rw [if_neg (by omega)]

theorem Forward.relativeTo (forward : edit.Forward) (origin : Extent) :
    (edit.relativeTo origin).Forward := by
  rcases forward with ⟨old, new⟩
  constructor <;> simp <;> omega

theorem forward_emptied : edit.emptied.Forward := ⟨Nat.le_refl _, Nat.le_refl _⟩

theorem Forward.withoutNew (forward : edit.Forward) : edit.withoutNew.Forward :=
  ⟨forward.old, Nat.le_refl _⟩

theorem due_withoutNew (first : Bool) (left : Nat) : edit.withoutNew.Due first left := Or.inl rfl

end Edit

namespace Info

/-- An edit lies past a node if it begins after all that the node looked at, or changes nothing
right there. -/
theorem isBefore_iff (info : Info) (edit : Edit) :
    info.isBefore edit = true ↔
      info.total.bytes + info.lookahead < edit.start.bytes ∨
        (edit.isEmpty = true ∧ edit.start.bytes = info.total.bytes + info.lookahead) := by
  simp [isBefore]

@[simp]
theorem changed_reshape (info : Info) (edit : Edit) : (info.reshape edit).changed = true := by
  unfold reshape
  split <;> (try split) <;> (try split) <;> rfl

@[simp]
theorem lookahead_reshape (info : Info) (edit : Edit) :
    (info.reshape edit).lookahead = info.lookahead := by
  unfold reshape
  split <;> (try split) <;> (try split) <;> rfl

/-- The padding after an edit depends on nothing but the padding before it. -/
theorem padding_reshape (info : Info) (edit : Edit) :
    (info.reshape edit).padding.bytes = edit.repadded info.padding.bytes := by
  unfold reshape Edit.repadded
  split
  · simp
  · split
    · rfl
    · split <;> rfl

theorem total_reshape (info : Info) {edit : Edit} (forward : edit.Forward) :
    (info.reshape edit).total.bytes = edit.resized info.total.bytes := by
  rcases forward with ⟨old, new⟩
  simp only [total, Extent.bytes_add]
  unfold reshape
  split
  · rw [Edit.resized_of_reaches (by simp only [Edit.Reaches]; omega)]
    simp only [Extent.bytes_add, Extent.bytes_sub]
    omega
  · split
    · rw [Edit.resized_of_reaches (by simp only [Edit.Reaches]; omega)]
      simp only [Extent.bytes_remainder, Extent.bytes_sub]
      omega
    · split
      · rename_i reaches
        simp only [total, Extent.bytes_add, Edit.isInsertion_iff] at reaches
        rw [Edit.resized_of_reaches reaches]
        simp only [total, Extent.bytes_add, Extent.bytes_sub, Extent.bytes_remainder]
        omega
      · rename_i reaches
        simp only [total, Extent.bytes_add, Edit.isInsertion_iff] at reaches
        exact (Edit.resized_of_not_reaches reaches).symm

end Info

namespace Tree

/-! ## One child after the other -/

variable {edit : Edit} {first : Bool} {left : Extent} {field : Nat} {child : Tree}
  {rest : List (Edge Tree)}

theorem edit_of_isBefore (tree : Tree) (before : tree.info.isBefore edit = true) :
    tree.edit edit = tree := by
  cases tree with
  | node info children =>
      simp only [info_node] at before
      simp [Tree.edit, before]

theorem edit_of_not_isBefore {info : Info} {children : List (Edge Tree)}
    (reached : info.isBefore edit = false) :
    (node info children).edit edit =
      node (info.reshape edit) (editChildren edit true Extent.zero children) := by
  simp [Tree.edit, reached]

/-- What the walk can do at a child: leave it and all later ones alone because they start after the
edit, go past it with nothing to remove or add, or hand it the edit and keep the new text from the
later ones. -/
theorem editChildren_cons_cases (edit : Edit) (first : Bool) (left : Extent) (field : Nat)
    (child : Tree) (rest : List (Edge Tree)) (forward : edit.Forward) :
    (editChildren edit first left (⟨field, child⟩ :: rest) = ⟨field, child⟩ :: rest ∧
        (edit.oldStop.bytes < left.bytes ∨
          (left.bytes = edit.oldStop.bytes ∧ 0 < child.total.bytes ∧ first = false))) ∨
      (editChildren edit first left (⟨field, child⟩ :: rest) =
          ⟨field, child.edit (edit.relativeTo left).emptied⟩ ::
            editChildren edit false (left + child.total) rest ∧
        left.bytes + child.total.bytes ≤ edit.start.bytes ∧
        (left.bytes + child.total.bytes < edit.start.bytes ∨
          edit.oldStop.bytes ≠ edit.start.bytes)) ∨
      (editChildren edit first left (⟨field, child⟩ :: rest) =
          ⟨field, child.edit (edit.relativeTo left)⟩ ::
            editChildren edit.withoutNew false (left + child.total) rest ∧
        left.bytes ≤ edit.oldStop.bytes ∧
        (edit.start.bytes < left.bytes + child.total.bytes ∨
          (edit.start.bytes = left.bytes + child.total.bytes ∧
            edit.oldStop.bytes = edit.start.bytes))) := by
  rcases forward with ⟨old, new⟩
  rw [editChildren]
  simp only [Extent.bytes_add, Bool.not_eq_true', Edit.isInsertion_iff]
  split
  · rename_i past
    -- an emptied edit past the child does nothing to it
    have before : child.info.isBefore (edit.relativeTo left).emptied = true := by
      rw [Info.isBefore_iff]
      left
      simp only [Edit.start_emptied, Edit.bytes_start_relativeTo]
      simp only [total] at past
      omega
    right
    left
    rw [edit_of_isBefore child before]
    refine ⟨rfl, ?_, ?_⟩ <;> omega
  · split
    · rename_i after
      left
      exact ⟨rfl, after⟩
    · split
      · right
        right
        refine ⟨rfl, ?_, ?_⟩ <;> omega
      · right
        left
        refine ⟨rfl, ?_, ?_⟩ <;> omega

/-! ## Lengths -/

theorem total_edit (tree : Tree) (forward : edit.Forward) :
    (tree.edit edit).total.bytes = edit.resized tree.total.bytes := by
  cases tree with
  | node info children =>
      by_cases before : info.isBefore edit = true
      · rw [edit_of_isBefore (node info children) before]
        rw [Info.isBefore_iff, Edit.isEmpty_iff] at before
        change info.total.bytes = edit.resized info.total.bytes
        by_cases reaches : edit.Reaches info.total.bytes
        · rw [Edit.resized_of_reaches reaches]
          simp only [Edit.Reaches] at reaches
          omega
        · exact (Edit.resized_of_not_reaches reaches).symm
      · rw [edit_of_not_isBefore (by simpa using before)]
        exact Info.total_reshape info forward

/-- What is left of an edit for the children after one that the edit went past. -/
theorem due_of_past (due : edit.Due first left.bytes)
    (past : left.bytes + child.total.bytes ≤ edit.start.bytes)
    (placed : left.bytes + child.total.bytes < edit.start.bytes ∨
      edit.oldStop.bytes ≠ edit.start.bytes) :
    edit.Due false (left + child.total).bytes := by
  simp only [Edit.Due, Extent.bytes_add] at due ⊢
  rcases due with same | later | here <;> omega

/-- A stretch of text after the edit's start takes the edit as its two parts do, if the edit goes
past the first part. -/
theorem resized_past {length width : Nat} (past : left.bytes + length ≤ edit.start.bytes)
    (forward : edit.Forward) (right : Extent) (next : right.bytes = left.bytes + length) :
    length + (edit.relativeTo right).resized width =
      (edit.relativeTo left).resized (length + width) := by
  rcases forward with ⟨old, new⟩
  by_cases reaches : (edit.relativeTo right).Reaches width
  · have whole : (edit.relativeTo left).Reaches (length + width) := by
      simp only [Edit.Reaches, Edit.bytes_start_relativeTo,
        Edit.bytes_oldStop_relativeTo] at reaches ⊢
      omega
    rw [Edit.resized_of_reaches reaches, Edit.resized_of_reaches whole]
    simp only [Edit.bytes_oldStop_relativeTo, Edit.bytes_newStop_relativeTo]
    omega
  · have whole : ¬(edit.relativeTo left).Reaches (length + width) := by
      simp only [Edit.Reaches, Edit.bytes_start_relativeTo,
        Edit.bytes_oldStop_relativeTo] at reaches ⊢
      omega
    rw [Edit.resized_of_not_reaches reaches, Edit.resized_of_not_reaches whole]

/-- A stretch of text takes an edit as its two parts do, if the edit reaches the first part and
places its new text there. -/
theorem resized_touched {length width : Nat} (due : edit.Due first left.bytes)
    (touched : edit.start.bytes < left.bytes + length ∨
      (edit.start.bytes = left.bytes + length ∧ edit.oldStop.bytes = edit.start.bytes))
    (forward : edit.Forward) (right : Extent) (next : right.bytes = left.bytes + length) :
    (edit.relativeTo left).resized length + (edit.withoutNew.relativeTo right).resized width =
      (edit.relativeTo left).resized (length + width) := by
  rcases forward with ⟨old, new⟩
  have tail : (edit.withoutNew.relativeTo right).resized width =
      width - (edit.oldStop.bytes - right.bytes) := by
    rw [Edit.resized_of_zero] <;>
      simp only [Edit.bytes_start_relativeTo, Edit.bytes_oldStop_relativeTo,
        Edit.bytes_newStop_relativeTo, Edit.start_withoutNew, Edit.oldStop_withoutNew,
        Edit.newStop_withoutNew] <;> omega
  rw [tail]
  by_cases started : edit.start.bytes < left.bytes
  · -- the new text was placed before this stretch
    have same : edit.newStop.bytes = edit.start.bytes := by
      simp only [Edit.Due] at due
      omega
    rw [Edit.resized_of_zero, Edit.resized_of_zero] <;>
      simp only [Edit.bytes_start_relativeTo, Edit.bytes_oldStop_relativeTo,
        Edit.bytes_newStop_relativeTo] <;> omega
  · have reaches : (edit.relativeTo left).Reaches length := by
      simp only [Edit.Reaches, Edit.bytes_start_relativeTo, Edit.bytes_oldStop_relativeTo]
      omega
    have whole : (edit.relativeTo left).Reaches (length + width) ∨ width = 0 := by
      simp only [Edit.Reaches, Edit.bytes_start_relativeTo, Edit.bytes_oldStop_relativeTo]
      omega
    rcases whole with whole | empty
    · rw [Edit.resized_of_reaches reaches, Edit.resized_of_reaches whole]
      simp only [Edit.bytes_oldStop_relativeTo, Edit.bytes_newStop_relativeTo]
      omega
    · simp [empty]

theorem widthOf_editChildren (forward : edit.Forward) (due : edit.Due first left.bytes)
    {children : List (Edge Tree)} (inhabited : children ≠ [] ∨ first = false) :
    widthOf (editChildren edit first left children) =
      (edit.relativeTo left).resized (widthOf children) := by
  induction children generalizing edit first left with
  | nil =>
      have later : first = false := by simpa using inhabited
      rcases forward with ⟨old, new⟩
      simp only [editChildren, widthOf_nil]
      by_cases reaches : (edit.relativeTo left).Reaches 0
      · rw [Edit.resized_of_reaches reaches]
        simp only [Edit.Reaches, Edit.bytes_start_relativeTo,
          Edit.bytes_oldStop_relativeTo] at reaches
        simp only [Edit.Due, later, Bool.false_eq_true, false_or] at due
        simp only [Edit.bytes_newStop_relativeTo]
        omega
      · exact (Edit.resized_of_not_reaches reaches).symm
  | cons edge rest ih =>
      rcases edge with ⟨field, child⟩
      rw [widthOf_cons]
      rcases editChildren_cons_cases edit first left field child rest forward with
        ⟨same, after⟩ | ⟨step, past, placed⟩ | ⟨step, reached, touched⟩
      · -- nothing is left to remove or to add
        rw [same, widthOf_cons, Edit.resized_of_zero] <;>
          simp only [Edit.bytes_start_relativeTo, Edit.bytes_oldStop_relativeTo,
            Edit.bytes_newStop_relativeTo] <;>
          have old := forward.old <;>
          simp only [Edit.Due] at due
        · omega
        · omega
        · rcases after with after | ⟨here, some, later⟩
          · omega
          · simp only [later, Bool.false_eq_true, false_or] at due
            omega
      · rw [step, widthOf_cons, ih forward (due_of_past due past placed) (Or.inr rfl),
          total_edit child Edit.forward_emptied, Edit.resized_emptied]
        exact resized_past past forward _ (by simp)
      · rw [step, widthOf_cons, ih forward.withoutNew (Edit.due_withoutNew false _) (Or.inr rfl),
          total_edit child (forward.relativeTo left)]
        exact resized_touched due touched forward _ (by simp)

/-! ## Layout -/

theorem padding_le_total (tree : Tree) : tree.info.padding.bytes ≤ tree.total.bytes :=
  Nat.le_add_right _ _

theorem padding_edit (tree : Tree) (forward : edit.Forward) :
    (tree.edit edit).info.padding.bytes = edit.repadded tree.info.padding.bytes := by
  cases tree with
  | node info children =>
      by_cases before : info.isBefore edit = true
      · have within := padding_le_total (node info children)
        have old := forward.old
        rw [edit_of_isBefore (node info children) before]
        rw [Info.isBefore_iff, Edit.isEmpty_iff] at before
        change info.padding.bytes ≤ info.total.bytes at within
        symm
        apply Edit.repadded_of_past <;> simp only [info_node] <;> omega
      · rw [edit_of_not_isBefore (by simpa using before)]
        exact Info.padding_reshape info edit

/-- The first child goes on to begin where its parent does. -/
theorem paddingOf_editChildren (forward : edit.Forward) (edge : Edge Tree)
    (rest : List (Edge Tree)) :
    (paddingOf (editChildren edit true Extent.zero (edge :: rest))).bytes =
      edit.repadded edge.tree.info.padding.bytes := by
  rcases edge with ⟨field, child⟩
  change _ = edit.repadded child.info.padding.bytes
  have within := padding_le_total child
  have old := forward.old
  rcases editChildren_cons_cases edit true Extent.zero field child rest forward with
    ⟨_, after⟩ | ⟨step, past, placed⟩ | ⟨step, _, _⟩
  · simp [Extent.zero] at after
  · rw [step, paddingOf, padding_edit child Edit.forward_emptied]
    simp only [Extent.zero, Nat.zero_add] at past placed
    rw [Edit.repadded_of_past, Edit.repadded_of_past]
    · omega
    · omega
    · simp only [Edit.start_emptied, Edit.bytes_start_relativeTo, Extent.zero]
      omega
    · simp
  · rw [step, paddingOf, padding_edit child (forward.relativeTo _)]
    simp [Edit.repadded, Extent.zero]

mutual

/-- After an edit every inner node still covers its children end to end. -/
theorem Laid.edit {edit : Edit} (forward : edit.Forward) :
    (tree : Tree) → tree.Laid → (tree.edit edit).Laid
  | node info children, laid => by
    by_cases before : info.isBefore edit = true
    · rw [edit_of_isBefore (node info children) before]
      exact laid
    · rw [edit_of_not_isBefore (by simpa using before)]
      refine everywhere_node.mpr ⟨?_, laid_editChildren forward true Extent.zero children
        laid.children⟩
      intro _
      cases children with
      | nil => simp_all [editChildren]
      | cons edge rest =>
          constructor
          · rw [Info.padding_reshape, paddingOf_editChildren forward, laid.padding_eq]
          · have due : edit.Due true Extent.zero.bytes := by
              simp only [Edit.Due, Extent.zero, true_or, and_true]
              omega
            rw [Info.total_reshape info forward, laid.total_eq,
              widthOf_editChildren forward due (Or.inl (List.cons_ne_nil _ _))]
            simp [Edit.resized, Extent.zero]

theorem laid_editChildren {edit : Edit} (forward : edit.Forward) (first : Bool) (left : Extent) :
    (children : List (Edge Tree)) → EverywhereAmong IsLaid children →
      EverywhereAmong IsLaid (editChildren edit first left children)
  | [], laid => laid
  | ⟨field, child⟩ :: rest, laid => by
    rcases everywhereAmong_cons.mp laid with ⟨here, later⟩
    rcases editChildren_cons_cases edit first left field child rest forward with
      ⟨step, _⟩ | ⟨step, _⟩ | ⟨step, _⟩
    · rw [step]
      exact laid
    · rw [step]
      exact everywhereAmong_cons.mpr ⟨Laid.edit Edit.forward_emptied child here,
        laid_editChildren forward false _ rest later⟩
    · rw [step]
      exact everywhereAmong_cons.mpr ⟨Laid.edit (forward.relativeTo left) child here,
        laid_editChildren forward.withoutNew false _ rest later⟩

end

end Tree

end Reparse
