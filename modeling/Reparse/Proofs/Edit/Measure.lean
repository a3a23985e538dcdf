import Reparse.Proofs.Edit.Unchanged
import Reparse.Proofs.Tree.Measured

/-!
# Edits keep trees measured

The three places of an edit come with rows and columns, which agree with the bytes in the text before
the edit and in the text after it (`Edit.Marks`). A node sees an edit from its own start. What it sees
is again measured by the two texts, from where the node lies in each of them (`Edit.Meets`), and that
is kept from one child to the next, whatever the walk does at the child. So a tree that is measured by
a text is measured by the edited text after the edit (`Tree.Measured.edit`).
-/

namespace Reparse

namespace Text

variable {text : Text} {here : Nat}

/-- What is left of a stretch after its front. -/
theorem remainder_width {left whole : Extent}
    (reached : left.bytes ≤ whole.bytes →
      whole = left + text.width here (whole.bytes - left.bytes)) :
    whole.remainder left = text.width here (whole.bytes - left.bytes) := by
  unfold Extent.remainder
  split
  · rename_i longer
    have difference : left + text.width here (whole.bytes - left.bytes) - left =
        text.width here (whole.bytes - left.bytes) := Extent.append_difference _ _
    rwa [← reached (Nat.le_of_lt longer)] at difference
  · rename_i short
    rw [Nat.sub_eq_zero_of_le (Nat.le_of_not_lt short), width_zero]

end Text

namespace Edit

variable {edit : Edit} {text other inserted : Text} {left : Extent} {here there length : Nat}

/-- An edit, seen from some node around, meets a part of the node that begins at `left` in it, at
`here` in the text before the edit and at `there` in the text after it: what lies behind `left` is
measured by these texts, and they read the same but for what the edit replaces. -/
structure Meets (edit : Edit) (left : Extent) (text : Text) (here : Nat) (other : Text)
    (there : Nat) : Prop where
  start_eq : left.bytes ≤ edit.start.bytes →
    edit.start = left + text.width here (edit.start.bytes - left.bytes)
  oldStop_eq : left.bytes ≤ edit.oldStop.bytes →
    edit.oldStop = left + text.width here (edit.oldStop.bytes - left.bytes)
  newStop_eq : left.bytes ≤ edit.newStop.bytes →
    edit.newStop = left + other.width there (edit.newStop.bytes - left.bytes)
  before : ∀ index, left.bytes + index < edit.start.bytes →
    text[here + index]? = other[there + index]?
  after : ∀ index, text[here + (edit.oldStop.bytes - left.bytes) + index]? =
    other[there + (edit.newStop.bytes - left.bytes) + index]?

namespace Meets

/-- The texts read the same from a place before the edit's start up to that. -/
theorem width_before (meets : edit.Meets left text here other there)
    (inside : left.bytes + length ≤ edit.start.bytes) :
    text.width here length = other.width there length :=
  Text.width_congr fun index within => meets.before index (by omega)

/-- The texts read the same behind the edit. -/
theorem width_after (meets : edit.Meets left text here other there) (start length : Nat) :
    text.width (here + (edit.oldStop.bytes - left.bytes) + start) length =
      other.width (there + (edit.newStop.bytes - left.bytes) + start) length := by
  apply Text.width_congr
  intro index _
  rw [Nat.add_assoc _ start, Nat.add_assoc _ start]
  exact meets.after (start + index)

/-- The part sees the edit as the node around does. -/
theorem relativeTo (meets : edit.Meets left text here other there) :
    (edit.relativeTo left).Meets Extent.zero text here other there where
  start_eq _ := by
    rw [Extent.zero_append, bytes_start_relativeTo]
    exact Text.remainder_width meets.start_eq
  oldStop_eq _ := by
    rw [Extent.zero_append, bytes_oldStop_relativeTo]
    exact Text.remainder_width meets.oldStop_eq
  newStop_eq _ := by
    rw [Extent.zero_append, bytes_newStop_relativeTo]
    exact Text.remainder_width meets.newStop_eq
  before index inside := by
    simp only [bytes_start_relativeTo, Extent.zero] at inside
    exact meets.before index (by omega)
  after index := by
    simp only [bytes_oldStop_relativeTo, bytes_newStop_relativeTo, Extent.zero, Nat.sub_zero]
    exact meets.after index

/-- With nothing removed and nothing added, the part sees the edit in the text after it. -/
theorem emptied (meets : edit.Meets left text here other there) :
    (edit.relativeTo left).emptied.Meets Extent.zero other there other there := by
  have start : (edit.relativeTo left).start =
      Extent.zero + other.width there ((edit.relativeTo left).start.bytes - 0) := by
    have place := meets.relativeTo.start_eq (Nat.zero_le _)
    rwa [meets.relativeTo.width_before (by simp [Extent.zero])] at place
  exact ⟨fun _ => start, fun _ => start, fun _ => start, fun _ _ => rfl, fun _ => rfl⟩

/-- The part behind one that the edit goes past. -/
theorem past (meets : edit.Meets left text here other there) (forward : edit.Forward)
    (past : left.bytes + length ≤ edit.start.bytes) :
    edit.Meets (left + text.width here length) text (here + length) other (there + length) := by
  rcases forward with ⟨old, new⟩
  have bytes : (left + text.width here length).bytes = left.bytes + length := by simp
  have split (place : Nat) (reached : left.bytes + length ≤ place) :
      place - left.bytes = length + (place - (left.bytes + length)) := by omega
  constructor
  · intro reached
    rw [bytes] at reached ⊢
    rw [Extent.append_assoc, ← Text.width_append, ← split _ reached]
    exact meets.start_eq (by omega)
  · intro reached
    rw [bytes] at reached ⊢
    rw [Extent.append_assoc, ← Text.width_append, ← split _ reached]
    exact meets.oldStop_eq (by omega)
  · intro reached
    rw [bytes] at reached ⊢
    rw [meets.width_before past, Extent.append_assoc, ← Text.width_append, ← split _ reached]
    exact meets.newStop_eq (by omega)
  · intro index inside
    rw [bytes] at inside
    rw [Nat.add_assoc, Nat.add_assoc]
    exact meets.before _ (by omega)
  · intro index
    have after := meets.after index
    rw [split _ (by omega : left.bytes + length ≤ edit.oldStop.bytes),
      split _ (by omega : left.bytes + length ≤ edit.newStop.bytes)] at after
    rw [bytes]
    rwa [← Nat.add_assoc, ← Nat.add_assoc] at after

/-- The part behind one that took the new text. -/
theorem touched (meets : edit.Meets left text here other there) (forward : edit.Forward)
    {first : Bool} (due : edit.Due first left.bytes) (below : left.bytes ≤ edit.oldStop.bytes)
    (touched : edit.start.bytes < left.bytes + length ∨
      (edit.start.bytes = left.bytes + length ∧ edit.oldStop.bytes = edit.start.bytes)) :
    edit.withoutNew.Meets (left + text.width here length) text (here + length) other
      (there + (edit.relativeTo left).resized length) := by
  rcases forward with ⟨old, new⟩
  have bytes : (left + text.width here length).bytes = left.bytes + length := by simp
  have started : edit.start.bytes ≤ left.bytes + length := by omega
  -- an edit that starts just behind the part starts where the part ends
  have start (reached : left.bytes + length ≤ edit.start.bytes) :
      edit.start = left + text.width here length := by
    have place := meets.start_eq (by omega)
    rwa [show edit.start.bytes - left.bytes = length by omega] at place
  have moved : (edit.relativeTo left).resized length =
      edit.newStop.bytes - left.bytes + (length - (edit.oldStop.bytes - left.bytes)) := by
    by_cases reaches : (edit.relativeTo left).Reaches length
    · rw [resized_of_reaches reaches, bytes_newStop_relativeTo, bytes_oldStop_relativeTo]
    · rw [resized_of_not_reaches reaches]
      simp only [Reaches, bytes_start_relativeTo, bytes_oldStop_relativeTo] at reaches
      simp only [Due] at due
      omega
  constructor
  · intro reached
    rw [bytes] at reached ⊢
    rw [start_withoutNew] at reached ⊢
    rw [Nat.sub_eq_zero_of_le started, Text.width_zero, Extent.append_zero]
    exact start reached
  · intro reached
    rw [bytes] at reached ⊢
    rw [oldStop_withoutNew] at reached ⊢
    rw [Extent.append_assoc, ← Text.width_append]
    have place := meets.oldStop_eq (by omega)
    rwa [show edit.oldStop.bytes - left.bytes =
      length + (edit.oldStop.bytes - (left.bytes + length)) by omega] at place
  · intro reached
    rw [bytes] at reached ⊢
    rw [newStop_withoutNew] at reached ⊢
    rw [Nat.sub_eq_zero_of_le started, Text.width_zero, Extent.append_zero]
    exact start reached
  · intro index inside
    rw [bytes, start_withoutNew] at inside
    omega
  · intro index
    have after := meets.after (length - (edit.oldStop.bytes - left.bytes) + index)
    rw [bytes, oldStop_withoutNew, newStop_withoutNew, Nat.sub_eq_zero_of_le started, moved]
    have source : here + (edit.oldStop.bytes - left.bytes) +
        (length - (edit.oldStop.bytes - left.bytes) + index) =
        here + length + (edit.oldStop.bytes - (left.bytes + length)) + index := by omega
    have target : there + (edit.newStop.bytes - left.bytes) +
        (length - (edit.oldStop.bytes - left.bytes) + index) =
        there + (edit.newStop.bytes - left.bytes + (length - (edit.oldStop.bytes - left.bytes))) +
          0 + index := by omega
    rwa [source, target] at after

/-- Nothing is left to be changed from a part on that starts behind the edit. -/
theorem same_after (meets : edit.Meets left text here other there)
    (old : edit.oldStop.bytes ≤ left.bytes) (new : edit.newStop.bytes ≤ left.bytes) (index : Nat) :
    text[here + index]? = other[there + index]? := by
  have after := meets.after index
  rwa [Nat.sub_eq_zero_of_le old, Nat.sub_eq_zero_of_le new] at after

end Meets

end Edit

/-! ## One node -/

theorem Text.width_sub {text : Text} {here first whole : Nat} (within : first ≤ whole) :
    text.width here whole - text.width here first =
      text.width (here + first) (whole - first) := by
  have difference := Extent.append_difference (text.width here first)
    (text.width (here + first) (whole - first))
  rwa [← width_append, Nat.add_sub_cancel' within] at difference

/-- What is left of a stretch after its front, which may reach past it. -/
theorem Text.remainder_width_width {text : Text} {here first whole : Nat} :
    (text.width here whole).remainder (text.width here first) =
      text.width (here + first) (whole - first) := by
  unfold Extent.remainder
  split
  · rename_i longer
    rw [bytes_width, bytes_width] at longer
    exact width_sub (Nat.le_of_lt longer)
  · rename_i short
    rw [bytes_width, bytes_width] at short
    rw [Nat.sub_eq_zero_of_le (Nat.le_of_not_lt short), width_zero]

/-- Seen from where a node begins, the places of an edit are as wide as stretches of the two texts,
which read the same before the edit and behind it. -/
theorem Edit.Meets.exists_widths {edit : Edit} {text other : Text} {here there : Nat}
    (meets : edit.Meets Extent.zero text here other there) :
    ∃ first old new,
      edit = ⟨text.width here first, text.width here old, other.width there new⟩ ∧
      (∀ skipped length, skipped ≤ length → length ≤ first →
        text.width (here + skipped) (length - skipped) =
          other.width (there + skipped) (length - skipped)) ∧
      ∀ skipped length, text.width (here + old + skipped) length =
        other.width (there + new + skipped) length := by
  rcases edit with ⟨start, oldStop, newStop⟩
  obtain ⟨first, rfl⟩ : ∃ first, start = text.width here first :=
    ⟨_, (meets.start_eq (Nat.zero_le _)).trans (Extent.zero_append _)⟩
  obtain ⟨old, rfl⟩ : ∃ old, oldStop = text.width here old :=
    ⟨_, (meets.oldStop_eq (Nat.zero_le _)).trans (Extent.zero_append _)⟩
  obtain ⟨new, rfl⟩ : ∃ new, newStop = other.width there new :=
    ⟨_, (meets.newStop_eq (Nat.zero_le _)).trans (Extent.zero_append _)⟩
  refine ⟨first, old, new, rfl, ?_, ?_⟩
  · intro skipped length within inside
    apply Text.width_congr
    intro index before
    rw [Nat.add_assoc, Nat.add_assoc]
    refine meets.before _ ?_
    simp only [Extent.zero, Text.bytes_width]
    omega
  · intro skipped length
    have after := meets.width_after skipped length
    simpa only [Extent.zero, Text.bytes_width, Nat.sub_zero] using after

namespace Info

variable {info : Info} {edit : Edit} {text other : Text} {here there : Nat}

/-- A node that an edit touches is measured by the edited text. -/
theorem Measured.reshape (measured : info.Measured text here) (forward : edit.Forward)
    (meets : edit.Meets Extent.zero text here other there) :
    (info.reshape edit).Measured other there := by
  obtain ⟨padding, padding_eq⟩ : ∃ padding, info.padding = text.width here padding :=
    ⟨_, measured.padding_eq⟩
  obtain ⟨size, size_eq⟩ : ∃ size, info.size = text.width (here + padding) size := by
    have own := measured.size_eq
    rw [padding_eq, Text.bytes_width] at own
    exact ⟨_, own⟩
  rcases meets.exists_widths with ⟨first, old, new, rfl, same, behind⟩
  rcases forward with ⟨notBefore, onward⟩
  have whole : info.total = text.width here (padding + size) := by
    rw [Info.total, padding_eq, size_eq, Text.width_append]
  simp only [Text.bytes_width] at notBefore onward
  unfold Info.reshape
  simp only [whole, padding_eq, size_eq, Text.bytes_width, Edit.isInsertion_iff]
  split
  · -- the edit lies in the padding
    rename_i inside
    refine measured_of_widths (new + (padding - old)) size ?_ ?_
    · have rest := behind 0 (padding - old)
      rw [Text.width_append, Text.width_sub inside]
      exact congrArg (other.width there new + ·) rest
    · have moved := behind (padding - old) size
      rw [show here + old + (padding - old) = here + padding by omega, Nat.add_assoc there] at moved
      exact moved
  · rename_i longer
    split
    · -- it starts in the padding and ends behind that
      rename_i begun
      refine measured_of_widths new (size - (old - padding)) rfl ?_
      have rest := behind 0 (size - (old - padding))
      have past : text.width here old - text.width here padding =
          text.width (here + padding) (old - padding) := Text.width_sub (by omega)
      have place : here + padding + (old - padding) = here + old := by omega
      simp only [past, Text.remainder_width_width, place]
      exact rest
    · split
      · -- it starts in the content
        refine measured_of_widths padding (new - padding + (padding + size - old)) ?_ ?_
        · exact same 0 padding (Nat.zero_le _) (by omega)
        · have front : text.width here padding = other.width there padding :=
            same 0 padding (Nat.zero_le _) (by omega)
          have rest := behind 0 (padding + size - old)
          have place : there + padding + (new - padding) = there + new := by omega
          simp only [front, Text.width_sub (show padding ≤ new by omega),
            Text.remainder_width_width, Text.width_append (new - padding), place]
          exact congrArg _ rest
      · -- it starts behind the node
        refine measured_of_widths padding size ?_ ?_
        · exact same 0 padding (Nat.zero_le _) (by omega)
        · have content := same padding (padding + size) (Nat.le_add_right _ _) (by omega)
          rwa [Nat.add_sub_cancel_left] at content

end Info

/-! ## The walk -/

namespace Tree

mutual

/-- A tree that is measured by a text is measured by the edited text after the edit. -/
theorem Measured.edit {edit : Edit} (forward : edit.Forward) : (tree : Tree) →
    ∀ {text other : Text} {here there : Nat}, tree.Laid → tree.Measured text here →
      edit.Meets Extent.zero text here other there → (tree.edit edit).Measured other there
  | node info children, text, other, here, there, laid, measured, meets => by
    rcases measured_node.mp measured with ⟨own, among⟩
    by_cases before : info.isBefore edit = true
    · rw [edit_of_isBefore (node info children) before]
      refine measured.congr (node info children) laid fun index inside => ?_
      rw [Info.isBefore_iff] at before
      change index < info.total.bytes at inside
      refine meets.before index ?_
      simp only [Extent.zero, Nat.zero_add]
      omega
    · rw [edit_of_not_isBefore (by simpa using before)]
      have due : edit.Due true Extent.zero.bytes := by
        simp only [Edit.Due, Extent.zero, true_or, and_true]
        omega
      exact measured_node.mpr ⟨own.reshape forward meets,
        measuredAmong_editChildren forward due children laid.children among meets⟩

theorem measuredAmong_editChildren {edit : Edit} {first : Bool} {left : Extent}
    (forward : edit.Forward) (due : edit.Due first left.bytes) : (children : List (Edge Tree)) →
    ∀ {text other : Text} {here there : Nat}, EverywhereAmong IsLaid children →
      MeasuredAmong text here children → edit.Meets left text here other there →
        MeasuredAmong other there (editChildren edit first left children)
  | [], _, _, _, _, _, _, _ => by
    rw [editChildren]
    exact measuredAmong_nil
  | ⟨field, child⟩ :: rest, text, other, here, there, laid, measured, meets => by
    rcases everywhereAmong_cons.mp laid with ⟨laidHere, laidLater⟩
    rcases measuredAmong_cons.mp measured with ⟨own, among⟩
    have next : left + child.total = left + text.width here child.total.bytes :=
      congrArg _ own.info.total_eq
    rcases editChildren_cons_cases edit first left field child rest forward with
      ⟨same, after⟩ | ⟨step, past, placed⟩ | ⟨step, reached, touched⟩
    · -- nothing is left to remove or to add
      have old := forward.old
      rw [same]
      refine MeasuredAmong.congr _ laid measured fun index _ => meets.same_after ?_ ?_ index
      · omega
      · simp only [Edit.Due] at due
        rcases after with after | ⟨here, some, later⟩
        · omega
        · simp only [later, Bool.false_eq_true, false_or] at due
          omega
    · rw [step]
      have still : child.Measured other there := by
        refine own.congr child laidHere fun index inside => meets.before index ?_
        omega
      have passed := meets.past forward past
      rw [← next] at passed
      refine measuredAmong_cons.mpr ⟨?_, ?_⟩
      · exact Measured.edit Edit.forward_emptied child laidHere still meets.emptied
      · rw [total_edit child Edit.forward_emptied, Edit.resized_emptied]
        exact measuredAmong_editChildren forward (due_of_past due past placed) rest laidLater among
          passed
    · rw [step]
      have behind := meets.touched forward due reached touched
      rw [← next] at behind
      refine measuredAmong_cons.mpr ⟨?_, ?_⟩
      · exact Measured.edit (forward.relativeTo left) child laidHere own meets.relativeTo
      · rw [total_edit child (forward.relativeTo left)]
        exact measuredAmong_editChildren forward.withoutNew (Edit.due_withoutNew false _) rest
          laidLater among behind

end

end Tree

/-! ## Edits of a text -/

namespace Edit

/-- The edit replaces a stretch of a text by `inserted`, and the rows and columns of its places are
those of their offsets in the text before the edit and in the text after it. -/
structure Marks (edit : Edit) (text inserted : Text) : Prop where
  fits : edit.Fits text inserted
  start_eq : edit.start.point = text.pointAt edit.start.bytes
  oldStop_eq : edit.oldStop.point = text.pointAt edit.oldStop.bytes
  newStop_eq : edit.newStop.point = (edit.apply text inserted).pointAt edit.newStop.bytes

theorem Marks.meets {edit : Edit} {text inserted : Text} (marks : edit.Marks text inserted) :
    edit.Meets Extent.zero text 0 (edit.apply text inserted) 0 where
  start_eq _ := by
    have inside := Nat.le_trans marks.fits.old marks.fits.inside
    exact (Text.eq_place inside marks.start_eq).trans (Extent.zero_append _).symm
  oldStop_eq _ :=
    (Text.eq_place marks.fits.inside marks.oldStop_eq).trans (Extent.zero_append _).symm
  newStop_eq _ := by
    have inside : edit.newStop.bytes ≤ (edit.apply text inserted).size := by
      have size := marks.fits.size_apply
      have inside := marks.fits.inside
      omega
    exact (Text.eq_place inside marks.newStop_eq).trans (Extent.zero_append _).symm
  before index inside := by
    simp only [Extent.zero] at inside
    exact (marks.fits.apply_before (by omega)).symm
  after index := by
    simp only [Extent.zero]
    exact (marks.fits.apply_after (by omega) (by omega)).symm

end Edit

namespace Tree

variable {edit : Edit} {text inserted : Text} {tree : Tree}

/-- What an edit of a text makes of a tree that is measured by the text is measured by the edited
text. -/
theorem Measured.edited (measured : tree.Measured text 0) (laid : tree.Laid)
    (marks : edit.Marks text inserted) :
    (tree.edit edit).Measured (edit.apply text inserted) 0 :=
  Measured.edit marks.fits.forward tree laid measured marks.meets

end Tree

end Reparse
