import Reparse.Proofs.Edit.Layout
import Reparse.Proofs.Tree.Sound

/-!
# Unmarked nodes stay over their text

An edit of a tree goes with an edit of the text that the tree stands over. A node that is unmarked
after the edit was there before it, and the text that the node depended on lies wholly before the
edit or wholly behind it (`Edit.Carries`). Hence the node looks at the same bytes as before
(`Tree.At.agree_edit`).

That the walk does not stop above a node that it should have marked rests on the guards of a sound
tree, and an edit keeps the tree sound (`Tree.Sound.edit`), so that further edits may follow.
-/

namespace Reparse

namespace Edit

/-! ## The edited text -/

/-- The text after an edit that puts in `inserted`. -/
def apply (edit : Edit) (text inserted : Text) : Text :=
  text.extract 0 edit.start.bytes ++ inserted ++ text.extract edit.oldStop.bytes text.size

/-- The edit of a text that replaces a stretch of it by `inserted`. -/
structure Fits (edit : Edit) (text inserted : Text) : Prop where
  old : edit.start.bytes ≤ edit.oldStop.bytes
  inside : edit.oldStop.bytes ≤ text.size
  new : edit.newStop.bytes = edit.start.bytes + inserted.size

variable {edit : Edit} {text inserted : Text}

theorem Fits.forward (fits : edit.Fits text inserted) : edit.Forward := by
  rcases fits with ⟨old, _, new⟩
  constructor <;> omega

theorem Fits.size_apply (fits : edit.Fits text inserted) :
    (edit.apply text inserted).size + edit.oldStop.bytes = text.size + edit.newStop.bytes := by
  rcases fits with ⟨old, inside, new⟩
  simp only [apply, Array.size_append, Array.size_extract]
  omega

/-- The text in front of the edit stays. -/
theorem Fits.apply_before (fits : edit.Fits text inserted) {place : Nat}
    (before : place < edit.start.bytes) : (edit.apply text inserted)[place]? = text[place]? := by
  rcases fits with ⟨old, inside, new⟩
  have short : (text.extract 0 edit.start.bytes).size = edit.start.bytes := by
    simp only [Array.size_extract]
    omega
  rw [apply, Array.append_assoc, Array.getElem?_append_left (by omega), Array.getElem?_extract,
    if_pos (by omega), Nat.zero_add]

/-- The text behind the edit moves along with its end. -/
theorem Fits.apply_after (fits : edit.Fits text inserted) {source target : Nat}
    (behind : edit.oldStop.bytes ≤ source)
    (moved : target + edit.oldStop.bytes = source + edit.newStop.bytes) :
    (edit.apply text inserted)[target]? = text[source]? := by
  rcases fits with ⟨old, inside, new⟩
  have front : (text.extract 0 edit.start.bytes ++ inserted).size = edit.newStop.bytes := by
    simp only [Array.size_append, Array.size_extract]
    omega
  rw [apply, Array.getElem?_append_right (by omega), front, Array.getElem?_extract]
  have place : edit.oldStop.bytes + (target - edit.newStop.bytes) = source := by omega
  split
  · rw [place]
  · rw [Array.getElem?_eq_none (by omega)]

/-! ## Stretches that an edit leaves alone -/

/-- An edit leaves a stretch of `reach` bytes alone, which begins at `source` before the edit and at
`target` after it: nothing is there to be changed, or it lies before the edit, or behind it in a
text of `extent` bytes. All of this is seen from `origin`. -/
def Carries (edit : Edit) (origin extent source target reach : Nat) : Prop :=
  reach = 0 ∨ (source + reach ≤ edit.start.bytes - origin ∧ target = source) ∨
    (edit.oldStop.bytes - origin ≤ source ∧
      target + (edit.oldStop.bytes - origin) = source + (edit.newStop.bytes - origin) ∧
      edit.oldStop.bytes < origin + extent)

/-- The bytes of a stretch are the same before and after an edit that leaves it alone. -/
theorem Carries.same_bytes {extent source target reach : Nat}
    (carries : edit.Carries 0 extent source target reach) (fits : edit.Fits text inserted)
    {place : Nat} (within : place < reach) :
    (edit.apply text inserted)[target + place]? = text[source + place]? := by
  rcases carries with rfl | ⟨before, rfl⟩ | ⟨behind, moved, _⟩
  · exact absurd within (Nat.not_lt_zero place)
  · exact fits.apply_before (by omega)
  · exact fits.apply_after (by omega) (by omega)

/-- What happens in a part of the text that begins at `left`, seen from the text around it. -/
theorem Carries.of_relativeTo {left : Extent} {inner extent source target reach : Nat}
    (carries : (edit.relativeTo left).Carries 0 inner source target reach)
    (below : left.bytes ≤ edit.oldStop.bytes) (within : inner ≤ extent) :
    edit.Carries left.bytes extent source target reach := by
  simp only [Carries, bytes_start_relativeTo, bytes_oldStop_relativeTo,
    bytes_newStop_relativeTo] at carries ⊢
  omega

/-- What happens behind a stretch of `length` bytes that the edit went past. -/
theorem Carries.of_past {left length width source target reach : Nat} (forward : edit.Forward)
    (past : left + length ≤ edit.start.bytes)
    (carries : edit.Carries (left + length) width source target reach) :
    edit.Carries left (length + width) (length + source) (length + target) reach := by
  rcases forward with ⟨old, new⟩
  simp only [Carries] at carries ⊢
  omega

/-- What happens behind a stretch of `length` bytes that took the new text. -/
theorem Carries.of_touched {first : Bool} {left : Extent}
    {length width source target reach : Nat} (forward : edit.Forward)
    (due : edit.Due first left.bytes) (below : left.bytes ≤ edit.oldStop.bytes)
    (touched : edit.start.bytes < left.bytes + length ∨
      (edit.start.bytes = left.bytes + length ∧ edit.oldStop.bytes = edit.start.bytes))
    (carries : edit.withoutNew.Carries (left.bytes + length) width source target reach) :
    edit.Carries left.bytes (length + width) (length + source)
      ((edit.relativeTo left).resized length + target) reach := by
  rcases forward with ⟨old, new⟩
  have started : edit.start.bytes ≤ left.bytes + length := by omega
  simp only [Carries, start_withoutNew, oldStop_withoutNew, newStop_withoutNew] at carries ⊢
  rcases carries with nothing | ⟨before, same⟩ | ⟨behind, moved, inside⟩
  · exact Or.inl nothing
  · left
    omega
  · right
    right
    refine ⟨by omega, ?_, by omega⟩
    by_cases reaches : (edit.relativeTo left).Reaches length
    · rw [resized_of_reaches reaches]
      simp only [bytes_oldStop_relativeTo, bytes_newStop_relativeTo]
      omega
    · rw [resized_of_not_reaches reaches]
      simp only [Reaches, bytes_start_relativeTo, bytes_oldStop_relativeTo] at reaches
      simp only [Due] at due
      omega

end Edit

/-- Two texts agree on `reach` bytes from one place each on; the end of a text counts as a byte. -/
def Text.Agree (text other : Text) (place otherPlace reach : Nat) : Prop :=
  ∀ step < reach, other[otherPlace + step]? = text[place + step]?

theorem Text.Agree.trans {first second third : Text} {place middle last reach : Nat}
    (left : first.Agree second place middle reach) (right : second.Agree third middle last reach) :
    first.Agree third place last reach :=
  fun step within => (right step within).trans (left step within)

/-- Where two texts agree they have equal stretches, also if the end of the text cuts them off. -/
theorem Text.Agree.extract_eq {text other : Text} {place otherPlace reach : Nat}
    (agree : text.Agree other place otherPlace reach) :
    other.extract otherPlace (otherPlace + reach) = text.extract place (place + reach) := by
  apply Array.ext_getElem?
  intro step
  simp only [Array.getElem?_extract]
  by_cases within : step < reach
  · have same := agree step within
    split <;> split
    · exact same
    · rw [same, Array.getElem?_eq_none (by omega)]
    · rw [← same, Array.getElem?_eq_none (by omega)]
    · rfl
  · rw [if_neg (by omega), if_neg (by omega)]

namespace Tree

/-! ## One edit of a tree -/

variable {edit : Edit} {first : Bool} {left : Extent} {field : Nat} {child found : Tree}
  {rest : List (Edge Tree)}

mutual

/-- A node that is unmarked after an edit was there before, and the edit left its text alone. -/
theorem At.of_edit {edit : Edit} (forward : edit.Forward) {found : Tree} {path : List Nat}
    {offset : Nat} (unmarked : found.info.changed = false) : (tree : Tree) → tree.Sound →
      (tree.edit edit).At path offset found →
        ∃ source, tree.At path source found ∧
          edit.Carries 0 tree.total.bytes source offset found.reach
  | node info children, sound, at_ => by
    by_cases before : info.isBefore edit = true
    · rw [edit_of_isBefore (node info children) before] at at_
      have within := sound.reach_le at_ unmarked
      refine ⟨offset, at_, Or.inr (Or.inl ⟨?_, rfl⟩)⟩
      rw [Info.isBefore_iff] at before
      change _ ≤ info.total.bytes + info.lookahead at within
      omega
    · rw [edit_of_not_isBefore (by simpa using before)] at at_
      cases at_ with
      | here => simp at unmarked
      | inside among =>
          have due : edit.Due true Extent.zero.bytes := by
            simp only [Edit.Due, Extent.zero, true_or, and_true]
            omega
          rcases AtAmong.of_editChildren forward unmarked true Extent.zero due children
            sound.children among with ⟨source, among, carries⟩
          have covered := sound.laid.widthOf_le
          refine ⟨source, .inside among, ?_⟩
          simp only [Edit.Carries, Extent.zero] at carries ⊢
          change _ ∨ _ ∨ _ ∧ _ ∧ _ < 0 + info.total.bytes
          omega

theorem AtAmong.of_editChildren {edit : Edit} (forward : edit.Forward) {found : Tree}
    {number : Nat} {path : List Nat} {offset : Nat} (unmarked : found.info.changed = false)
    (first : Bool) (left : Extent) (due : edit.Due first left.bytes) :
    (children : List (Edge Tree)) → SoundAmong children →
      AtAmong (editChildren edit first left children) number path offset found →
        ∃ source, AtAmong children number path source found ∧
          edit.Carries left.bytes (widthOf children) source offset found.reach
  | [], _, among => by cases among
  | ⟨field, child⟩ :: rest, sound, among => by
    rcases soundAmong_cons.mp sound with ⟨here, later⟩
    rw [widthOf_cons]
    rcases editChildren_cons_cases edit first left field child rest forward with
      ⟨step, after⟩ | ⟨step, past, placed⟩ | ⟨step, below, touched⟩ <;>
      rw [step] at among
    · -- the edit lies before all of these children
      refine ⟨offset, among, Or.inr (Or.inr ?_)⟩
      simp only [Edit.Due] at due
      rcases forward with ⟨old, new⟩
      rcases after with after | ⟨here, some, notFirst⟩
      · omega
      · simp only [notFirst, Bool.false_eq_true, false_or] at due
        omega
    · cases among with
      | first within =>
          rcases At.of_edit Edit.forward_emptied unmarked child here within with
            ⟨source, at_, carries⟩
          refine ⟨source, .first at_, ?_⟩
          simp only [Edit.Carries, Edit.start_emptied, Edit.oldStop_emptied, Edit.newStop_emptied,
            Edit.bytes_start_relativeTo] at carries ⊢
          omega
      | later among =>
          rcases AtAmong.of_editChildren forward unmarked false _
            (due_of_past due past placed) rest later among with ⟨source, among, carries⟩
          rw [total_edit child Edit.forward_emptied, Edit.resized_emptied]
          exact ⟨_, .later among, carries.of_past forward past⟩
    · cases among with
      | first within =>
          rcases At.of_edit (forward.relativeTo left) unmarked child here within with
            ⟨source, at_, carries⟩
          exact ⟨source, .first at_, carries.of_relativeTo below (Nat.le_add_right _ _)⟩
      | later among =>
          rcases AtAmong.of_editChildren forward.withoutNew unmarked false _
            (Edit.due_withoutNew false _) rest later among with ⟨source, among, carries⟩
          rw [total_edit child (forward.relativeTo left)]
          exact ⟨_, .later among, carries.of_touched forward due below touched⟩

end

/-! ## Sound trees stay sound -/

/-- A node goes on to look as far as the unmarked nodes below it. -/
theorem isGuard_reshape {info : Info} {children : List (Edge Tree)} (forward : edit.Forward)
    (sound : (node info children).Sound) :
    IsGuard (info.reshape edit) (editChildren edit true Extent.zero children) := by
  intro number path offset found among unmarked
  have due : edit.Due true Extent.zero.bytes := by
    simp only [Edit.Due, Extent.zero, true_or, and_true]
    omega
  have laid : EverywhereAmong IsLaid (editChildren edit true Extent.zero children) :=
    laid_editChildren forward true Extent.zero children sound.laid.children
  have inhabited : children ≠ [] := by
    rintro rfl
    cases among
  have width := widthOf_editChildren forward due (Or.inl inhabited)
  have inside := among.le_widthOf laid
  have covered := (sound_node.mp sound).1 inhabited
  rcases AtAmong.of_editChildren forward unmarked true _ due children sound.children among with
    ⟨source, before, carries⟩
  have guarded := (sound_node.mp sound).2.1 before unmarked
  rw [Info.lookahead_reshape, Info.total_reshape info forward]
  have same : (edit.relativeTo Extent.zero).resized (widthOf children) =
      edit.resized info.total.bytes := by
    rw [covered.2]
    simp [Edit.resized, Extent.zero]
  rw [width, same] at inside
  have nothing : Extent.zero.bytes = 0 := rfl
  simp only [Edit.Carries, nothing, Nat.sub_zero, Nat.zero_add] at carries
  rcases forward with ⟨old, new⟩
  by_cases reaches : edit.Reaches info.total.bytes
  · rw [Edit.resized_of_reaches reaches] at inside ⊢
    simp only [reach] at *
    omega
  · rw [Edit.resized_of_not_reaches reaches] at inside ⊢
    simp only [Edit.Reaches] at reaches
    simp only [reach] at *
    omega

mutual

/-- After an edit of a sound tree its nodes still cover their children and look far enough. -/
theorem Sound.edit {edit : Edit} (forward : edit.Forward) :
    (tree : Tree) → tree.Sound → (tree.edit edit).Sound
  | node info children, sound => by
    by_cases before : info.isBefore edit = true
    · rw [edit_of_isBefore (node info children) before]
      exact sound
    · have laid := sound.laid.edit forward
      rw [edit_of_not_isBefore (by simpa using before)] at laid ⊢
      exact sound_node.mpr ⟨(everywhere_node.mp laid).1, isGuard_reshape forward sound,
        soundAmong_editChildren forward true Extent.zero children sound.children⟩

theorem soundAmong_editChildren {edit : Edit} (forward : edit.Forward) (first : Bool)
    (left : Extent) :
    (children : List (Edge Tree)) → SoundAmong children →
      SoundAmong (editChildren edit first left children)
  | [], sound => sound
  | ⟨field, child⟩ :: rest, sound => by
    rcases soundAmong_cons.mp sound with ⟨here, later⟩
    rcases editChildren_cons_cases edit first left field child rest forward with
      ⟨step, _⟩ | ⟨step, _⟩ | ⟨step, _⟩ <;>
      rw [step]
    · exact sound
    · exact soundAmong_cons.mpr ⟨Sound.edit Edit.forward_emptied child here,
        soundAmong_editChildren forward false _ rest later⟩
    · exact soundAmong_cons.mpr ⟨Sound.edit (forward.relativeTo left) child here,
        soundAmong_editChildren forward.withoutNew false _ rest later⟩

end

/-! ## Texts and trees that are edited together -/

/-- After an edit of a text and of the tree over it an unmarked node stands over the bytes that it
stood over before. -/
theorem At.agree_edit {text inserted : Text} {tree : Tree} {path : List Nat} {offset : Nat}
    (fits : edit.Fits text inserted) (sound : tree.Sound)
    (at_ : (tree.edit edit).At path offset found) (unmarked : found.info.changed = false) :
    ∃ source, tree.At path source found ∧
      text.Agree (edit.apply text inserted) source offset found.reach := by
  rcases At.of_edit fits.forward unmarked tree sound at_ with ⟨source, before, carries⟩
  exact ⟨source, before, fun step within => carries.same_bytes fits within⟩

end Tree

end Reparse
