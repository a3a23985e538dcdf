import Reparse.Proofs.Edit.Layout
import Reparse.Proofs.Tree.Sound

/-!
# How far down an edit goes

An edit is handed down from a node to those of its children that it concerns, each of which sees it
from its own beginning. What comes to a subtree is the edit as seen from there, with nothing removed
or added perhaps (`Edit.SeenFrom`); all other subtrees stay as they are. No node that the edit touches
is left out (`Tree.At.handed`): the walk turns back at a node only if the nodes below it do not reach
the edit either, which is what a sound tree promises.

The exception is a node without text that looked at nothing. If it begins where its parent does, and
the edit began before, the edit seen from the parent begins where the node ends, and the walk goes past
the node.
-/

namespace Reparse

namespace Edit

/-- The edit `inner` is `edit` as seen from `offset`, unless it does nothing. -/
structure SeenFrom (edit inner : Edit) (offset : Nat) : Prop where
  forward : inner.Forward
  start : inner.start.bytes = edit.start.bytes - offset
  stop : inner.oldStop.bytes = edit.oldStop.bytes - offset ∨ inner.isEmpty = true
  empty : edit.isEmpty = true → inner.isEmpty = true

/-- The edit begins before the end of `known` bytes at an offset and ends behind their beginning, or
behind the whole stretch of `extent` bytes that they are part of. Offsets count from `left`. -/
def Concerns (edit : Edit) (left extent offset known : Nat) : Prop :=
  0 < known ∧ edit.start.bytes < left + offset + known ∧
    (left + offset < edit.oldStop.bytes ∨ left + extent ≤ edit.oldStop.bytes)

variable {edit inner : Edit}

theorem seenFrom_refl (forward : edit.Forward) : edit.SeenFrom edit 0 :=
  ⟨forward, rfl, Or.inl rfl, id⟩

theorem SeenFrom.of_relativeTo {left : Extent} {offset : Nat}
    (seen : (edit.relativeTo left).SeenFrom inner offset) :
    edit.SeenFrom inner (left.bytes + offset) where
  forward := seen.forward
  start := by rw [seen.start, bytes_start_relativeTo, Nat.sub_sub]
  stop := by
    have stop := seen.stop
    rwa [bytes_oldStop_relativeTo, Nat.sub_sub] at stop
  empty same := by
    apply seen.empty
    simp only [isEmpty_iff, bytes_start_relativeTo, bytes_oldStop_relativeTo,
      bytes_newStop_relativeTo] at same ⊢
    omega

theorem SeenFrom.of_emptied {left : Extent} {offset : Nat}
    (seen : (edit.relativeTo left).emptied.SeenFrom inner offset) :
    edit.SeenFrom inner (left.bytes + offset) where
  forward := seen.forward
  start := by rw [seen.start, start_emptied, bytes_start_relativeTo, Nat.sub_sub]
  stop := Or.inr (seen.empty (by simp))
  empty _ := seen.empty (by simp)

theorem SeenFrom.of_withoutNew {offset : Nat} (seen : edit.withoutNew.SeenFrom inner offset) :
    edit.SeenFrom inner offset where
  forward := seen.forward
  start := seen.start
  stop := seen.stop
  empty same := by
    apply seen.empty
    simp only [isEmpty_iff, start_withoutNew, oldStop_withoutNew, newStop_withoutNew] at same ⊢
    exact ⟨same.1, trivial⟩

end Edit

namespace Tree

/-- The bytes of a node that the nodes around it know of: how far it reaches, or its text only if it
is marked. -/
def known (tree : Tree) : Nat := if tree.info.changed then tree.total.bytes else tree.reach

theorem known_of_unmarked {tree : Tree} (unmarked : tree.info.changed = false) :
    tree.known = tree.reach := by
  simp [known, unmarked]

theorem total_le_reach (tree : Tree) : tree.total.bytes ≤ tree.reach := Nat.le_add_right _ _

theorem total_le_known (tree : Tree) : tree.total.bytes ≤ tree.known := by
  have := tree.total_le_reach
  unfold known
  split <;> omega

/-- What the nodes around a node know of it lies in their reach. -/
theorem Sound.known_le {tree found : Tree} {path : List Nat} {offset : Nat} (sound : tree.Sound)
    (at_ : tree.At path offset found) : offset + found.known ≤ tree.reach := by
  cases unmarked : found.info.changed with
  | false =>
      rw [known_of_unmarked unmarked]
      exact sound.reach_le at_ unmarked
  | true =>
      have inside := at_.le_total sound.laid
      have := tree.total_le_reach
      simp only [known, unmarked, if_true]
      omega

/-- What an edit makes of the subtree at an offset: it stays as it is, which does not happen if the
edit meets it, or it takes the edit that is seen from there. An edit that begins before the end of its
text comes to it in full. -/
def Handed (edit : Edit) (left extent offset : Nat) (found after : Tree) : Prop :=
  (after = found ∧ ¬edit.Concerns left extent offset found.known) ∨
    (left + offset ≤ edit.oldStop.bytes ∧ ∃ inner, edit.SeenFrom inner (left + offset) ∧
      after = found.edit inner ∧
      (0 < found.total.bytes → edit.start.bytes < left + offset + found.total.bytes →
        inner.oldStop.bytes = edit.oldStop.bytes - (left + offset)))

variable {edit : Edit} {found after : Tree} {offset : Nat}

/-- What happens in a child that takes the edit, seen from the children on from it. -/
theorem Handed.of_relativeTo {left : Extent} {inner extent : Nat}
    (handed : Handed (edit.relativeTo left) 0 inner offset found after)
    (below : left.bytes ≤ edit.oldStop.bytes) (within : inner ≤ extent) :
    Handed edit left.bytes extent offset found after := by
  simp only [Handed, Edit.Concerns, Nat.zero_add, Edit.bytes_start_relativeTo,
    Edit.bytes_oldStop_relativeTo] at handed
  rcases handed with ⟨same, missed⟩ | ⟨before, inner, seen, same, full⟩
  · refine Or.inl ⟨same, ?_⟩
    simp only [Edit.Concerns]
    omega
  · refine Or.inr ⟨by omega, inner, seen.of_relativeTo, same, fun some reached => ?_⟩
    rw [full some (by omega), Nat.sub_sub]

/-- What happens in a child that the edit goes past. -/
theorem Handed.of_emptied {left : Extent} {inner extent : Nat} (forward : edit.Forward)
    (handed : Handed (edit.relativeTo left).emptied 0 inner offset found after)
    (past : left.bytes + inner ≤ edit.start.bytes)
    (inside : offset + found.total.bytes ≤ inner) :
    Handed edit left.bytes extent offset found after := by
  rcases forward with ⟨old, new⟩
  simp only [Handed, Edit.Concerns, Nat.zero_add, Edit.start_emptied, Edit.oldStop_emptied,
    Edit.bytes_start_relativeTo] at handed
  rcases handed with ⟨same, missed⟩ | ⟨before, inner, seen, same, _⟩
  · refine Or.inl ⟨same, ?_⟩
    simp only [Edit.Concerns]
    omega
  · refine Or.inr ⟨by omega, inner, seen.of_emptied, same, fun some reached => ?_⟩
    omega

/-- What happens in the children behind one of `length` bytes. -/
theorem Handed.of_later {left length extent : Nat}
    (handed : Handed edit (left + length) extent offset found after) :
    Handed edit left (length + extent) (length + offset) found after := by
  simpa only [Handed, Edit.Concerns, Nat.add_assoc] using handed

/-- What happens to a subtree does not depend on the new text of the edit. -/
theorem Handed.of_withoutNew {left extent : Nat}
    (handed : Handed edit.withoutNew left extent offset found after) :
    Handed edit left extent offset found after := by
  rcases handed with missed | ⟨before, inner, seen, rest⟩
  · exact Or.inl missed
  · exact Or.inr ⟨before, inner, seen.of_withoutNew, rest⟩

mutual

/-- Where a subtree lies the edited tree has one, which is what the edit makes of it. -/
theorem At.handed {edit : Edit} (forward : edit.Forward) {found : Tree} {path : List Nat}
    {offset : Nat} : (tree : Tree) → tree.Sound → tree.At path offset found →
      ∃ target after, (tree.edit edit).At path target after ∧
        Handed edit 0 tree.total.bytes offset found after
  | node info children, sound, at_ => by
    by_cases before : info.isBefore edit = true
    · rw [edit_of_isBefore (node info children) before]
      refine ⟨offset, found, at_, Or.inl ⟨rfl, ?_⟩⟩
      have within := sound.known_le at_
      rw [Info.isBefore_iff] at before
      change _ ≤ info.total.bytes + info.lookahead at within
      simp only [Edit.Concerns]
      omega
    · cases at_ with
      | here =>
          exact ⟨0, _, .here _, Or.inr ⟨by omega, edit, Edit.seenFrom_refl forward, rfl,
            fun _ _ => rfl⟩⟩
      | inside among =>
          rcases AtAmong.handed forward true Extent.zero children sound.children among with
            ⟨target, after, at_, handed⟩
          rw [edit_of_not_isBefore (by simpa using before)]
          have covered := sound.laid.widthOf_le
          refine ⟨target, after, .inside at_, ?_⟩
          rcases handed with ⟨same, missed⟩ | taken
          · refine Or.inl ⟨same, ?_⟩
            simp only [Edit.Concerns, Extent.zero] at missed ⊢
            change ¬(_ ∧ _ ∧ (_ ∨ 0 + info.total.bytes ≤ _))
            omega
          · exact Or.inr taken

/-- The same for the children of a node, of which the first begins at `left`. -/
theorem AtAmong.handed {edit : Edit} (forward : edit.Forward) {found : Tree} {number : Nat}
    {path : List Nat} {offset : Nat} (first : Bool) (left : Extent) :
    (children : List (Edge Tree)) → SoundAmong children →
      AtAmong children number path offset found →
        ∃ target after, AtAmong (editChildren edit first left children) number path target after ∧
          Handed edit left.bytes (widthOf children) offset found after
  | [], _, among => by cases among
  | ⟨field, child⟩ :: rest, sound, among => by
    rcases soundAmong_cons.mp sound with ⟨here, later⟩
    rw [widthOf_cons]
    rcases editChildren_cons_cases edit first left field child rest forward with
      ⟨step, after⟩ | ⟨step, past, _⟩ | ⟨step, below, _⟩ <;>
      rw [step]
    · -- the edit ends before all of these children
      refine ⟨offset, found, among, Or.inl ⟨rfl, ?_⟩⟩
      simp only [Edit.Concerns]
      omega
    · cases among with
      | first within =>
          rcases At.handed Edit.forward_emptied child here within with
            ⟨target, after, at_, handed⟩
          exact ⟨target, after, .first at_,
            handed.of_emptied forward past (within.le_total here.laid)⟩
      | later among =>
          rcases AtAmong.handed forward false _ rest later among with
            ⟨target, after, at_, handed⟩
          exact ⟨_, after, .later at_, handed.of_later⟩
    · cases among with
      | first within =>
          rcases At.handed (forward.relativeTo left) child here within with
            ⟨target, after, at_, handed⟩
          exact ⟨target, after, .first at_,
            handed.of_relativeTo below (Nat.le_add_right _ _)⟩
      | later among =>
          rcases AtAmong.handed forward.withoutNew false _ rest later among with
            ⟨target, after, at_, handed⟩
          exact ⟨_, after, .later at_, handed.of_withoutNew.of_later⟩

end

/-! ## Marks -/

/-- An edit marks a node that it does not lie past, and takes no mark away. -/
theorem changed_edit (tree : Tree) (edit : Edit) :
    (tree.edit edit).info.changed = true ↔
      tree.info.changed = true ∨ tree.info.isBefore edit = false := by
  cases tree with
  | node info children =>
      cases before : info.isBefore edit with
      | true => simp [edit_of_isBefore (node info children) before, before]
      | false => simp [edit_of_not_isBefore before, before]

/-- A subtree that is marked by an edit is touched by it. -/
theorem Handed.touched {left extent : Nat} (handed : Handed edit left extent offset found after)
    (unmarked : found.info.changed = false) (marked : after.info.changed = true) :
    left + offset ≤ edit.oldStop.bytes ∧ edit.start.bytes ≤ left + offset + found.reach := by
  rcases handed with ⟨rfl, _⟩ | ⟨below, inner, seen, rfl, _⟩
  · rw [unmarked] at marked
    cases marked
  · rw [changed_edit, unmarked] at marked
    have reached : found.info.isBefore inner = false := by simpa using marked
    rw [← Bool.not_eq_true, Info.isBefore_iff] at reached
    have start := seen.start
    simp only [reach, total]
    omega

/-- A mark stays. -/
theorem Handed.changed {left extent : Nat} (handed : Handed edit left extent offset found after)
    (marked : found.info.changed = true) : after.info.changed = true := by
  rcases handed with ⟨rfl, _⟩ | ⟨_, inner, _, rfl, _⟩
  · exact marked
  · exact (changed_edit found inner).mpr (Or.inl marked)

/-- An edit that begins before the end of what a node depended on, and ends behind its beginning, marks
the node if it depended on anything. -/
theorem Handed.marks {left extent : Nat} (handed : Handed edit left extent offset found after)
    (some : 0 < found.reach) (begun : edit.start.bytes < left + offset + found.reach)
    (ends : left + offset < edit.oldStop.bytes) : after.info.changed = true := by
  cases unmarked : found.info.changed with
  | true => exact handed.changed unmarked
  | false =>
      rcases handed with ⟨_, missed⟩ | ⟨_, inner, seen, rfl, _⟩
      · refine absurd ⟨?_, ?_, Or.inl ends⟩ missed <;> rw [known_of_unmarked unmarked] <;> assumption
      · rw [changed_edit, ← Bool.not_eq_true, Info.isBefore_iff]
        have start := seen.start
        simp only [reach, total] at some begun
        omega

/-! ## Nodes without text -/

/-- A child whose beginning lies within the edit takes all of it, even if the child is empty. -/
theorem AtAmong.taken {edit : Edit} (forward : edit.Forward) {number : Nat} (first : Bool)
    (left : Extent) {children : List (Edge Tree)} (among : AtAmong children number [] offset found)
    (begun : edit.start.bytes < left.bytes + offset)
    (ends : left.bytes + offset < edit.oldStop.bytes) :
    ∃ target inner, AtAmong (editChildren edit first left children) number [] target
        (found.edit inner) ∧ edit.SeenFrom inner (left.bytes + offset) ∧
      inner.oldStop.bytes = edit.oldStop.bytes - (left.bytes + offset) := by
  induction children generalizing edit number first left offset with
  | nil => cases among
  | cons edge rest ih =>
      rcases edge with ⟨field, child⟩
      rcases editChildren_cons_cases edit first left field child rest forward with
        ⟨_, after⟩ | ⟨step, past, _⟩ | ⟨step, below, _⟩
      · omega
      · rw [step]
        cases among with
        | first within =>
            cases within
            omega
        | @later _ _ _ _ _ behind _ among =>
            have place : (left + child.total).bytes + behind =
                left.bytes + (child.total.bytes + behind) := by
              rw [Extent.bytes_add, Nat.add_assoc]
            rcases ih forward false (left + child.total) among (by omega) (by omega) with
              ⟨target, inner, at_, seen, stop⟩
            rw [place] at seen stop
            exact ⟨_, inner, .later at_, seen, stop⟩
      · rw [step]
        cases among with
        | first within =>
            cases within
            refine ⟨0, edit.relativeTo left, .first (.here _), ?_, by simp⟩
            exact (Edit.seenFrom_refl (forward.relativeTo left)).of_relativeTo
        | @later _ _ _ _ _ behind _ among =>
            have place : (left + child.total).bytes + behind =
                left.bytes + (child.total.bytes + behind) := by
              rw [Extent.bytes_add, Nat.add_assoc]
            rcases ih forward.withoutNew false (left + child.total) among (by rw [place]; exact begun)
              (by rw [place]; exact ends) with ⟨target, inner, at_, seen, stop⟩
            rw [place] at seen stop
            exact ⟨_, inner, .later at_, seen.of_withoutNew, stop⟩

/-- An edit that does nothing leaves a node as it is that has no text and looked at nothing. -/
theorem edit_of_reach_eq_zero (tree : Tree) (empty : tree.reach = 0)
    (idle : edit.isEmpty = true) : tree.edit edit = tree := by
  apply edit_of_isBefore
  rw [Info.isBefore_iff]
  simp only [reach, total] at empty
  rcases Nat.eq_zero_or_pos edit.start.bytes with start | start
  · exact Or.inr ⟨idle, by omega⟩
  · exact Or.inl (by omega)

/-- The walk leaves a child at the very beginning of its parent alone if the child is empty, and the
edit begins there and removes something or does nothing. -/
theorem AtAmong.passed {edit : Edit} (forward : edit.Forward) {number : Nat} (first : Bool)
    (left : Extent) {children : List (Edge Tree)} (among : AtAmong children number [] offset found)
    (front : left.bytes + offset = 0) (empty : found.reach = 0) (start : edit.start.bytes = 0)
    (kind : 0 < edit.oldStop.bytes ∨ edit.isEmpty = true) :
    ∃ target, AtAmong (editChildren edit first left children) number [] target found := by
  induction children generalizing edit number first left offset with
  | nil => cases among
  | cons edge rest ih =>
      rcases edge with ⟨field, child⟩
      have length := total_le_reach found
      rcases editChildren_cons_cases edit first left field child rest forward with
        ⟨step, _⟩ | ⟨step, _, _⟩ | ⟨step, _, touched⟩ <;> rw [step]
      · exact ⟨offset, among⟩
      · cases among with
        | first within =>
            cases within
            rw [edit_of_reach_eq_zero found empty (by simp [Edit.isEmpty_iff])]
            exact ⟨0, .first (.here found)⟩
        | @later _ _ _ _ _ behind _ among =>
            have next : (left + child.total).bytes + behind = 0 := by
              rw [Extent.bytes_add, Nat.add_assoc]
              exact front
            rcases ih forward false _ among next start kind with ⟨target, at_⟩
            exact ⟨_, .later at_⟩
      · -- only an edit that does nothing is handed to a child that ends where it begins
        have idle (nothing : left.bytes + child.total.bytes = 0) : edit.isEmpty = true :=
          kind.resolve_left (by omega)
        cases among with
        | first within =>
            cases within
            have idle : (edit.relativeTo left).isEmpty = true :=
              (Edit.seenFrom_refl (forward.relativeTo left)).of_relativeTo.empty (idle (by omega))
            rw [edit_of_reach_eq_zero found empty idle]
            exact ⟨0, .first (.here found)⟩
        | @later _ _ _ _ _ behind _ among =>
            have next : (left + child.total).bytes + behind = 0 := by
              rw [Extent.bytes_add, Nat.add_assoc]
              exact front
            have idle := (edit.isEmpty_iff).mp (idle (by omega))
            rcases ih forward.withoutNew false _ among next start
              (Or.inr (edit.withoutNew.isEmpty_iff.mpr ⟨idle.1, rfl⟩)) with ⟨target, at_⟩
            exact ⟨_, .later at_⟩

/-- What becomes of the children of a node that takes an edit. -/
theorem children_edit_of_reached {tree : Tree} (reached : tree.info.isBefore edit = false) :
    (tree.edit edit).children = editChildren edit true Extent.zero tree.children := by
  cases tree with
  | node info children =>
      rw [edit_of_not_isBefore (by simpa using reached), children_node, children_node]

/-- A node that begins within the edit is marked if its parent begins before it, even if it has no
text and looked at nothing. -/
theorem At.marked_of_inner {tree parent : Tree} {front : List Nat} {number place before : Nat}
    (forward : edit.Forward) (sound : tree.Sound) (at_ : tree.At front place parent)
    (among : AtAmong parent.children number [] before found) (behind : 0 < before)
    (begun : edit.start.bytes < place + before) (ends : place + before < edit.oldStop.bytes) :
    ∃ target after, (tree.edit edit).At (front ++ [number]) target after ∧
      after.info.changed = true := by
  have inside := (At.child (.here parent) among).le_total (at_.everywhere sound.laid)
  have known := parent.total_le_known
  rcases At.handed forward tree sound at_ with ⟨target, after, edited, handed⟩
  rcases handed with ⟨_, missed⟩ | ⟨_, inner, seen, rfl, full⟩
  · -- the parent has text in front of the edit's end, so the edit meets it
    simp only [Edit.Concerns] at missed
    omega
  · have start := seen.start
    have stop := full (by omega) (by omega)
    have reached : parent.info.isBefore inner = false := by
      rw [← Bool.not_eq_true, Info.isBefore_iff]
      simp only [total] at inside
      omega
    have front : Extent.zero.bytes = 0 := rfl
    rcases among.taken seen.forward true Extent.zero (by omega) (by omega) with
      ⟨_, last, taken, lastSeen, lastStop⟩
    rw [← children_edit_of_reached reached] at taken
    refine ⟨_, _, edited.child taken, ?_⟩
    have lastStart := lastSeen.start
    rw [changed_edit, ← Bool.not_eq_true, Info.isBefore_iff, Edit.isEmpty_iff]
    omega

/-- The edit goes past a node without text that looked at nothing, if the node begins where its parent
does and the edit began before it. -/
theorem At.unchanged_of_front {tree parent : Tree} {front : List Nat} {number place : Nat}
    (forward : edit.Forward) (sound : tree.Sound) (at_ : tree.At front place parent)
    (among : AtAmong parent.children number [] 0 found) (empty : found.reach = 0)
    (begun : edit.start.bytes < place) (ends : place < edit.oldStop.bytes) :
    ∃ target, (tree.edit edit).At (front ++ [number]) target found := by
  rcases At.handed forward tree sound at_ with ⟨target, after, edited, handed⟩
  rcases handed with ⟨rfl, _⟩ | ⟨_, inner, seen, rfl, _⟩
  · exact ⟨_, edited.child among⟩
  · cases reached : parent.info.isBefore inner with
    | true =>
        rw [edit_of_isBefore parent reached] at edited
        exact ⟨_, edited.child among⟩
    | false =>
        have start := seen.start
        have kind : 0 < inner.oldStop.bytes ∨ inner.isEmpty = true :=
          seen.stop.imp_left fun stop => by omega
        rcases among.passed seen.forward true Extent.zero rfl empty (by omega) kind with
          ⟨_, passed⟩
        rw [← children_edit_of_reached reached] at passed
        exact ⟨_, edited.child passed⟩

/-- Among the nodes that an edit touches, exactly those are marked afterwards that were marked, that
depended on anything, or that begin behind the beginning of their parent. -/
theorem At.changed_edit_iff {tree : Tree} {path : List Nat} {target : Nat}
    (forward : edit.Forward) (sound : tree.Sound) (at_ : tree.At path offset found)
    (edited : (tree.edit edit).At path target after)
    (begun : edit.start.bytes < offset + found.reach) (ends : offset < edit.oldStop.bytes) :
    after.info.changed = true ↔
      found.info.changed = true ∨ 0 < found.reach ∨
        ∃ front number place parent, path = front ++ [number] ∧ tree.At front place parent ∧
          place < offset := by
  rcases At.handed forward tree sound at_ with ⟨_, same, again, handed⟩
  obtain ⟨_, rfl⟩ := again.unique edited
  constructor
  · intro marked
    by_cases some : 0 < found.reach
    · exact Or.inr (Or.inl some)
    · rcases List.eq_nil_or_concat path with rfl | ⟨front, number, rfl⟩
      · cases at_
        omega
      · rw [List.concat_eq_append] at at_ edited ⊢
        rcases at_.last with ⟨place, parent, before, above, among, rfl⟩
        rcases Nat.eq_zero_or_pos before with rfl | behind
        · rcases At.unchanged_of_front forward sound above among (by omega) (by omega)
            (by omega) with ⟨_, unchanged⟩
          obtain ⟨_, rfl⟩ := edited.unique unchanged
          exact Or.inl marked
        · exact Or.inr (Or.inr ⟨front, number, place, parent, rfl, above, by omega⟩)
  · rintro (marked | some | ⟨front, number, place, parent, rfl, above, behind⟩)
    · exact handed.changed marked
    · exact handed.marks some (by omega) (by omega)
    · by_cases some : 0 < found.reach
      · exact handed.marks some (by omega) (by omega)
      · rcases at_.last with ⟨start, outer, before, around, among, rfl⟩
        obtain ⟨rfl, rfl⟩ := around.unique above
        rcases At.marked_of_inner forward sound above among (by omega) (by omega) ends with
          ⟨_, _, marked, changed⟩
        obtain ⟨_, rfl⟩ := marked.unique edited
        exact changed

end Tree

end Reparse
