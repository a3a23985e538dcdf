import Reparse.Proofs.Parse.Folding
import Reparse.Proofs.Tree.Shape

/-!
# The shapes of events

Which trees a list of events describes, but for the lengths in them, depends only on the shapes of
the trees that were added: events of one shape fold to trees of one shape
(`Event.exists_fold_of_shape`).
-/

namespace Reparse

open Tree (shapeAll isErasure_shape)

namespace Event

/-- The event with the shape of the tree that it adds. -/
def shape : Event → Event
  | opening symbol wrapper field state => opening symbol wrapper field state
  | added tree wrapper field => added tree.shape wrapper field
  | closing => closing

/-- Events of one shape differ at most in the lengths in the trees that they add. -/
theorem cases_of_shape_eq {event image : Event} (same : event.shape = image.shape) :
    event = closing ∧ image = closing ∨
      (∃ symbol wrapper field state, event = opening symbol wrapper field state ∧
        image = opening symbol wrapper field state) ∨
      ∃ tree other wrapper field, tree.shape = other.shape ∧ event = added tree wrapper field ∧
        image = added other wrapper field := by
  cases event with
  | opening symbol wrapper field state =>
      cases image with
      | opening => exact Or.inr (Or.inl ⟨symbol, wrapper, field, state, rfl, same.symm⟩)
      | added | closing => cases same
  | added tree wrapper field =>
      cases image with
      | added other wrapper field =>
          rcases Event.added.inj same with ⟨alike, rfl, rfl⟩
          exact Or.inr (Or.inr ⟨tree, other, _, _, alike, rfl, rfl⟩)
      | opening | closing => cases same
  | closing =>
      cases image with
      | closing => exact Or.inl ⟨rfl, rfl⟩
      | opening | added => cases same

/-! ## Foldings -/

def Frame.shape (frame : Frame) : Frame := { frame with children := shapeAll frame.children }

namespace Folding

def shape (folding : Folding) : Folding :=
  ⟨folding.frames.map Frame.shape, shapeAll folding.finished⟩

variable {folding other : Folding}

theorem shape_add (folding : Folding) (edge : Edge Tree) :
    (folding.add edge).shape = folding.shape.add ⟨edge.field, edge.tree.shape⟩ := by
  rcases folding with ⟨_ | ⟨frame, rest⟩, finished⟩
  · simp [add, shape]
  · simp [add, shape, Frame.shape]

theorem shape_openNode (folding : Folding) (opening : Opening) :
    (folding.openNode opening).shape = folding.shape.openNode opening := by
  rcases opening with ⟨_ | symbol, field, state⟩
  · rfl
  · simp [openNode, shape, Frame.shape]

theorem shape_openAll (folding : Folding) (openings : List Opening) :
    (openings.foldl openNode folding).shape = openings.foldl openNode folding.shape := by
  induction openings generalizing folding with
  | nil => rfl
  | cons opening rest ih => rw [List.foldl_cons, List.foldl_cons, ih, shape_openNode]

theorem shape_close (vocabulary : Vocabulary) (frame : Frame) :
    (frame.shape.close vocabulary).field = (frame.close vocabulary).field ∧
      (frame.shape.close vocabulary).tree.shape = (frame.close vocabulary).tree.shape := by
  refine ⟨rfl, ?_⟩
  simp only [Frame.close, Frame.shape, ← isErasure_shape.reverse]
  split
  · exact isErasure_shape.error Tree.shape_branch _
  · exact Tree.shape_branch _ _ _ _

theorem shape_shape (folding : Folding) : folding.shape.shape = folding.shape := by
  have frames (frames : List Frame) :
      (frames.map Frame.shape).map Frame.shape = frames.map Frame.shape := by
    rw [List.map_map]
    exact List.map_congr_left fun frame _ => by simp [Frame.shape]
  rw [shape, shape, frames, Tree.shapeAll_shapeAll]

theorem shape_closeNode (vocabulary : Vocabulary) (same : folding.shape = other.shape) :
    (folding.closeNode vocabulary).shape = (other.closeNode vocabulary).shape := by
  have canonical (folding : Folding) : (folding.shape.closeNode vocabulary).shape =
      (folding.closeNode vocabulary).shape := by
    rcases folding with ⟨_ | ⟨frame, rest⟩, finished⟩
    · exact shape_shape _
    · have outside := shape_shape ⟨rest, finished⟩
      rcases shape_close vocabulary frame with ⟨field, tree⟩
      change (Folding.add (Folding.shape ⟨rest, finished⟩) (frame.shape.close vocabulary)).shape =
        (Folding.add ⟨rest, finished⟩ (frame.close vocabulary)).shape
      rw [shape_add, shape_add, outside, field, tree]
  rw [← canonical, same, canonical]

end Folding

/-! ## Folding -/

theorem shape_blank : blank.shape = blank := rfl

theorem followWrappers_shape (events : Array Event) (index : Nat) (inner : List Opening)
    (wrapper : Option Nat) :
    followWrappers (events.map shape) index inner wrapper =
      (followWrappers events index inner wrapper).map fun found =>
        (found.1.map shape, found.2) := by
  fun_induction followWrappers events index inner wrapper with
  | case1 events index inner => rw [followWrappers]; rfl
  | case2 events index inner distance target missing =>
      simp only [target] at missing
      rw [followWrappers, Array.getElem?_map, missing]
      rfl
  | case3 events index inner distance target symbol wrapper field state found opened further ih =>
      simp only [target] at found further ih
      rw [followWrappers, Array.getElem?_map, found]
      simp only [Option.map_some, shape, Array.size_map, if_pos further]
      rw [← shape_blank, ← Array.map_setIfInBounds]
      exact ih
  | case4 events index inner distance target symbol wrapper field state found opened stuck =>
      have here : events[index + distance]? = some (opening symbol wrapper field state) := found
      rw [followWrappers, Array.getElem?_map, here]
      simp only [Option.map_some, shape, Array.size_map]
      rw [if_neg (by exact stuck)]
      rfl
  | case5 events index inner distance target event other found =>
      simp only [target] at found
      rw [followWrappers, Array.getElem?_map, found]
      cases event with
      | opening symbol wrapper field state => exact absurd rfl (other symbol wrapper field state)
      | added tree wrapper field => rfl
      | closing => rfl

theorem foldFrom_opened {vocabulary : Vocabulary} {events : Array Event} {index field state : Nat}
    {symbol wrapper : Option Nat} (opens : symbol ≠ none ∨ wrapper ≠ none)
    (found : events[index]? = some (opening symbol wrapper field state)) (folding : Folding)
    (count : Nat) :
    foldFrom vocabulary events index folding (count + 1) =
      (followWrappers events index [⟨symbol, field, state⟩] wrapper).bind fun followed =>
        foldFrom vocabulary followed.1 (index + 1) (followed.2.foldl Folding.openNode folding)
          count := by
  rw [foldFrom, found]
  cases symbol with
  | some symbol =>
      dsimp only
      cases followWrappers events index [⟨some symbol, field, state⟩] wrapper <;> rfl
  | none =>
      cases wrapper with
      | some distance =>
          dsimp only
          cases followWrappers events index [⟨none, field, state⟩] (some distance) <;> rfl
      | none => simp at opens

/-- Folding events of one shape, into trees of one shape, gives trees of one shape. -/
theorem foldFrom_shape (vocabulary : Vocabulary) {folding other : Folding}
    (same : folding.shape = other.shape) (events : Array Event) (index count : Nat) :
    (foldFrom vocabulary (events.map shape) index folding count).map Folding.shape =
      (foldFrom vocabulary events index other count).map Folding.shape := by
  induction count generalizing events index folding other with
  | zero =>
      rw [foldFrom, foldFrom]
      exact congrArg Except.ok same
  | succ count ih =>
      cases found : events[index]? with
      | none =>
          rw [foldFrom, foldFrom, Array.getElem?_map, found]
          exact congrArg Except.ok same
      | some event =>
          have mapped : (events.map shape)[index]? = some event.shape := by
            rw [Array.getElem?_map, found, Option.map_some]
          cases event with
          | closing =>
              rw [foldFrom_closing mapped, foldFrom_closing found]
              exact ih (Folding.shape_closeNode vocabulary same) events (index + 1)
          | added tree wrapper field =>
              rw [foldFrom, foldFrom, mapped, found]
              simp only [shape, followWrappers_shape]
              cases followWrappers events index [] wrapper with
              | error fault => rfl
              | ok followed =>
                  refine ih ?_ followed.1 (index + 1)
                  rw [Folding.shape_add, Folding.shape_add, Folding.shape_openAll,
                    Folding.shape_openAll, same, Tree.shape_shape]
          | opening symbol wrapper field state =>
              by_cases opens : symbol ≠ none ∨ wrapper ≠ none
              · rw [foldFrom_opened opens mapped, foldFrom_opened opens found, followWrappers_shape]
                cases followWrappers events index [⟨symbol, field, state⟩] wrapper with
                | error fault => rfl
                | ok followed =>
                    refine ih ?_ followed.1 (index + 1)
                    rw [Folding.shape_openAll, Folding.shape_openAll, same]
              · obtain ⟨rfl, rfl⟩ : symbol = none ∧ wrapper = none := by simpa using opens
                rw [foldFrom, foldFrom, mapped, found]
                exact ih same events (index + 1)

/-- Events of one shape fold to trees of one shape. -/
theorem exists_fold_of_shape {vocabulary : Vocabulary} {events others : Array Event}
    {items : List (Edge Tree)} (same : events.map shape = others.map shape)
    (fold : fold? vocabulary events = .ok items) :
    ∃ found, fold? vocabulary others = .ok found ∧ shapeAll found = shapeAll items := by
  have size : events.size = others.size := by
    rw [← Array.size_map (f := shape), same, Array.size_map]
  have left := foldFrom_shape vocabulary (rfl : Folding.shape ⟨[], []⟩ = _) events 0 events.size
  have right := foldFrom_shape vocabulary (rfl : Folding.shape ⟨[], []⟩ = _) others 0 others.size
  rw [← same] at right
  rw [size] at left
  have alike := left.symm.trans right
  unfold fold? at fold ⊢
  rw [size] at fold
  cases first : foldFrom vocabulary events 0 ⟨[], []⟩ others.size with
  | error fault =>
      rw [first] at fold
      cases fold
  | ok folding =>
      rw [first] at fold alike
      cases second : foldFrom vocabulary others 0 ⟨[], []⟩ others.size with
      | error fault =>
          rw [second] at alike
          cases alike
      | ok found =>
          rw [second] at alike
          have shapes : shapeAll folding.finished = shapeAll found.finished :=
            congrArg Folding.finished (Except.ok.inj alike)
          refine ⟨_, rfl, ?_⟩
          rw [← Except.ok.inj fold, isErasure_shape.reverse, isErasure_shape.reverse, shapes]

end Event

end Reparse
