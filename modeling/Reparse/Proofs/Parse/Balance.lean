import Reparse.Proofs.Parse.Folding
import Reparse.Proofs.Tree.Measured

/-!
# A balanced record folds to all its trees

Nothing keeps a grammar from completing nodes out of order, or from opening nodes around one that
completes late. What the fold of its record needs to take in every tree is less: from any event on,
the record closes at least as many nodes as it opens (`Event.Balanced`). A wrapper that is followed
opens earlier than it was recorded, which only helps. So no frame is left open at the end, and the
trees that were added come out in the order in which they were added, with nodes built around them.

The fold is followed with a measure: trees that lie end to end over a text, each as wide as the text
is there, fold to trees that do so too (`Event.measured_fold`).
-/

namespace Reparse

open Reparse.Tree (MeasuredAmong measuredAmong_append measuredAmong_cons measuredAmong_nil widthOf
  widthOf_append)

namespace Event

/-! ## What events weigh -/

/-- How many nodes an event closes, counted negative for a completed node that it opens. -/
def weight : Event → Int
  | opening (some _) _ _ _ => -1
  | opening none _ _ _ => 0
  | added _ _ _ => 0
  | closing => 1

/-- The tree that an event adds. -/
def tree? : Event → Option (Edge Tree)
  | added tree _ _ => some ⟨0, tree⟩
  | _ => none

/-- How far behind an event its wrapper opens. -/
def wrapper? : Event → Option Nat
  | opening _ wrapper _ _ => wrapper
  | added _ wrapper _ => wrapper
  | closing => none

/-- How many more nodes some events close than they open. -/
def weightOf : List Event → Int
  | [] => 0
  | event :: rest => event.weight + weightOf rest

/-- How many more nodes are closed than opened from an event on. -/
def spare (events : Array Event) (index : Nat) : Int := weightOf (events.toList.drop index)

/-- The trees that are added from an event on. -/
def treesFrom (events : Array Event) (index : Nat) : List (Edge Tree) :=
  (events.toList.drop index).filterMap tree?

/-- The trees that a record adds. -/
def trees (events : Array Event) : List (Edge Tree) := treesFrom events 0

/-- From any event on as many nodes are closed as are opened, and wrappers open behind the nodes that
they are for. -/
structure Balanced (events : Array Event) : Prop where
  even : ∀ index, 0 ≤ spare events index
  onward : ∀ event ∈ events, ∀ distance, event.wrapper? = some distance → 0 < distance

variable {events after : Array Event} {index place : Nat} {event other : Event}

theorem weightOf_append (left right : List Event) :
    weightOf (left ++ right) = weightOf left + weightOf right := by
  induction left with
  | nil => exact (Int.zero_add _).symm
  | cons event rest ih => rw [List.cons_append, weightOf, weightOf, ih, Int.add_assoc]

theorem spare_of_found (found : events[index]? = some event) :
    spare events index = event.weight + spare events (index + 1) := by
  rw [← Array.getElem?_toList] at found
  rcases List.getElem?_eq_some_iff.mp found with ⟨inside, same⟩
  rw [spare, spare, List.drop_eq_getElem_cons inside, weightOf, same]

theorem treesFrom_of_found (found : events[index]? = some event) :
    treesFrom events index = event.tree?.toList ++ treesFrom events (index + 1) := by
  rw [← Array.getElem?_toList] at found
  rcases List.getElem?_eq_some_iff.mp found with ⟨inside, same⟩
  rw [treesFrom, treesFrom, List.drop_eq_getElem_cons inside, List.filterMap_cons, same]
  cases event.tree? <;> rfl

theorem spare_of_none (behind : events[index]? = none) : spare events index = 0 := by
  rw [Array.getElem?_eq_none_iff] at behind
  rw [spare, List.drop_eq_nil_of_le (by simpa using behind)]
  rfl

theorem treesFrom_of_none (behind : events[index]? = none) : treesFrom events index = [] := by
  rw [Array.getElem?_eq_none_iff] at behind
  rw [treesFrom, List.drop_eq_nil_of_le (by simpa using behind)]
  rfl

/-! ## Records that change -/

theorem spare_push : spare (events.push event) index =
    spare events index + if index ≤ events.size then event.weight else 0 := by
  rw [spare, spare, Array.toList_push, List.drop_append, weightOf_append,
    Array.length_toList]
  congr 1
  split
  · rename_i inside
    rw [Nat.sub_eq_zero_of_le inside]
    exact Int.add_zero _
  · rename_i outside
    rw [List.drop_eq_nil_of_le (by simp; omega)]
    rfl

theorem trees_push : trees (events.push event) = trees events ++ event.tree?.toList := by
  rw [trees, trees, treesFrom, treesFrom, List.drop_zero, List.drop_zero, Array.toList_push,
    List.filterMap_append]
  cases kind : event.tree? <;> simp [kind]

/-- Replacing an event changes the sums up to it. -/
theorem spare_set (found : events[place]? = some event) :
    spare (events.setIfInBounds place other) index =
      spare events index + if index ≤ place then other.weight - event.weight else 0 := by
  have inside := (Array.getElem?_eq_some_iff.mp found).1
  induction gap : events.size - index generalizing index with
  | zero =>
      rw [spare_of_none (Array.getElem?_eq_none (by rw [Array.size_setIfInBounds]; omega)),
        spare_of_none (Array.getElem?_eq_none (by omega)), if_neg (by omega)]
      rfl
  | succ gap ih =>
      have later := @ih (index + 1) (by omega)
      by_cases here : index = place
      · subst here
        rw [if_neg (by omega)] at later
        rw [spare_of_found (getElem?_set_of_found found), later,
          spare_of_found found, if_pos (Nat.le_refl _)]
        omega
      · have read : events[index]? = some events[index] := Array.getElem?_eq_getElem (by omega)
        have again := read
        rw [← Array.getElem?_setIfInBounds_ne (by omega : place ≠ index)] at again
        rw [spare_of_found again, later, spare_of_found read]
        split <;> split <;> omega

/-- Replacing an event by one that adds the same keeps the trees. -/
theorem treesFrom_set (found : events[place]? = some event) (same : other.tree? = event.tree?) :
    treesFrom (events.setIfInBounds place other) index = treesFrom events index := by
  have inside := (Array.getElem?_eq_some_iff.mp found).1
  induction gap : events.size - index generalizing index with
  | zero =>
      rw [treesFrom_of_none (Array.getElem?_eq_none (by rw [Array.size_setIfInBounds]; omega)),
        treesFrom_of_none (Array.getElem?_eq_none (by omega))]
  | succ gap ih =>
      have later := @ih (index + 1) (by omega)
      by_cases here : index = place
      · subst here
        rw [treesFrom_of_found (getElem?_set_of_found found), later,
          treesFrom_of_found found, same]
      · have read : events[index]? = some events[index] := Array.getElem?_eq_getElem (by omega)
        have again := read
        rw [← Array.getElem?_setIfInBounds_ne (by omega : place ≠ index)] at again
        rw [treesFrom_of_found again, later, treesFrom_of_found read]

namespace Balanced

/-- An event that opens nothing may be added. -/
theorem push (balanced : Balanced events) (light : 0 ≤ event.weight)
    (plain : event.wrapper? = none) : Balanced (events.push event) where
  even index := by
    have even := balanced.even index
    rw [spare_push]
    split <;> omega
  onward other member distance wrapped := by
    rcases Array.mem_push.mp member with old | rfl
    · exact balanced.onward other old distance wrapped
    · rw [plain] at wrapped
      cases wrapped

theorem set (balanced : Balanced events) (found : events[place]? = some event)
    (heavier : event.weight ≤ other.weight)
    (onward : ∀ distance, other.wrapper? = some distance → 0 < distance) :
    Balanced (events.setIfInBounds place other) where
  even index := by
    have even := balanced.even index
    rw [spare_set found]
    split <;> omega
  onward next member distance wrapped := by
    rcases Array.mem_or_eq_of_mem_setIfInBounds member with old | rfl
    · exact balanced.onward next old distance wrapped
    · exact onward distance wrapped

/-- A node that is completed closes at the end. -/
theorem complete (balanced : Balanced events) {old wrapper : Option Nat} {field state : Nat}
    (found : events[place]? = some (opening old wrapper field state)) (symbol : Nat) :
    Balanced ((events.setIfInBounds place (opening (some symbol) wrapper field state)).push
      closing) where
  even index := by
    have even := balanced.even index
    have inside := (Array.getElem?_eq_some_iff.mp found).1
    have light : (opening old wrapper field state).weight ≤ 0 := by
      cases old <;> simp [weight]
    have opens : (opening (some symbol) wrapper field state).weight = -1 := rfl
    have closes : closing.weight = 1 := rfl
    rw [spare_push, spare_set found, Array.size_setIfInBounds, opens, closes]
    split <;> split <;> omega
  onward next member distance wrapped := by
    rcases Array.mem_push.mp member with old | rfl
    · rcases Array.mem_or_eq_of_mem_setIfInBounds old with old | rfl
      · exact balanced.onward next old distance wrapped
      · exact balanced.onward _ (Array.mem_of_getElem? found) distance wrapped
    · cases wrapped

/-- The last event may be taken back if it opened a node that is not complete. -/
theorem pop (balanced : Balanced (events.push event)) (weightless : event.weight = 0) :
    Balanced events where
  even index := by
    have even := balanced.even index
    rw [spare_push, weightless] at even
    simpa using even
  onward next member := balanced.onward next (Array.mem_push.mpr (Or.inl member))

end Balanced

theorem exists_push_of_last (last : events[events.size - 1]? = some event) :
    ∃ front : Array Event, events = front.push event := by
  have some : events.size ≠ 0 := by
    have inside := (Array.getElem?_eq_some_iff.mp last).1
    omega
  rcases Array.eq_push_of_size_ne_zero some with ⟨front, final, rfl⟩
  rw [Array.size_push, Nat.add_sub_cancel, Array.getElem?_push_size, Option.some.injEq] at last
  exact ⟨front, by rw [last]⟩

/-! ## Wrappers that are followed -/

/-- The number of completed nodes among some openings. -/
def opened (openings : List Opening) : Nat := openings.countP (·.symbol.isSome)

theorem opened_cons (opening : Opening) (rest : List Opening) :
    opened (opening :: rest) = opened rest + if opening.symbol.isSome then 1 else 0 :=
  List.countP_cons

/-- Following wrappers takes their openings out of the record. -/
theorem followWrappers_keeps {inner openings : List Opening} {wrapper : Option Nat}
    (followed : followWrappers events index inner wrapper = .ok (after, openings))
    (balanced : Balanced events) (positive : ∀ distance, wrapper = some distance → 0 < distance) :
    after.size = events.size ∧ Balanced after ∧
      (∀ place, treesFrom after place = treesFrom events place) ∧
      ∀ place ≤ index + 1,
        spare events place + opened openings ≤ spare after place + opened inner := by
  fun_induction followWrappers events index inner wrapper with
  | case1 =>
      cases followed
      exact ⟨rfl, balanced, fun _ => rfl, fun _ _ => Int.le_refl _⟩
  | case2 => cases followed
  | case3 events index inner distance target symbol wrapper field state found opened_ further ih =>
      have blanked : Balanced (events.setIfInBounds target blank) := by
        refine balanced.set found ?_ (fun distance none => by cases none)
        cases symbol <;> simp [weight, blank]
      rcases ih followed blanked (balanced.onward _ (Array.mem_of_getElem? found)) with
        ⟨size, kept, trees, spares⟩
      refine ⟨size.trans (by simp), kept, fun place => ?_, fun place before => ?_⟩
      · exact (trees place).trans (treesFrom_set found rfl)
      · have step := spares place (by omega)
        rw [spare_set found, if_pos (by omega : place ≤ target)] at step
        rw [show opened opened_ = _ from opened_cons _ _] at step
        cases symbol <;> simp [weight, blank] at step <;> omega
  | case4 events index inner distance target symbol wrapper field state found opened_ stuck =>
      have inside := (Array.getElem?_eq_some_iff.mp found).1
      have onward := positive distance rfl
      omega
  | case5 => cases followed

/-! ## The fold -/

/-- The edges in open frames, from the outermost frame on. -/
def flatten : List Frame → List (Edge Tree)
  | [] => []
  | frame :: rest => flatten rest ++ frame.children.reverse

/-- All edges of a fold, in the order in which they were added. -/
def Folding.flat (folding : Folding) : List (Edge Tree) :=
  folding.finished.reverse ++ flatten folding.frames

theorem Folding.flat_add (folding : Folding) (edge : Edge Tree) :
    (folding.add edge).flat = folding.flat ++ [edge] := by
  unfold Folding.add
  split
  · rename_i outside
    simp [Folding.flat, outside, flatten]
  · rename_i frame rest inside
    simp [Folding.flat, inside, flatten]

theorem Folding.length_add (folding : Folding) (edge : Edge Tree) :
    (folding.add edge).frames.length = folding.frames.length := by
  unfold Folding.add
  split
  · rfl
  · rename_i frame rest inside
    rw [inside]
    rfl

theorem Folding.flat_openAll (folding : Folding) (openings : List Opening) :
    (openings.foldl Folding.openNode folding).flat = folding.flat := by
  induction openings generalizing folding with
  | nil => rfl
  | cons opening rest ih =>
      rw [List.foldl_cons, ih]
      unfold Folding.openNode
      split
      · rfl
      · simp [Folding.flat, flatten]

theorem Folding.length_openAll (folding : Folding) (openings : List Opening) :
    (openings.foldl Folding.openNode folding).frames.length =
      folding.frames.length + opened openings := by
  induction openings generalizing folding with
  | nil => rfl
  | cons opening rest ih =>
      rw [List.foldl_cons, ih, opened_cons]
      unfold Folding.openNode
      split
      · rename_i none
        simp [none]
      · rename_i symbol some
        simp only [some, List.length_cons, Option.isSome_some, if_true]
        omega

theorem Frame.measured_close {text : Text} {here : Nat} (vocabulary : Vocabulary) {frame : Frame}
    (measured : MeasuredAmong text here frame.children.reverse) :
    (frame.close vocabulary).tree.Measured text here ∧
      (frame.close vocabulary).tree.total.bytes = widthOf frame.children.reverse := by
  unfold Frame.close
  dsimp only
  split
  · exact ⟨Tree.measured_error measured, Tree.total_error _⟩
  · exact ⟨Tree.measured_branch _ _ _ measured, Tree.total_branch _ _ _ _⟩

/-- A node that closes stands over what its children stood over. -/
theorem Folding.measured_closeNode {text : Text} {here : Nat} (vocabulary : Vocabulary)
    {folding : Folding} (measured : MeasuredAmong text here folding.flat) :
    MeasuredAmong text here (folding.closeNode vocabulary).flat ∧
      widthOf (folding.closeNode vocabulary).flat = widthOf folding.flat := by
  unfold Folding.closeNode
  split
  · exact ⟨measured, rfl⟩
  · rename_i frame rest inside
    have split : folding.flat =
        (Folding.mk rest folding.finished).flat ++ frame.children.reverse := by
      simp [Folding.flat, inside, flatten]
    rw [split, measuredAmong_append] at measured
    rcases measured with ⟨before, own⟩
    rcases frame.measured_close vocabulary own with ⟨closed, total⟩
    rw [Folding.flat_add, split]
    constructor
    · exact measuredAmong_append.mpr ⟨before, measuredAmong_cons.mpr ⟨closed, measuredAmong_nil⟩⟩
    · rw [widthOf_append, widthOf_append, ← total]
      rfl

theorem Folding.length_closeNode (vocabulary : Vocabulary) (folding : Folding) :
    (folding.closeNode vocabulary).frames.length = folding.frames.length - 1 := by
  unfold Folding.closeNode
  split
  · rename_i outside
    simp [outside]
  · rename_i frame rest inside
    rw [Folding.length_add, inside, List.length_cons, Nat.add_sub_cancel]

/-- A fold that has come to an event of a balanced record: no more of its frames are open than close
from there on, and what it has and what is still to come lie end to end over the text. -/
structure Midway (text : Text) (here width : Nat) (events : Array Event) (index : Nat)
    (folding : Folding) : Prop where
  balanced : Balanced events
  room : folding.frames.length ≤ spare events index
  measured : MeasuredAmong text here (folding.flat ++ treesFrom events index)
  width_eq : widthOf (folding.flat ++ treesFrom events index) = width

namespace Midway

variable {text : Text} {here width count : Nat} {folding result : Folding}
  {inner openings : List Opening}

/-- Behind the last event no frame is open. -/
theorem ends (midway : Midway text here width events index folding)
    (behind : events[index]? = none) :
    folding.frames = [] ∧ MeasuredAmong text here folding.finished.reverse ∧
      widthOf folding.finished.reverse = width := by
  rcases midway with ⟨_, room, measured, total⟩
  rw [spare_of_none behind] at room
  have closed : folding.frames = [] := List.eq_nil_of_length_eq_zero (by omega)
  simp only [treesFrom_of_none behind, Folding.flat, closed, flatten,
    List.append_nil] at measured total
  exact ⟨closed, measured, total⟩

/-- A node closes. -/
theorem closes (midway : Midway text here width events index folding)
    (found : events[index]? = some closing) (vocabulary : Vocabulary) :
    Midway text here width events (index + 1) (folding.closeNode vocabulary) := by
  rcases midway with ⟨balanced, room, measured, total⟩
  have even := balanced.even (index + 1)
  rw [spare_of_found found] at room
  rw [treesFrom_of_found found] at measured total
  rcases measuredAmong_append.mp measured with ⟨before, later⟩
  rcases folding.measured_closeNode vocabulary before with ⟨kept, same⟩
  refine ⟨balanced, ?_, measuredAmong_append.mpr ⟨kept, same ▸ later⟩, ?_⟩
  · rw [Folding.length_closeNode]
    simp only [weight] at room
    omega
  · rw [widthOf_append, same, ← widthOf_append]
    exact total

/-- An event that stands for nothing is passed. -/
theorem passes (midway : Midway text here width events index folding) {field state : Nat}
    (found : events[index]? = some (opening none none field state)) :
    Midway text here width events (index + 1) folding := by
  rcases midway with ⟨balanced, room, measured, total⟩
  rw [spare_of_found found] at room
  rw [treesFrom_of_found found] at measured total
  exact ⟨balanced, by simpa only [weight, Int.zero_add] using room, measured, total⟩

/-- The nodes around an event open, out of a record that stays balanced. -/
theorem opens (midway : Midway text here width events index folding)
    (found : events[index]? = some event)
    (followed : followWrappers events index inner event.wrapper? = .ok (after, openings))
    (weighs : event.weight + opened inner = 0) :
    after.size = events.size ∧ Balanced after ∧
      (openings.foldl Folding.openNode folding).frames.length ≤ spare after (index + 1) ∧
      treesFrom after (index + 1) = treesFrom events (index + 1) := by
  rcases midway with ⟨balanced, room, _, _⟩
  rcases followWrappers_keeps followed balanced
    (balanced.onward event (Array.mem_of_getElem? found)) with ⟨size, kept, trees, spares⟩
  have spent := spares (index + 1) (Nat.le_refl _)
  rw [spare_of_found found] at room
  refine ⟨size, kept, ?_, trees _⟩
  rw [Folding.length_openAll]
  omega

/-- What comes out of the fold. Only the wrappers that it follows change the record on the way. -/
theorem comes_out {vocabulary : Vocabulary}
    (midway : Midway text here width events index folding)
    (folded : foldFrom vocabulary events index folding count = .ok result)
    (enough : events.size ≤ index + count) :
    result.frames = [] ∧ MeasuredAmong text here result.finished.reverse ∧
      widthOf result.finished.reverse = width := by
  induction count generalizing events index folding with
  | zero =>
      cases folded
      exact midway.ends (Array.getElem?_eq_none (by omega))
  | succ count ih =>
      rw [foldFrom] at folded
      split at folded
      · rename_i behind
        cases folded
        exact midway.ends behind
      · rename_i found
        exact ih (midway.closes found vocabulary) folded (by omega)
      · rename_i found
        exact ih (midway.passes found) folded (by omega)
      · rename_i symbol wrapper field state _ found
        split at folded
        · cases folded
        · rename_i after openings followed
          have weighs : (opening symbol wrapper field state).weight +
              opened [⟨symbol, field, state⟩] = 0 := by
            cases symbol <;> rfl
          rcases midway.opens found followed weighs with ⟨size, balanced, room, trees⟩
          have measured := midway.measured
          have total := midway.width_eq
          rw [treesFrom_of_found found, ← trees, ← folding.flat_openAll openings] at measured total
          exact ih ⟨balanced, room, measured, total⟩ folded (by omega)
      · rename_i tree wrapper field found
        split at folded
        · cases folded
        · rename_i after openings followed
          rcases midway.opens found followed rfl with ⟨size, balanced, room, trees⟩
          have measured := midway.measured
          have total := midway.width_eq
          have flat : ((openings.foldl Folding.openNode folding).add ⟨field, tree⟩).flat =
              folding.flat ++ [⟨field, tree⟩] := by
            rw [Folding.flat_add, Folding.flat_openAll]
          rw [treesFrom_of_found found, ← trees, measuredAmong_append] at measured
          rw [treesFrom_of_found found, ← trees, widthOf_append] at total
          refine ih ⟨balanced, ?_, ?_, ?_⟩ folded (by omega)
          · rw [Folding.length_add]
            exact room
          · rw [flat, List.append_assoc, measuredAmong_append]
            exact measured
          · rw [flat, List.append_assoc, widthOf_append]
            exact total

end Midway

/-- The trees that a balanced record adds, measured end to end, come out of the fold so. -/
theorem measured_fold {text : Text} {here : Nat} {vocabulary : Vocabulary}
    {items : List (Edge Tree)} (folded : fold? vocabulary events = .ok items)
    (balanced : Balanced events) (measured : MeasuredAmong text here (trees events)) :
    MeasuredAmong text here items ∧ widthOf items = widthOf (trees events) := by
  unfold fold? at folded
  split at folded
  · cases folded
  · rename_i result run
    cases folded
    have start : Midway text here (widthOf (trees events)) events 0 ⟨[], []⟩ :=
      ⟨balanced, balanced.even 0, measured, rfl⟩
    exact (start.comes_out run (by omega)).2

end Event

end Reparse
