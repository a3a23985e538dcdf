import Reparse.Proofs.Difference.Rounds

/-!
# What is left of a comparison

Every round goes on to a place further ahead, of which two trees have finitely many
(`Tree.stops`), or takes both walkers further down (`Tree.Diffing.measure`).
-/

namespace Reparse

namespace Tree

mutual

/-- Where the padding and the content of each node end, in a tree that begins at `start`. -/
def stops (start : Nat) : Tree → List Nat
  | node info children =>
    (start + info.padding.bytes) :: (start + info.total.bytes) :: stopsAmong start children

def stopsAmong (start : Nat) : List (Edge Tree) → List Nat
  | [] => []
  | edge :: rest => edge.tree.stops start ++ stopsAmong (start + edge.tree.total.bytes) rest

end

mutual

theorem length_stops (start : Nat) : (tree : Tree) → (tree.stops start).length = 2 * tree.count
  | node info children => by
    simp only [stops, List.length_cons, length_stopsAmong start children, count]
    omega

theorem length_stopsAmong (start : Nat) : (children : List (Edge Tree)) →
    (stopsAmong start children).length = 2 * countAll children
  | [] => rfl
  | ⟨field, child⟩ :: rest => by
    simp only [stopsAmong, List.length_append, length_stops start child,
      length_stopsAmong _ rest, countAll]
    omega

end

mutual

theorem At.stops_subset (start : Nat) {tree found : Tree} {path : List Nat} {offset : Nat} :
    tree.At path offset found → found.stops (start + offset) ⊆ tree.stops start
  | .here _ => fun _ member => member
  | .inside among => fun _ member => by
    simp only [stops, List.mem_cons]
    exact Or.inr (Or.inr (among.stops_subset start member))

theorem AtAmong.stops_subset (start : Nat) {children : List (Edge Tree)} {found : Tree}
    {number : Nat} {path : List Nat} {offset : Nat} :
    AtAmong children number path offset found →
      found.stops (start + offset) ⊆ stopsAmong start children
  | .first within => fun _ member => by
    simp only [stopsAmong, List.mem_append]
    exact Or.inl (within.stops_subset start member)
  | .later among => fun _ member => by
    simp only [stopsAmong, List.mem_append]
    rw [← Nat.add_assoc] at member
    exact Or.inr (among.stops_subset _ member)

end

end Tree

namespace Walker

variable {root : Tree} {walker : Walker} {position goal : Nat}

/-- The place of a walker ends where the padding or the content of a node does. -/
theorem Stands.stop_mem (stands : walker.Stands root position) (inhabited : walker.stack ≠ []) :
    walker.stop.bytes ∈ root.stops 0 := by
  cases stack : walker.stack with
  | nil => exact absurd stack inhabited
  | cons entry around =>
      have trace := stands.trace inhabited
      rw [stack] at trace
      rcases trace.placed with ⟨path, at_⟩
      have among := at_.stops_subset 0
      rw [Nat.zero_add] at among
      apply among
      rcases entry with ⟨⟨info, children⟩, start, first, later⟩
      simp only [stop, stack, Tree.stops, List.mem_cons]
      split
      · exact Or.inl rfl
      · exact Or.inr (Or.inl rfl)
end Walker

namespace Tree

open Walker (Sought surplus)

namespace Diffing

variable {old new : Tree} {diffing : Diffing}

/-- The number of places in either tree where a stay of a walker can still end. -/
def stopsAfter (old new : Tree) (position : Nat) : Nat :=
  (old.stops 0 ++ new.stops 0).countP (position < ·)

/-- A bound on how often the walkers can still descend at the position. From padding nothing can be
descended into. -/
def descents (old : Tree) (diffing : Diffing) : Nat :=
  if diffing.old.inPadding = true ∨ diffing.new.inPadding = true then 0
  else 1 + old.count - diffing.old.kinds.length

theorem descents_of_padding {old : Tree} (diffing : Diffing)
    (padding : diffing.old.inPadding = true ∨ diffing.new.inPadding = true) :
    descents old diffing = 0 := if_pos padding

theorem descents_of_content {old : Tree} (diffing : Diffing)
    (oldContent : diffing.old.inPadding = false) (newContent : diffing.new.inPadding = false) :
    descents old diffing = 1 + old.count - diffing.old.kinds.length :=
  if_neg (by simp [oldContent, newContent])

/-- The places that are left count most, and after them the descents at the position. -/
def measure (old new : Tree) (diffing : Diffing) : Nat :=
  stopsAfter old new diffing.reached.bytes * (old.count + 2) + descents old diffing

theorem descents_le (old : Tree) (diffing : Diffing) : descents old diffing ≤ old.count + 1 := by
  unfold descents
  split <;> omega

theorem stopsAfter_le (old new : Tree) (position : Nat) :
    stopsAfter old new position ≤ 2 * (old.count + new.count) := by
  unfold stopsAfter
  refine Nat.le_trans List.countP_le_length ?_
  simp only [List.length_append, length_stops]
  omega

theorem stopsAfter_lt {position next : Nat} (further : position < next)
    (stop : next ∈ old.stops 0 ∨ next ∈ new.stops 0) :
    stopsAfter old new next < stopsAfter old new position := by
  unfold stopsAfter
  generalize same : old.stops 0 ++ new.stops 0 = places
  have member : next ∈ places := by
    rw [← same, List.mem_append]
    exact stop
  clear same
  induction places with
  | nil => cases member
  | cons place rest ih =>
      have fewer : rest.countP (next < ·) ≤ rest.countP (position < ·) := by
        apply List.countP_mono_left
        simp only [decide_eq_true_eq]
        omega
      rw [List.countP_cons, List.countP_cons]
      rcases List.mem_cons.mp member with rfl | later
      · simp only [decide_eq_true_eq, Nat.lt_irrefl, if_false, further, if_true]
        omega
      · have := ih later
        simp only [decide_eq_true_eq]
        split <;> split <;> omega

theorem measure_le (old new : Tree) (diffing : Diffing) :
    measure old new diffing ≤ 2 * (old.count + new.count) * (old.count + 2) + (old.count + 1) := by
  unfold measure
  have places := Nat.mul_le_mul_right (old.count + 2)
    (stopsAfter_le old new diffing.reached.bytes)
  have rest := descents_le old diffing
  omega

theorem measure_lt_of_further {isChanged : Bool} {chosen : Diffing}
    {oldLast newLast : Walker} (further : diffing.reached.bytes < chosen.next.bytes)
    (stop : chosen.next.bytes ∈ old.stops 0 ∨ chosen.next.bytes ∈ new.stops 0) :
    measure old new (chosen.advanced isChanged oldLast newLast) < measure old new diffing := by
  have places := stopsAfter_lt further stop
  have weight := Nat.mul_le_mul_right (old.count + 2) places
  have rest := descents_le old (chosen.advanced isChanged oldLast newLast)
  unfold measure
  rw [Nat.succ_mul] at weight
  change stopsAfter old new chosen.next.bytes * (old.count + 2) + _ < _
  omega

/-- A walker that has found a visible node below its place is in the padding before it or one node
deeper. -/
theorem kinds_of_sought {root : Tree} {walker below : Walker} {position : Nat}
    (sought : Sought root walker position (true, below)) :
    (below.inPadding = true ∧ below.kinds.length = walker.kinds.length) ∨
      (below.inPadding = false ∧ below.kinds.length = walker.kinds.length + 1) := by
  rcases (sought.success rfl).2.2 with ⟨padding, same⟩ | ⟨flush, tail⟩
  · exact Or.inl ⟨padding, congrArg List.length same⟩
  · right
    refine ⟨flush.1, ?_⟩
    have some := List.length_pos_iff.mpr flush.kinds_ne_nil
    have rest := congrArg List.length tail
    simp only [List.length_tail] at rest some
    omega

/-- Where both walkers descend, one of them comes into padding or both have gone one node down. -/
theorem measure_lt_of_below (even : Even old new diffing)
    (visible : old.info.visible = new.info.visible) {isChanged : Bool} {chosen : Diffing}
    {oldPast newPast oldLast newLast : Walker} (same : chosen.next.bytes = diffing.reached.bytes)
    (oldSought : Sought old diffing.old diffing.reached.bytes (true, chosen.old))
    (newSought : Sought new diffing.new diffing.reached.bytes (true, chosen.new))
    (settled : Settled old new chosen oldPast newPast oldLast newLast) :
    measure old new (chosen.advanced isChanged oldLast newLast) < measure old new diffing := by
  have sameSurplus : surplus old = surplus new := by simp [surplus, visible]
  rcases oldSought.success rfl with ⟨oldContent, oldAhead, _⟩
  rcases newSought.success rfl with ⟨newContent, newAhead, _⟩
  have oldStays : oldPast = chosen.old := settled.oldAdvances.stays (by rw [same]; exact oldAhead)
  have newStays : newPast = chosen.new := settled.newAdvances.stays (by rw [same]; exact newAhead)
  have level := even.level
  rw [even.oldStands.depth, even.newStands.depth] at level
  have oldDepth := oldSought.stands.depth
  have newDepth := newSought.stands.depth
  have bound := even.oldStands.length_kinds_le
  have boundBelow := oldSought.stands.length_kinds_le
  dsimp only at oldDepth newDepth boundBelow
  have least := settled.oldRises.least
  have oldSame := settled.oldRises.same
  have newSame := settled.newRises.same
  rw [oldStays, newStays] at least
  rw [oldStays, newStays] at oldSame
  rw [newStays] at newSame
  have before : descents old diffing = 1 + old.count - diffing.old.kinds.length :=
    descents_of_content _ oldContent newContent
  have fewer : descents old (chosen.advanced isChanged oldLast newLast) < descents old diffing := by
    rcases kinds_of_sought oldSought with ⟨oldPadding, oldLength⟩ | ⟨oldInside, oldLength⟩
    · have stays : oldLast = chosen.old := by
        apply oldSame
        rcases kinds_of_sought newSought with ⟨_, newLength⟩ | ⟨_, newLength⟩ <;> omega
      subst stays
      rw [descents_of_padding (chosen.advanced isChanged chosen.old newLast)
        (Or.inl oldPadding)]
      omega
    · rcases kinds_of_sought newSought with ⟨newPadding, newLength⟩ | ⟨newInside, newLength⟩
      · have raised := least (by omega)
        have stays : newLast = chosen.new := newSame (by omega)
        subst stays
        rw [descents_of_padding (chosen.advanced isChanged oldLast chosen.new)
          (Or.inr newPadding)]
        omega
      · have oldStill : oldLast = chosen.old := oldSame (by omega)
        subst oldStill
        have newStill : newLast = chosen.new := newSame (by omega)
        subst newStill
        rw [descents_of_content (chosen.advanced isChanged chosen.old chosen.new)
          oldInside newInside]
        simp only [advanced]
        omega
  unfold measure
  change stopsAfter old new chosen.next.bytes * (old.count + 2) + _ < _
  rw [same]
  omega
end Diffing

end Tree

end Reparse
