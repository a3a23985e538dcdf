import Reparse.Proofs.Tree.Families
import Reparse.Syntax.Reuse

/-!
# What the search for reusable subtrees finds

The search goes by positions. Whatever it finds is a subtree of the searched tree that lies at the
wanted position and can be relied on.
-/

namespace Reparse

/-- A node that was completed in the state, would end at `stop` in a document of `length` bytes, and
can be relied on there. -/
structure Info.Suits (state length stop : Nat) (info : Info) : Prop where
  state_eq : info.state = state
  unmarked : info.changed = false
  clean : info.hasError = false
  solid : info.extra = false
  present : info.missing = false
  wide : 0 < info.size.bytes
  inside : stop ≤ length

theorem Info.suits_iff {info : Info} {state length stop : Nat} :
    info.isReusable state length stop = true ↔ info.Suits state length stop := by
  simp only [isReusable, Bool.and_eq_true, beq_iff_eq, Bool.not_eq_true', decide_eq_true_eq]
  constructor
  · rintro ⟨⟨⟨⟨⟨⟨state, unmarked⟩, clean⟩, solid⟩, present⟩, wide⟩, inside⟩
    exact ⟨state, unmarked, clean, solid, present, wide, inside⟩
  · rintro ⟨state, unmarked, clean, solid, present, wide, inside⟩
    exact ⟨⟨⟨⟨⟨⟨state, unmarked⟩, clean⟩, solid⟩, present⟩, wide⟩, inside⟩

namespace Tree

variable {position state length : Nat} {found : Tree}

mutual

theorem at_of_findBelow (start : Nat) :
    (tree : Tree) → findBelow position state length start tree = some found →
      ∃ path offset, tree.At path offset found ∧ start + offset = position ∧
        found.info.isReusable state length (position + found.total.bytes) = true
  | node info children, search => by
    rcases atAmong_of_findAmong start children (by simpa only [findBelow] using search) with
      ⟨number, path, offset, among, place, reusable⟩
    exact ⟨number :: path, offset, .inside among, place, reusable⟩

theorem atAmong_of_findAmong (start : Nat) : (children : List (Edge Tree)) →
    findAmong position state length start children = some found →
      ∃ number path offset, AtAmong children number path offset found ∧
        start + offset = position ∧
        found.info.isReusable state length (position + found.total.bytes) = true
  | [], search => by simp [findAmong] at search
  | ⟨field, child⟩ :: rest, search => by
    simp only [findAmong] at search
    split at search
    · simp at search
    · split at search
      · rename_i suits
        rcases suits with ⟨rfl, reusable⟩
        simp only [Option.some.injEq] at search
        subst search
        exact ⟨0, [], 0, .first (.here _), Nat.add_zero _, reusable⟩
      · split at search
        · rcases at_of_findBelow start child search with ⟨path, offset, at_, place, reusable⟩
          exact ⟨0, path, offset, .first at_, place, reusable⟩
        · rcases atAmong_of_findAmong _ rest search with
            ⟨number, path, offset, among, place, reusable⟩
          exact ⟨number + 1, path, _, .later among, by omega, reusable⟩

end

/-- A subtree that is found lies at the position and may be used again there. -/
theorem at_of_findReusable {tree : Tree}
    (search : tree.findReusable length position state = some found) :
    ∃ path, tree.At path position found ∧
      found.info.Suits state length (position + found.total.bytes) := by
  simp only [findReusable] at search
  split at search
  · simp at search
  · rcases at_of_findBelow 0 tree search with ⟨path, offset, at_, place, reusable⟩
    rw [Nat.zero_add] at place
    subst place
    exact ⟨path, at_, Info.suits_iff.mp reusable⟩

/-- All subtrees that a parse can take over from a tree are in a family. -/
def Lends (family : Tree → Prop) (tree : Tree) : Prop :=
  ∀ ⦃length position state : Nat⦄ ⦃found : Tree⦄,
    tree.findReusable length position state = some found → family found

/-- A tree of a family lends trees of the family. -/
theorem IsHereditary.lends {family : Tree → Prop} (closed : IsHereditary family) {tree : Tree}
    (member : family tree) : tree.Lends family := by
  intro length position state found search
  rcases at_of_findReusable search with ⟨path, at_, _⟩
  exact closed.of_at at_ member

/-! ## The outermost one -/

/-- A search comes to the outermost of the subtrees that child numbers lead to, or there is none. -/
inductive Outermost (offered : List Nat → Tree → Prop) : Option Tree → Prop where
  | found {path : List Nat} {found : Tree} (offer : offered path found)
      (outer : ∀ other below, offered other below → path <+: other) : Outermost offered (some found)
  | missing (absent : ∀ path found, ¬offered path found) : Outermost offered none

/-- The same search in a tree around. -/
theorem Outermost.lift {offered around : List Nat → Tree → Prop} {result : Option Tree}
    (sought : Outermost offered result) (step : List Nat → List Nat)
    (mono : ∀ path other, path <+: other → step path <+: step other)
    (outward : ∀ path found, offered path found → around (step path) found)
    (inward : ∀ path found, around path found → ∃ inner, path = step inner ∧ offered inner found) :
    Outermost around result := by
  cases sought with
  | found offer outer =>
      refine .found (outward _ _ offer) fun other below again => ?_
      rcases inward other below again with ⟨inner, rfl, within⟩
      exact mono _ _ (outer inner below within)
  | missing absent =>
      refine .missing fun path found again => ?_
      rcases inward path found again with ⟨inner, _, within⟩
      exact absent inner found within

/-- A subtree that begins at `place` begins at the position and can be used again there. -/
def Serves (position state length place : Nat) (found : Tree) : Prop :=
  place = position ∧ found.info.Suits state length (position + found.total.bytes)

/-- What serves is not empty. -/
theorem Serves.lt {place : Nat} (serves : found.Serves position state length place) :
    0 < found.total.bytes := by
  have wide := serves.2.wide
  simp only [total, Info.total, Extent.bytes_add]
  omega

/-- The proper subtrees that serve, below a tree that begins at `start`. -/
def ServesBelow (position state length start : Nat) (tree : Tree) (path : List Nat)
    (found : Tree) : Prop :=
  path ≠ [] ∧ ∃ offset, tree.At path offset found ∧
    found.Serves position state length (start + offset)

/-- The same for children of which the first begins at `start`. -/
def ServesAmong (position state length start : Nat) (children : List (Edge Tree)) (path : List Nat)
    (found : Tree) : Prop :=
  ∃ number inner offset, path = number :: inner ∧ AtAmong children number inner offset found ∧
    found.Serves position state length (start + offset)

section Outermost

variable {start field : Nat} {child : Tree} {rest : List (Edge Tree)} {path : List Nat}

theorem servesBelow_node {info : Info} {children : List (Edge Tree)} :
    ServesBelow position state length start (node info children) path found ↔
      ServesAmong position state length start children path found := by
  constructor
  · rintro ⟨proper, offset, at_, serves⟩
    cases at_ with
    | here => exact absurd rfl proper
    | inside among => exact ⟨_, _, offset, rfl, among, serves⟩
  · rintro ⟨number, inner, offset, rfl, among, serves⟩
    exact ⟨List.cons_ne_nil _ _, offset, .inside among, serves⟩

/-- The child numbers of later children. -/
def shifted : List Nat → List Nat
  | [] => []
  | number :: path => (number + 1) :: path

theorem shifted_prefix (path other : List Nat) (le : path <+: other) :
    shifted path <+: shifted other := by
  cases path with
  | nil => exact List.nil_prefix
  | cons number path =>
      cases other with
      | nil => simp at le
      | cons step other =>
          rcases List.cons_prefix_cons.mp le with ⟨rfl, inner⟩
          exact List.cons_prefix_cons.mpr ⟨rfl, inner⟩

/-- No later child begins before the first one ends. -/
theorem ServesAmong.first_of_lt
    (serves : ServesAmong position state length start (⟨field, child⟩ :: rest) path found)
    (inside : position < start + child.total.bytes) :
    ∃ inner offset, path = 0 :: inner ∧ child.At inner offset found ∧
      found.Serves position state length (start + offset) := by
  rcases serves with ⟨number, inner, offset, rfl, among, place, suits⟩
  cases among with
  | first within => exact ⟨inner, offset, rfl, within, place, suits⟩
  | later among => omega

/-- Nothing that serves lies in a first child that ends at the position or before it. -/
theorem ServesAmong.later_of_le
    (serves : ServesAmong position state length start (⟨field, child⟩ :: rest) path found)
    (laid : child.Laid) (ended : start + child.total.bytes ≤ position) :
    ∃ inner, path = shifted inner ∧
      ServesAmong position state length (start + child.total.bytes) rest inner found := by
  rcases serves with ⟨number, inner, offset, rfl, among, serves⟩
  cases among with
  | first within =>
      have inside := within.le_total laid
      have wide := serves.lt
      have place := serves.1
      omega
  | @later _ _ _ number _ offset _ among =>
      rw [← Nat.add_assoc] at serves
      exact ⟨number :: inner, rfl, number, inner, offset, rfl, among, serves⟩

mutual

/-- In a tree that is laid out the search below it comes to the outermost subtree that serves. -/
theorem outermost_findBelow (start : Nat) : (tree : Tree) → tree.Laid →
    Outermost (ServesBelow position state length start tree)
      (findBelow position state length start tree)
  | node info children, laid => by
    rw [findBelow]
    exact (outermost_findAmong start children laid.children).lift id (fun _ _ le => le)
      (fun _ _ => servesBelow_node.mpr) fun path found serves =>
        ⟨path, rfl, servesBelow_node.mp serves⟩

theorem outermost_findAmong (start : Nat) : (children : List (Edge Tree)) →
    EverywhereAmong IsLaid children →
    Outermost (ServesAmong position state length start children)
      (findAmong position state length start children)
  | [], _ => by
    rw [findAmong]
    refine .missing ?_
    rintro path found ⟨number, inner, offset, rfl, among, _⟩
    cases among
  | ⟨field, child⟩ :: rest, laid => by
    rcases everywhereAmong_cons.mp laid with ⟨here, behind⟩
    rw [findAmong]
    split
    · -- all children begin behind the position
      refine .missing ?_
      rintro path found ⟨number, inner, offset, rfl, among, place, _⟩
      omega
    · split
      · rename_i suits
        rcases suits with ⟨rfl, reusable⟩
        have suits := Info.suits_iff.mp reusable
        have wide : 0 < child.total.bytes := Serves.lt ⟨rfl, suits⟩
        have serves : ServesAmong start state length start (⟨field, child⟩ :: rest) [0] child :=
          ⟨0, [], 0, rfl, .first (.here child), rfl, suits⟩
        refine .found serves ?_
        intro other below serves
        rcases serves.first_of_lt (by omega) with ⟨inner, _, rfl, _⟩
        exact List.cons_prefix_cons.mpr ⟨rfl, List.nil_prefix⟩
      · rename_i unsuited
        split
        · rename_i inside
          refine (outermost_findBelow start child here).lift (0 :: ·) ?_ ?_ ?_
          · exact fun path other le => List.cons_prefix_cons.mpr ⟨rfl, le⟩
          · rintro path found ⟨_, offset, at_, serves⟩
            exact ⟨0, path, offset, rfl, .first at_, serves⟩
          · intro path found serves
            rcases serves.first_of_lt inside with ⟨inner, offset, rfl, at_, serves⟩
            refine ⟨inner, rfl, ?_, offset, at_, serves⟩
            -- the child itself does not serve
            rintro rfl
            cases at_
            rcases serves with ⟨rfl, suits⟩
            exact unsuited ⟨rfl, Info.suits_iff.mpr suits⟩
        · rename_i ended
          refine (outermost_findAmong _ rest behind).lift shifted shifted_prefix ?_ ?_
          · rintro path found ⟨number, inner, offset, rfl, among, serves⟩
            rw [Nat.add_assoc] at serves
            exact ⟨number + 1, inner, _, rfl, .later among, serves⟩
          · intro path found serves
            exact serves.later_of_le here (Nat.le_of_not_lt ended)

end

end Outermost

end Tree

end Reparse
