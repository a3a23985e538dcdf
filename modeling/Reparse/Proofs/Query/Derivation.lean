import Mathlib.Data.List.Basic
import Reparse.Query.Match

/-!
# How patterns match

A derivation tells how a pattern matches a node: which children its child patterns were matched by,
which branch an alternation took, and so on below. `Pattern.Derives` says what a derivation has to
satisfy and what it captures, `Derivation.Before` orders derivations lexicographically. The search
for solutions finds the captures of all derivations, each once and in this order.
-/

namespace Reparse

/-- How a pattern matches a node. -/
inductive Derivation where
  /-- The indices of the children that the child patterns match, with how they do. -/
  | node (chosen : List (Nat × Derivation))
  /-- The number of the alternative, with how it matches. -/
  | branch (index : Nat) (inner : Derivation)

/-- How patterns match some siblings in a row. -/
abbrev Choice := List (Nat × Derivation)

namespace Derivation

mutual

/-- The lexicographic order of derivations. -/
inductive Before : Derivation → Derivation → Prop where
  | node {left right : Choice} (chosen : BeforeAmong left right) : Before (node left) (node right)
  | branch {left right : Nat} {one other : Derivation} (less : left < right) :
      Before (branch left one) (branch right other)
  | inner {index : Nat} {one other : Derivation} (inside : Before one other) :
      Before (branch index one) (branch index other)

inductive BeforeAmong : Choice → Choice → Prop where
  | index {left right : Nat} {one other : Derivation} {rest more : Choice} (less : left < right) :
      BeforeAmong ((left, one) :: rest) ((right, other) :: more)
  | here {index : Nat} {one other : Derivation} {rest more : Choice} (inside : Before one other) :
      BeforeAmong ((index, one) :: rest) ((index, other) :: more)
  | later {index : Nat} {inner : Derivation} {rest more : Choice} (behind : BeforeAmong rest more) :
      BeforeAmong ((index, inner) :: rest) ((index, inner) :: more)

end

mutual

/-- Of two derivations at most one comes before the other. -/
theorem Before.asymm : (one other : Derivation) → one.Before other → ¬other.Before one
  | .node left, .node right, before, after => by
    cases before with
    | node first =>
        cases after with
        | node second => exact BeforeAmong.asymm left right first second
  | .branch _ one, .branch _ other, before, after => by
    cases before with
    | branch less =>
        cases after with
        | branch more => exact Nat.lt_asymm less more
        | inner => exact Nat.lt_irrefl _ less
    | inner inside =>
        cases after with
        | branch more => exact Nat.lt_irrefl _ more
        | inner outside => exact Before.asymm one other inside outside

theorem BeforeAmong.asymm : (one other : Choice) → BeforeAmong one other → ¬BeforeAmong other one
  | (_, one) :: left, (_, other) :: right, before, after => by
    cases before with
    | index less =>
        cases after with
        | index more => exact Nat.lt_asymm less more
        | here => exact Nat.lt_irrefl _ less
        | later => exact Nat.lt_irrefl _ less
    | here inside =>
        cases after with
        | index more => exact Nat.lt_irrefl _ more
        | here outside => exact Before.asymm one other inside outside
        | later => exact Before.asymm one one inside inside
    | later behind =>
        cases after with
        | index more => exact Nat.lt_irrefl _ more
        | here inside => exact Before.asymm one one inside inside
        | later ahead => exact BeforeAmong.asymm left right behind ahead

end

end Derivation

namespace Pattern

open Derivation (Before BeforeAmong)

mutual

/-- A derivation of how a pattern matches a node that is shown in a field, and what it captures: the
node itself first, then what lies below. -/
inductive Derives : Pattern → Child → Derivation → Captures → Prop where
  | node {matcher : Matcher} {children : List Pattern} {absent : List Nat} {field : Nat}
      {captures : List Nat} {shown : Child} {chosen : Choice} {below : Captures}
      (placed : field = 0 ∨ field = shown.field) (accepted : matcher.accepts shown.node = true)
      (lacking : ∀ field ∈ absent, shown.node.childInField? field = none)
      (among : DerivesAmong children shown.node.children 0 chosen below) :
      Derives (.node matcher children absent field captures) shown (.node chosen)
        (captures.map (fun number => (number, shown.node)) ++ below)
  | oneOf {alternatives : List Pattern} {field : Nat} {captures : List Nat} {shown : Child}
      {index : Nat} {pattern : Pattern} {inner : Derivation} {found : Captures}
      (placed : field = 0 ∨ field = shown.field) (taken : alternatives[index]? = some pattern)
      (inside : Derives pattern shown inner found) :
      Derives (.oneOf alternatives field captures) shown (.branch index inner)
        (captures.map (fun number => (number, shown.node)) ++ found)

/-- The same for patterns in a row: they match siblings with strictly increasing indices, the first
of which is at least `least`. -/
inductive DerivesAmong : List Pattern → List Child → Nat → Choice → Captures → Prop where
  | nil {siblings : List Child} {least : Nat} : DerivesAmong [] siblings least [] []
  | cons {pattern : Pattern} {rest : List Pattern} {siblings : List Child} {least index : Nat}
      {sibling : Child} {inner : Derivation} {chosen : Choice} {found more : Captures}
      (onward : least ≤ index) (at_ : siblings[index]? = some sibling)
      (here : Derives pattern sibling inner found)
      (behind : DerivesAmong rest siblings (index + 1) chosen more) :
      DerivesAmong (pattern :: rest) siblings least ((index, inner) :: chosen) (found ++ more)

end

/-! ## All derivations -/

mutual

/-- All derivations of how a pattern matches a node, with their captures. -/
def ways (shown : Child) : Pattern → List (Derivation × Captures)
  | node matcher children absent field captures =>
    if field ≠ 0 ∧ field ≠ shown.field then []
    else if !matcher.accepts shown.node then []
    else if absent.any fun field => (shown.node.childInField? field).isSome then []
    else
      (waysAmong 0 shown.node.children children).map fun (chosen, below) =>
        (.node chosen, captures.map (fun capture => (capture, shown.node)) ++ below)
  | oneOf alternatives field captures =>
    if field ≠ 0 ∧ field ≠ shown.field then []
    else
      (waysOfAny 0 shown alternatives).map fun ((index, inner), found) =>
        (.branch index inner, captures.map (fun capture => (capture, shown.node)) ++ found)

/-- The same for alternatives, the first of which has number `index`. -/
def waysOfAny (index : Nat) (shown : Child) :
    List Pattern → List ((Nat × Derivation) × Captures)
  | [] => []
  | pattern :: rest =>
    ((ways shown pattern).map fun (inner, found) => ((index, inner), found)) ++
      waysOfAny (index + 1) shown rest

/-- The same for patterns in a row, the first of the siblings having number `index`. -/
def waysAmong (index : Nat) (siblings : List Child) : List Pattern → List (Choice × Captures)
  | [] => [([], [])]
  | pattern :: rest =>
    ((withRest siblings).zipIdx index).flatMap fun ((sibling, later), place) =>
      (ways sibling pattern).flatMap fun (inner, found) =>
        (waysAmong (place + 1) later rest).map fun (chosen, more) =>
          ((place, inner) :: chosen, found ++ more)

end

/-! ### The search finds their captures -/

/-- Patterns that are to be found among some siblings have one solution if there are none. -/
theorem solutionsAmong_of_isEmpty (siblings : List Child) (patterns : List Pattern) :
    (if patterns.isEmpty then [[]] else solutionsAmong siblings patterns) =
      solutionsAmong siblings patterns := by
  cases patterns with
  | nil => rw [solutionsAmong, if_pos List.isEmpty_nil]
  | cons pattern rest => rw [if_neg (by simp)]

/-- Every solution of a head is combined with every solution of the tail. -/
theorem combine_eq (heads tails : List Captures) :
    (match heads with
      | [] => []
      | heads => heads.flatMap fun head => tails.map fun tail => head ++ tail) =
      heads.flatMap fun head => tails.map fun tail => head ++ tail := by
  cases heads <;> rfl

theorem map_zipIdx_flatMap {α β : Type} (items : List α) (index : Nat) (f : α → List β) :
    ((items.zipIdx index).flatMap fun item => f item.1) = items.flatMap f := by
  rw [← List.flatMap_map (f := fun item : α × Nat => item.1), List.zipIdx_map_fst]

mutual

theorem map_ways (shown : Child) : (pattern : Pattern) →
    (ways shown pattern).map (·.2) = solutions shown.field shown.node pattern
  | node matcher children absent field captures => by
    rw [ways, solutions]
    split
    · rfl
    · split
      · rfl
      · split
        · rfl
        · rw [solutionsAmong_of_isEmpty, ← map_waysAmong 0 shown.node.children children,
            List.map_map, List.map_map]
          rfl
  | oneOf alternatives field captures => by
    rw [ways, solutions]
    split
    · rfl
    · rw [← map_waysOfAny 0 shown alternatives, List.map_map, List.map_map]
      rfl

theorem map_waysOfAny (index : Nat) (shown : Child) : (patterns : List Pattern) →
    (waysOfAny index shown patterns).map (·.2) = solutionsOfAny shown.field shown.node patterns
  | [] => rfl
  | pattern :: rest => by
    rw [waysOfAny, solutionsOfAny, List.map_append, List.map_map,
      map_waysOfAny (index + 1) shown rest, ← map_ways shown pattern]
    rfl

theorem map_waysAmong (index : Nat) (siblings : List Child) : (patterns : List Pattern) →
    (waysAmong index siblings patterns).map (·.2) = solutionsAmong siblings patterns
  | [] => rfl
  | pattern :: rest => by
    have step (sibling : Child) (later : List Child) (place : Nat) :
        ((ways sibling pattern).flatMap fun (inner, found) =>
            (waysAmong (place + 1) later rest).map fun (chosen, more) =>
              (((place, inner) :: chosen : Choice), found ++ more)).map (·.2) =
          match solutions sibling.field sibling.node pattern with
          | [] => []
          | heads => heads.flatMap fun head =>
              (solutionsAmong later rest).map fun tail => head ++ tail := by
      rw [combine_eq, ← map_ways sibling pattern, ← map_waysAmong (place + 1) later rest,
        List.map_flatMap, List.flatMap_map]
      simp only [List.map_map]
      rfl
    rw [waysAmong, solutionsAmong, List.map_flatMap]
    refine Eq.trans ?_ (map_zipIdx_flatMap (withRest siblings) index _)
    apply List.flatMap_congr
    rintro ⟨⟨sibling, later⟩, place⟩ _
    exact step sibling later place

end

/-! ### They are all there -/

theorem getElem?_withRest {α : Type} (items : List α) (index : Nat) :
    (withRest items)[index]? = items[index]?.map fun item => (item, items.drop (index + 1)) := by
  induction items generalizing index with
  | nil => rfl
  | cons head rest ih =>
      cases index with
      | zero => rfl
      | succ index => simpa [withRest] using ih index

theorem mem_withRest_zipIdx {α : Type} {items later : List α} {item : α} {least place : Nat} :
    ((item, later), place) ∈ (withRest (items.drop least)).zipIdx least ↔
      least ≤ place ∧ items[place]? = some item ∧ later = items.drop (place + 1) := by
  rw [List.mem_zipIdx_iff_le_and_getElem?_sub]
  refine and_congr_right fun onward => ?_
  have place_ : least + (place - least) = place := Nat.add_sub_cancel' onward
  rw [getElem?_withRest, List.getElem?_drop, List.drop_drop, ← Nat.add_assoc, place_]
  constructor
  · intro there
    rcases Option.map_eq_some_iff.mp there with ⟨found, at_, same⟩
    rw [Prod.mk.injEq] at same
    exact ⟨same.1 ▸ at_, same.2.symm⟩
  · rintro ⟨at_, rfl⟩
    rw [at_]
    rfl

theorem placed_iff {field shown : Nat} :
    ¬(field ≠ 0 ∧ field ≠ shown) ↔ field = 0 ∨ field = shown := by
  rw [not_and_or, not_not, not_not]

theorem lacking_iff {absent : List Nat} {node : Node} :
    ¬(absent.any fun field => (node.childInField? field).isSome) = true ↔
      ∀ field ∈ absent, node.childInField? field = none := by
  simp

mutual

theorem mem_ways (shown : Child) : (pattern : Pattern) → ∀ derivation captures,
    (derivation, captures) ∈ ways shown pattern ↔ Derives pattern shown derivation captures
  | node matcher children absent field captures, derivation, found => by
    rw [ways]
    constructor
    · intro member
      split at member
      · cases member
      · rename_i placed
        split at member
        · cases member
        · rename_i accepted
          split at member
          · cases member
          · rename_i lacking
            rcases List.mem_map.mp member with ⟨⟨chosen, below⟩, among, same⟩
            simp only [Prod.mk.injEq] at same
            rcases same with ⟨rfl, rfl⟩
            exact .node (placed_iff.mp placed) (by simpa using accepted) (lacking_iff.mp lacking)
              ((mem_waysAmong shown.node.children 0 children chosen below).mp among)
    · intro derives
      cases derives with
      | @node _ _ _ _ _ _ chosen below placed accepted lacking among =>
          rw [if_neg (placed_iff.mpr placed), if_neg (by simp [accepted]),
            if_neg (lacking_iff.mpr lacking)]
          exact List.mem_map.mpr ⟨(chosen, below),
            (mem_waysAmong shown.node.children 0 children chosen below).mpr among, rfl⟩
  | oneOf alternatives field captures, derivation, found => by
    rw [ways]
    constructor
    · intro member
      split at member
      · cases member
      · rename_i placed
        rcases List.mem_map.mp member with ⟨⟨⟨index, inner⟩, inside⟩, taken, same⟩
        simp only [Prod.mk.injEq] at same
        rcases same with ⟨rfl, rfl⟩
        rcases (mem_waysOfAny 0 shown alternatives index inner inside).mp taken with
          ⟨skipped, pattern, rfl, at_, derives⟩
        rw [Nat.zero_add]
        exact .oneOf (placed_iff.mp placed) at_ derives
    · intro derives
      cases derives with
      | @oneOf _ _ _ _ index pattern inner inside placed taken derives =>
          rw [if_neg (placed_iff.mpr placed)]
          refine List.mem_map.mpr ⟨((index, inner), inside), ?_, rfl⟩
          exact (mem_waysOfAny 0 shown alternatives index inner inside).mpr
            ⟨index, pattern, (Nat.zero_add _).symm, taken, derives⟩

theorem mem_waysOfAny (index : Nat) (shown : Child) : (patterns : List Pattern) →
    ∀ number inner captures, ((number, inner), captures) ∈ waysOfAny index shown patterns ↔
      ∃ skipped pattern, number = index + skipped ∧ patterns[skipped]? = some pattern ∧
        Derives pattern shown inner captures
  | [], number, inner, captures => by simp [waysOfAny]
  | pattern :: rest, number, inner, captures => by
    rw [waysOfAny, List.mem_append, mem_waysOfAny (index + 1) shown rest]
    constructor
    · rintro (here | ⟨skipped, later, rfl, at_, derives⟩)
      · rcases List.mem_map.mp here with ⟨⟨derivation, found⟩, member, same⟩
        simp only [Prod.mk.injEq] at same
        rcases same with ⟨⟨rfl, rfl⟩, rfl⟩
        exact ⟨0, pattern, rfl, rfl, (mem_ways shown pattern _ _).mp member⟩
      · exact ⟨skipped + 1, later, by omega, at_, derives⟩
    · rintro ⟨skipped, chosen, rfl, at_, derives⟩
      cases skipped with
      | zero =>
          left
          rw [List.getElem?_cons_zero, Option.some.injEq] at at_
          subst at_
          exact List.mem_map.mpr ⟨(inner, captures), (mem_ways shown _ _ _).mpr derives, rfl⟩
      | succ skipped => exact Or.inr ⟨skipped, chosen, by omega, at_, derives⟩

theorem mem_waysAmong (siblings : List Child) (least : Nat) : (patterns : List Pattern) →
    ∀ chosen captures, (chosen, captures) ∈ waysAmong least (siblings.drop least) patterns ↔
      DerivesAmong patterns siblings least chosen captures
  | [], chosen, captures => by
    rw [waysAmong, List.mem_singleton, Prod.mk.injEq]
    constructor
    · rintro ⟨rfl, rfl⟩
      exact .nil
    · intro derives
      cases derives
      exact ⟨rfl, rfl⟩
  | pattern :: rest, chosen, captures => by
    rw [waysAmong]
    constructor
    · intro member
      rcases List.mem_flatMap.mp member with ⟨⟨⟨sibling, later⟩, place⟩, there, inner⟩
      rcases mem_withRest_zipIdx.mp there with ⟨onward, at_, rfl⟩
      rcases List.mem_flatMap.mp inner with ⟨⟨derivation, found⟩, here, behind⟩
      rcases List.mem_map.mp behind with ⟨⟨others, more⟩, tail, same⟩
      simp only [Prod.mk.injEq] at same
      rcases same with ⟨rfl, rfl⟩
      exact .cons onward at_ ((mem_ways sibling pattern _ _).mp here)
        ((mem_waysAmong siblings (place + 1) rest _ _).mp tail)
    · intro derives
      cases derives with
      | @cons _ _ _ _ place sibling derivation others found more onward at_ here behind =>
          refine List.mem_flatMap.mpr ⟨((sibling, siblings.drop (place + 1)), place),
            mem_withRest_zipIdx.mpr ⟨onward, at_, rfl⟩, ?_⟩
          refine List.mem_flatMap.mpr ⟨(derivation, found),
            (mem_ways sibling pattern _ _).mpr here, ?_⟩
          exact List.mem_map.mpr ⟨(others, more),
            (mem_waysAmong siblings (place + 1) rest _ _).mpr behind, rfl⟩

end

/-! ### Each is there once, in order -/

mutual

theorem before_ways (shown : Child) : (pattern : Pattern) →
    (ways shown pattern).Pairwise fun left right => Before left.1 right.1
  | node matcher children absent field captures => by
    rw [ways]
    split
    · exact .nil
    · split
      · exact .nil
      · split
        · exact .nil
        · exact List.pairwise_map.mpr
            ((before_waysAmong 0 shown.node.children children).imp Before.node)
  | oneOf alternatives field captures => by
    rw [ways]
    split
    · exact .nil
    · refine List.pairwise_map.mpr ((before_waysOfAny 0 shown alternatives).imp ?_)
      rintro ⟨⟨left, one⟩, _⟩ ⟨⟨right, other⟩, _⟩ (less | ⟨same, inside⟩)
      · exact .branch less
      · simp only at same inside
        subst same
        exact .inner inside

theorem before_waysOfAny (index : Nat) (shown : Child) : (patterns : List Pattern) →
    (waysOfAny index shown patterns).Pairwise fun left right =>
      left.1.1 < right.1.1 ∨ (left.1.1 = right.1.1 ∧ Before left.1.2 right.1.2)
  | [] => by
    rw [waysOfAny]
    exact .nil
  | pattern :: rest => by
    rw [waysOfAny]
    refine List.pairwise_append.mpr ⟨?_, before_waysOfAny (index + 1) shown rest, ?_⟩
    · exact List.pairwise_map.mpr
        ((before_ways shown pattern).imp fun before => Or.inr ⟨rfl, before⟩)
    · rintro _ here ⟨⟨number, inner⟩, found⟩ there
      left
      rcases List.mem_map.mp here with ⟨way, _, rfl⟩
      rcases (mem_waysOfAny (index + 1) shown rest number inner found).mp there with
        ⟨skipped, _, same, _⟩
      simp only
      omega

theorem before_waysAmong (index : Nat) (siblings : List Child) : (patterns : List Pattern) →
    (waysAmong index siblings patterns).Pairwise fun left right => BeforeAmong left.1 right.1
  | [] => by
    rw [waysAmong]
    exact List.pairwise_singleton _ _
  | pattern :: rest => by
    rw [waysAmong]
    refine List.pairwise_flatMap.mpr ⟨?_, ?_⟩
    · rintro ⟨⟨sibling, later⟩, place⟩ _
      refine List.pairwise_flatMap.mpr ⟨?_, ?_⟩
      · intro way _
        exact List.pairwise_map.mpr ((before_waysAmong (place + 1) later rest).imp .later)
      · refine (before_ways sibling pattern).imp ?_
        intro left right before one here other there
        rcases List.mem_map.mp here with ⟨_, _, rfl⟩
        rcases List.mem_map.mp there with ⟨_, _, rfl⟩
        exact .here before
    · have order : ((withRest siblings).zipIdx index).Pairwise
          fun left right => left.2 < right.2 := by
        have numbers : (((withRest siblings).zipIdx index).map (·.2)).Pairwise (· < ·) := by
          rw [List.zipIdx_map_snd]
          exact List.pairwise_lt_range'
        exact List.pairwise_map.mp numbers
      refine order.imp ?_
      rintro ⟨⟨sibling, later⟩, place⟩ ⟨⟨other, behind⟩, next⟩ less one here two there
      rcases List.mem_flatMap.mp here with ⟨_, _, first⟩
      rcases List.mem_map.mp first with ⟨_, _, rfl⟩
      rcases List.mem_flatMap.mp there with ⟨_, _, second⟩
      rcases List.mem_map.mp second with ⟨_, _, rfl⟩
      exact .index less

end

end Pattern

/-! ## Patterns for several siblings -/

open Pattern (DerivesAmong ways waysAmong mem_ways mem_waysAmong before_ways before_waysAmong
  map_ways map_waysAmong)
open Derivation (BeforeAmong)

/-- A derivation of how the patterns of a sequence match a node and siblings after it: the first one
matches the node itself. -/
def DerivesSequence (sequence : List Pattern) (shown : Child) (later : List Child)
    (chosen : Choice) (captures : Captures) : Prop :=
  DerivesAmong sequence (shown :: later) 0 chosen captures ∧
    ∃ inner rest, chosen = (0, inner) :: rest

/-- The list holds the captures of all derivations, those of each derivation once, in lexicographic
order. -/
def Enumerates (holds : Choice → Captures → Prop) (found : List Captures) : Prop :=
  ∃ all : List (Choice × Captures), all.map (·.2) = found ∧
    (∀ chosen captures, (chosen, captures) ∈ all ↔ holds chosen captures) ∧
    all.Pairwise fun left right => BeforeAmong left.1 right.1

/-- There is only one such list. -/
theorem Enumerates.unique {holds : Choice → Captures → Prop} {left right : List Captures}
    (first : Enumerates holds left) (second : Enumerates holds right) : left = right := by
  rcases first with ⟨one, rfl, known, order⟩
  rcases second with ⟨other, rfl, again, sorted⟩
  have distinct (all : List (Choice × Captures))
      (order : all.Pairwise fun left right => BeforeAmong left.1 right.1) : all.Nodup := by
    refine List.Pairwise.imp ?_ order
    rintro way _ before rfl
    exact BeforeAmong.asymm _ _ before before
  have perm : one.Perm other := by
    refine (List.perm_ext_iff_of_nodup (distinct one order) (distinct other sorted)).mpr ?_
    rintro ⟨chosen, captures⟩
    rw [known, again]
  have same : one = other := List.Perm.eq_of_pairwise
    (fun _ _ _ _ before after => absurd after (BeforeAmong.asymm _ _ before)) order sorted perm
  rw [same]

/-- The ways in which a sequence matches a node and siblings after it. -/
def solutionsOf (sequence : List Pattern) (shown : Child) (later : List Child) : List Captures :=
  match sequence with
  | [] => []
  | first :: rest =>
    (Pattern.solutions shown.field shown.node first).flatMap fun head =>
      (Pattern.solutionsAmong later rest).map fun tail => head ++ tail

/-- The search finds the captures of all derivations in lexicographic order. -/
theorem enumerates_solutionsOf (sequence : List Pattern) (shown : Child) (later : List Child) :
    Enumerates (DerivesSequence sequence shown later) (solutionsOf sequence shown later) := by
  cases sequence with
  | nil =>
      refine ⟨[], rfl, ?_, .nil⟩
      rintro chosen captures
      constructor
      · intro member
        cases member
      · rintro ⟨derives, inner, rest, rfl⟩
        cases derives
  | cons first rest =>
      refine ⟨(ways shown first).flatMap fun (inner, found) =>
        (waysAmong 1 later rest).map fun (chosen, more) => ((0, inner) :: chosen, found ++ more),
        ?_, ?_, ?_⟩
      · rw [solutionsOf, ← map_ways shown first, ← map_waysAmong 1 later rest, List.map_flatMap,
          List.flatMap_map]
        simp only [List.map_map]
        rfl
      · intro chosen captures
        constructor
        · intro member
          rcases List.mem_flatMap.mp member with ⟨⟨inner, found⟩, here, behind⟩
          rcases List.mem_map.mp behind with ⟨⟨others, more⟩, tail, same⟩
          simp only [Prod.mk.injEq] at same
          rcases same with ⟨rfl, rfl⟩
          refine ⟨.cons (Nat.le_refl 0) rfl ((mem_ways shown first _ _).mp here) ?_,
            inner, others, rfl⟩
          exact (mem_waysAmong (shown :: later) 1 rest _ _).mp tail
        · rintro ⟨derives, inner, others, rfl⟩
          cases derives with
          | @cons _ _ _ _ _ sibling _ _ found more onward at_ here behind =>
              rw [List.getElem?_cons_zero, Option.some.injEq] at at_
              subst at_
              refine List.mem_flatMap.mpr ⟨(inner, found), (mem_ways _ first _ _).mpr here, ?_⟩
              exact List.mem_map.mpr ⟨(others, more),
                (mem_waysAmong (_ :: later) 1 rest _ _).mpr behind, rfl⟩
      · refine List.pairwise_flatMap.mpr ⟨?_, ?_⟩
        · intro way _
          exact List.pairwise_map.mpr ((before_waysAmong 1 later rest).imp .later)
        · refine (before_ways shown first).imp ?_
          intro left right before one here other there
          rcases List.mem_map.mp here with ⟨_, _, rfl⟩
          rcases List.mem_map.mp there with ⟨_, _, rfl⟩
          exact .here before

end Reparse
