import Reparse.Proofs.Query.Derivation
import Reparse.Query.Basic

/-!
# Well-formed queries

In a well-formed query all patterns and alternations describe something, patterns ask for symbols
and fields of the language only, and patterns, tests and predicates refer to captures that there are
(`Query.WellFormed`). What refers to few captures stays well formed with more
(`Pattern.WellFormed.mono`).

However well-formed patterns match, they capture with numbers of their own
(`numbers_lt_solutionsOf`).
-/

namespace Reparse

namespace Vocabulary

/-- The number of a symbol that patterns can ask for: a visible one, or that of errors. -/
def Shows (vocabulary : Vocabulary) (symbol : Nat) : Prop :=
  symbol = errorSymbol ∨
    symbol < vocabulary.symbolCount ∧ (vocabulary.kind symbol).visible = true

/-- The number of a field of the language. -/
def HasField (vocabulary : Vocabulary) (field : Nat) : Prop :=
  (vocabulary.fieldName? field).isSome = true

variable {vocabulary : Vocabulary} {name : String} {named : Bool}

theorem findSymbol_spec (names : List String) (index : Nat)
    (found : vocabulary.findSymbol name named index names ≠ 0) :
    vocabulary.findSymbol name named index names < index + names.length ∧
      (vocabulary.kind (vocabulary.findSymbol name named index names)).visible = true := by
  induction names generalizing index with
  | nil => exact absurd rfl found
  | cons candidate rest ih =>
    rw [findSymbol] at found ⊢
    split at found
    · next passes =>
      rw [if_pos passes]
      simp only [Bool.and_eq_true] at passes
      exact ⟨by simp, passes.1.1⟩
    · next fails =>
      rw [if_neg fails]
      have later := ih (index + 1) found
      rw [Nat.add_right_comm] at later
      exact later

theorem shows_symbolNamed (found : vocabulary.symbolNamed name named ≠ 0) :
    vocabulary.Shows (vocabulary.symbolNamed name named) := by
  unfold symbolNamed at found ⊢
  split at found
  · next error => exact Or.inl (if_pos error)
  · next other =>
    rw [if_neg other]
    have place := findSymbol_spec _ 0 found
    rw [Nat.zero_add, Array.length_toList] at place
    exact Or.inr place

theorem hasField_fieldNamed (found : vocabulary.fieldNamed name ≠ 0) :
    vocabulary.HasField (vocabulary.fieldNamed name) := by
  unfold fieldNamed at found ⊢
  split at found
  · next index place =>
    have within := (List.findIdx?_eq_some_iff_findIdx_eq.mp place).1
    rw [List.length_drop, Array.length_toList] at within
    have inside : index + 1 < vocabulary.fields.size := by omega
    simp [HasField, fieldName?, inside]
  · exact absurd rfl found

end Vocabulary

/-- The symbol that is asked for, if any is, can be asked for. -/
def Matcher.FitsIn (vocabulary : Vocabulary) : Matcher → Prop
  | any | anyNamed | missing none => True
  | symbol wanted | missing (some wanted) => vocabulary.Shows wanted

/-- The pattern asks for symbols and fields of the language, its alternations offer something, and
its captures have numbers below `count`. -/
inductive Pattern.WellFormed (vocabulary : Vocabulary) (count : Nat) : Pattern → Prop where
  | node {matcher : Matcher} {children : List Pattern} {absent : List Nat} {field : Nat}
      {captures : List Nat} (accepted : matcher.FitsIn vocabulary)
      (lacking : ∀ field ∈ absent, vocabulary.HasField field)
      (placed : field = 0 ∨ vocabulary.HasField field)
      (captured : ∀ number ∈ captures, number < count)
      (below : ∀ child ∈ children, child.WellFormed vocabulary count) :
      WellFormed vocabulary count (.node matcher children absent field captures)
  | oneOf {alternatives : List Pattern} {field : Nat} {captures : List Nat}
      (offered : alternatives ≠ []) (placed : field = 0 ∨ vocabulary.HasField field)
      (captured : ∀ number ∈ captures, number < count)
      (inside : ∀ alternative ∈ alternatives, alternative.WellFormed vocabulary count) :
      WellFormed vocabulary count (.oneOf alternatives field captures)

/-- The captures whose texts a test looks at. -/
def TextTest.captures : TextTest → List Nat
  | equalsString capture _ _ _ | matchesRegex capture _ _ _ | isOneOf capture _ _ => [capture]
  | equalsCapture left right _ _ => [left, right]

def Argument.captures : Argument → List Nat
  | capture index => [index]
  | string _ => []

/-- The captures among the arguments of a predicate. -/
def Predicate.captures (predicate : Predicate) : List Nat :=
  predicate.arguments.flatMap Argument.captures

/-- The pattern describes something, and refers to captures with numbers below `count` only. -/
structure QueryPattern.WellFormed (vocabulary : Vocabulary) (count : Nat)
    (pattern : QueryPattern) : Prop where
  described : pattern.sequence ≠ []
  patterns : ∀ element ∈ pattern.sequence, element.WellFormed vocabulary count
  tests : ∀ test ∈ pattern.tests, ∀ number ∈ test.captures, number < count
  predicates : ∀ predicate ∈ pattern.predicates, ∀ number ∈ predicate.captures, number < count

/-- The captures have different names, none of them empty, and the patterns are well formed. -/
structure Query.WellFormed (query : Query) : Prop where
  distinct : query.captureNames.Nodup
  named : "" ∉ query.captureNames
  patterns : ∀ pattern ∈ query.patterns,
    pattern.WellFormed query.language.vocabulary query.captureNames.length

section Growth

variable {vocabulary : Vocabulary} {count more : Nat}

theorem Pattern.WellFormed.mono (le : count ≤ more) {pattern : Pattern}
    (formed : pattern.WellFormed vocabulary count) : pattern.WellFormed vocabulary more := by
  induction formed with
  | node accepted lacking placed captured _ ih =>
    exact .node accepted lacking placed
      (fun number member => Nat.lt_of_lt_of_le (captured number member) le) ih
  | oneOf offered placed captured _ ih =>
    exact .oneOf offered placed
      (fun number member => Nat.lt_of_lt_of_le (captured number member) le) ih

theorem Pattern.WellFormed.capturing {numbers : List Nat} {pattern : Pattern}
    (formed : pattern.WellFormed vocabulary count) (captured : ∀ number ∈ numbers, number < count) :
    (pattern.capturing numbers).WellFormed vocabulary count := by
  cases formed with
  | node accepted lacking placed before below =>
    exact .node accepted lacking placed (List.forall_mem_append.mpr ⟨before, captured⟩) below
  | oneOf offered placed before inside =>
    exact .oneOf offered placed (List.forall_mem_append.mpr ⟨before, captured⟩) inside

theorem Pattern.WellFormed.inField {field : Nat} {pattern : Pattern}
    (formed : pattern.WellFormed vocabulary count) (placed : vocabulary.HasField field) :
    (pattern.inField field).WellFormed vocabulary count := by
  cases formed with
  | node accepted lacking _ captured below =>
    exact .node accepted lacking (Or.inr placed) captured below
  | oneOf offered _ captured inside => exact .oneOf offered (Or.inr placed) captured inside

theorem QueryPattern.WellFormed.mono (le : count ≤ more) {pattern : QueryPattern}
    (formed : pattern.WellFormed vocabulary count) : pattern.WellFormed vocabulary more where
  described := formed.described
  patterns element member := (formed.patterns element member).mono le
  tests test member number asked :=
    Nat.lt_of_lt_of_le (formed.tests test member number asked) le
  predicates predicate member number asked :=
    Nat.lt_of_lt_of_le (formed.predicates predicate member number asked) le

end Growth

/-! ## Captures of solutions -/

namespace Pattern

variable {vocabulary : Vocabulary} {count : Nat}

theorem numbers_lt_map {captures : List Nat} (captured : ∀ number ∈ captures, number < count)
    (node : Node) :
    ∀ capture ∈ captures.map fun number => (number, node), capture.1 < count := by
  intro capture member
  rcases List.mem_map.mp member with ⟨number, among, rfl⟩
  exact captured number among

mutual

/-- A well-formed pattern captures with its own numbers only. -/
theorem Derives.numbers_lt {pattern : Pattern} {shown : Child} {derivation : Derivation}
    {captures : Captures} (formed : pattern.WellFormed vocabulary count) :
    Derives pattern shown derivation captures → ∀ capture ∈ captures, capture.1 < count
  | .node _ _ _ among => by
    cases formed with
    | node _ _ _ captured below =>
      exact List.forall_mem_append.mpr
        ⟨numbers_lt_map captured shown.node, among.numbers_lt below⟩
  | .oneOf _ taken inside => by
    cases formed with
    | oneOf _ _ captured offered =>
      exact List.forall_mem_append.mpr ⟨numbers_lt_map captured shown.node,
        inside.numbers_lt (offered _ (List.mem_of_getElem? taken))⟩

theorem DerivesAmong.numbers_lt {patterns : List Pattern} {siblings : List Child} {least : Nat}
    {chosen : Choice} {captures : Captures}
    (formed : ∀ pattern ∈ patterns, pattern.WellFormed vocabulary count) :
    DerivesAmong patterns siblings least chosen captures → ∀ capture ∈ captures, capture.1 < count
  | .nil => List.forall_mem_nil _
  | .cons _ _ here behind => by
    rcases List.forall_mem_cons.mp formed with ⟨first, rest⟩
    exact List.forall_mem_append.mpr ⟨here.numbers_lt first, behind.numbers_lt rest⟩

end

end Pattern

/-- All ways in which well-formed patterns match siblings in a row capture with their numbers. -/
theorem numbers_lt_solutionsOf {vocabulary : Vocabulary} {count : Nat} {sequence : List Pattern}
    (formed : ∀ pattern ∈ sequence, pattern.WellFormed vocabulary count) (shown : Child)
    (later : List Child) :
    ∀ solution ∈ solutionsOf sequence shown later, ∀ capture ∈ solution, capture.1 < count := by
  intro solution member
  rcases enumerates_solutionsOf sequence shown later with ⟨all, same, known, -⟩
  rw [← same] at member
  rcases List.mem_map.mp member with ⟨⟨chosen, captures⟩, listed, rfl⟩
  exact ((known chosen captures).mp listed).1.numbers_lt formed

end Reparse
