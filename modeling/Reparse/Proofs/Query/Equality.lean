import Mathlib.Data.List.Zip
import Reparse.Grammar.Arithmetic
import Reparse.Parser
import Reparse.Query.Compile
import Reparse.Query.Run

/-!
# Captures of equal texts

The predicate `#eq?` between two captures asks that their texts are equal, and a capture may stand
for any number of nodes. The test pairs the texts off and compares each pair, so it passes exactly
if they agree as far as both captures have texts: the texts of one capture may go on where those of
the other have ended (`TextTest.isMet_equal_iff`). What is left over is never looked at. A match is
thus accepted although its captures have different texts if they have different numbers of nodes
(`Query.accepts_unequal`), and only then (`Query.accepts_equal_iff`). It does not matter which of the
two captures is named first.
-/

namespace Reparse

/-- The test of a predicate `#eq?` with two captures. -/
def TextTest.equal (left right : Nat) : TextTest := .equalsCapture left right true true

/-- Whether a test is that of a predicate `#eq?` with these captures. -/
def TextTest.isEqual (left right : Nat) : TextTest → Bool
  | .equalsCapture one other positive all => one == left && other == right && positive && all
  | _ => false

namespace QueryText

/-- A predicate `#eq?` with two captures adds this test to its pattern. -/
theorem addPredicate_equal (left right start here there : Nat) :
    addPredicate "eq?" [(.capture left, here), (.capture right, there)] start =
      noteTest (.equal left right) := rfl

end QueryText

theorem anyOrAll_map {α β : Type} (all : Bool) (passes : β → Bool) (image : α → β)
    (members : List α) :
    anyOrAll all passes (members.map image) = anyOrAll all (passes ∘ image) members := by
  simp [anyOrAll, List.all_map, List.any_map]

namespace TextTest

/-! ## Pairing off -/

/-- Two lists agree in pairs if one of them begins with the other. -/
theorem all_zip_iff_prefix (left right : List Text) :
    ((left.zip right).all fun (left, right) => (left == right) == true) = true ↔
      left <+: right ∨ right <+: left := by
  induction left generalizing right with
  | nil => simp
  | cons first rest ih =>
      cases right with
      | nil => simp
      | cons other others =>
          rw [List.zip_cons_cons, List.all_cons, Bool.and_eq_true, ih, List.cons_prefix_cons,
            List.cons_prefix_cons]
          simp only [beq_true, beq_iff_eq]
          rw [@eq_comm _ other first, and_or_left]

variable {texts : Nat → List Text} {left right : Nat}

theorem eq_equal {test : TextTest} (same : test.isEqual left right = true) :
    test = equal left right := by
  cases test with
  | equalsCapture one other positive all =>
      simp only [isEqual, Bool.and_eq_true, beq_iff_eq] at same
      rcases same with ⟨⟨⟨rfl, rfl⟩, rfl⟩, rfl⟩
      rfl
  | _ => cases same

/-- The test looks at as many texts as both captures have. -/
theorem isMet_equal_iff :
    (equal left right).isMet texts = true ↔
      texts left <+: texts right ∨ texts right <+: texts left :=
  all_zip_iff_prefix (texts left) (texts right)

/-- A comparison of two captures does not depend on their order, whether it asks for equal or for
different texts, of all pairs or of any. -/
theorem isMet_equalsCapture_comm (positive all : Bool) :
    (equalsCapture left right positive all).isMet texts =
      (equalsCapture right left positive all).isMet texts := by
  rw [isMet, isMet, ← List.zip_swap (texts left) (texts right), anyOrAll_map]
  congr 1
  funext (left, right)
  exact congrArg (· == positive) BEq.comm

end TextTest

/-- The captured byte ranges of a match. -/
def RawMatch.ranges (found : RawMatch) : List (Nat × Nat × Nat) :=
  found.captures.map fun (number, node) => (number, node.start.bytes, node.stop.bytes)

namespace Query

/-- The texts of the nodes captured with a number, in the order of the match. -/
def textsOf (captures : List (Nat × Nat × Nat)) (source : Text) (number : Nat) : List Text :=
  (captures.filter fun capture => capture.1 == number).map fun (_, start, stop) =>
    sliceOf source start stop

variable {query : Query} {pattern : QueryPattern} {index : Nat}

/-- A match is accepted if it meets all tests of its pattern. -/
theorem isSatisfied_of_pattern (found : query.patterns[index]? = some pattern)
    (captures : List (Nat × Nat × Nat)) (source : Text) :
    query.isSatisfied index captures source =
      pattern.tests.all fun test => test.isMet (textsOf captures source) := by
  rw [isSatisfied, found]
  rfl

/-- A match of a pattern with the predicate `#eq?` is accepted exactly if the texts of one capture
begin with those of the other and the other tests are met. So the texts are equal if both captures
have as many nodes. A pattern that names the two captures in the other order accepts the same
matches. -/
theorem accepts_equal_iff {before after : List TextTest} {left right : Nat}
    (found : query.patterns[index]? = some pattern)
    (tests : pattern.tests = before ++ .equal left right :: after)
    (captures : List (Nat × Nat × Nat)) (source : Text) :
    (query.isSatisfied index captures source = true ↔
      (textsOf captures source left <+: textsOf captures source right ∨
          textsOf captures source right <+: textsOf captures source left) ∧
        ∀ test ∈ before ++ after, test.isMet (textsOf captures source) = true) ∧
    (query.isSatisfied index captures source = true →
      (textsOf captures source left).length = (textsOf captures source right).length →
        textsOf captures source left = textsOf captures source right) ∧
    ∀ (turned : Query) (place : Nat) (other : QueryPattern),
      turned.patterns[place]? = some other → other.tests = before ++ .equal right left :: after →
        turned.isSatisfied place captures source = query.isSatisfied index captures source := by
  have accepts : query.isSatisfied index captures source = true ↔
      (textsOf captures source left <+: textsOf captures source right ∨
          textsOf captures source right <+: textsOf captures source left) ∧
        ∀ test ∈ before ++ after, test.isMet (textsOf captures source) = true := by
    rw [isSatisfied_of_pattern found, tests, List.all_append, List.all_cons, Bool.and_left_comm,
      Bool.and_eq_true, TextTest.isMet_equal_iff, ← List.all_append, List.all_eq_true]
  refine ⟨accepts, fun accepted count => ?_, fun turned place other there exchanged => ?_⟩
  · rcases (accepts.mp accepted).1 with begins | begins
    · exact begins.eq_of_length count
    · exact (begins.eq_of_length count.symm).symm
  · rw [isSatisfied_of_pattern there, isSatisfied_of_pattern found, tests, exchanged,
      List.all_append, List.all_append, List.all_cons, List.all_cons, TextTest.equal,
      TextTest.isMet_equalsCapture_comm]
    rfl

/-- In `1+2` the first number is captured by `@a` and both numbers are captured by `@b`; another
predicate looks at `@a` too. -/
theorem accepts_equal_iff_word :
    ∃ query pattern after,
      compile (Language.arithmetic 0)
        "((sum left: * @a @b right: * @b) (#eq? @a @b) (#any-of? @a \"1\"))" = .ok query ∧
      query.patterns[0]? = some pattern ∧ pattern.tests = [] ++ .equal 0 1 :: after ∧
      let captures := [(0, 0, 1), (1, 0, 1), (1, 2, 3)]
      let source : Text := #[49, 43, 50]
      (query.isSatisfied 0 captures source = true ↔
        (textsOf captures source 0 <+: textsOf captures source 1 ∨
            textsOf captures source 1 <+: textsOf captures source 0) ∧
          ∀ test ∈ [] ++ after, test.isMet (textsOf captures source) = true) ∧
      (query.isSatisfied 0 captures source = true →
        (textsOf captures source 0).length = (textsOf captures source 1).length →
          textsOf captures source 0 = textsOf captures source 1) ∧
      ∀ (turned : Query) (place : Nat) (other : QueryPattern),
        turned.patterns[place]? = some other → other.tests = [] ++ .equal 1 0 :: after →
          turned.isSatisfied place captures source = query.isSatisfied 0 captures source := by
  have facts : (compile (Language.arithmetic 0)
      "((sum left: * @a @b right: * @b) (#eq? @a @b) (#any-of? @a \"1\"))").toOption.any
      (fun query => query.patterns[0]?.any fun pattern =>
        pattern.tests.head?.any (TextTest.isEqual 0 1)) = true := by decide +kernel
  cases compiled : compile (Language.arithmetic 0)
      "((sum left: * @a @b right: * @b) (#eq? @a @b) (#any-of? @a \"1\"))" with
  | error mistake =>
      rw [compiled] at facts
      cases facts
  | ok query =>
      simp only [compiled, Except.toOption, Option.any_some, Option.any_eq_true,
        List.head?_eq_some_iff] at facts
      rcases facts with ⟨pattern, found, test, ⟨after, tests⟩, first⟩
      rw [TextTest.eq_equal first] at tests
      exact ⟨query, pattern, after, rfl, found, tests, accepts_equal_iff found tests _ _⟩

/-- In `1+2` the first number is captured by `@a` and both numbers are captured by `@b`. The match is
accepted. -/
theorem accepts_unequal :
    let source : Text := #[49, 43, 50]
    ∃ parsed query pattern found,
      Parser.new.parseIn (Language.arithmetic 0) source none = .ok parsed ∧
      compile (Language.arithmetic 0) "((sum left: * @a @b right: * @b) (#eq? @a @b))" = .ok query ∧
      (QueryRun.new query parsed.document.root parsed.document.root).nextMatch.1 = some found ∧
      query.patterns[found.pattern]? = some pattern ∧ pattern.tests = [.equal 0 1] ∧
      query.isSatisfied found.pattern found.ranges source = true ∧
      textsOf found.ranges source 0 = [#[49]] ∧ textsOf found.ranges source 1 = [#[49], #[50]] := by
  intro source
  have facts : (Parser.new.parseIn (Language.arithmetic 0) source none).toOption.any (fun parsed =>
      (compile (Language.arithmetic 0) "((sum left: * @a @b right: * @b) (#eq? @a @b))").toOption.any
      fun query =>
        (QueryRun.new query parsed.document.root parsed.document.root).nextMatch.1.any fun found =>
          (query.patterns[found.pattern]?.any fun pattern =>
            pattern.tests.length == 1 && pattern.tests.all (TextTest.isEqual 0 1)) &&
          query.isSatisfied found.pattern found.ranges source &&
          textsOf found.ranges source 0 == [#[49]] &&
          textsOf found.ranges source 1 == [#[49], #[50]]) = true := by decide +kernel
  cases run : Parser.new.parseIn (Language.arithmetic 0) source none with
  | error fault =>
      rw [run] at facts
      cases facts
  | ok parsed =>
      cases compiled : compile (Language.arithmetic 0)
          "((sum left: * @a @b right: * @b) (#eq? @a @b))" with
      | error mistake =>
          rw [run, compiled] at facts
          cases facts
      | ok query =>
          simp only [run, compiled, Except.toOption, Option.any_some, Option.any_eq_true,
            Bool.and_eq_true, beq_iff_eq, List.length_eq_one_iff] at facts
          rcases facts with
            ⟨found, returned, ⟨⟨⟨pattern, here, ⟨test, tests⟩, single⟩, accepted⟩, first⟩, second⟩
          rw [tests, List.all_cons, List.all_nil, Bool.and_true] at single
          rw [TextTest.eq_equal single] at tests
          exact ⟨parsed, query, pattern, found, rfl, rfl, returned, here, tests, accepted, first,
            second⟩

end Query

end Reparse
