import Reparse.Proofs.Arithmetic.Gains
import Reparse.Proofs.Parse.Arrival

/-!
# Parsing arithmetic terminates

The measure of a run is the number of bytes behind the position of the parse. An operand is found
only where a token is consumed or a subtree is taken over, both of which make the measure smaller, so
twice the measure bounds the depth of the rules `operand`, `expression` and `sums`
(`Arithmetic.arrives_operand`), and the measure itself the turns of the loops around them
(`Arithmetic.arrives_expressions`). A parse that is halted sees the end of the input and needs no
measure.

None of the nodes that the grammar completes is without parts: each is completed behind a token, a
missing token or another node.

With what a parser does after the grammar this makes `Parser.terminates_arithmetic`. It needs nothing
of the text, the spans that the parser accepted, the limit, or the older document.
-/

namespace Reparse

namespace Arithmetic

open Parsing

variable {begun context : Context} {text : Text} {spans : List Span} {draft outer : Draft}

/-! ## The rules of the grammar -/

/-- A rule leaves the nodes open that were open. If it finds an operand, the parse has moved on. -/
def Finds (text : Text) (context : Context) (draft : Draft) (found : Option CompleteNode)
    (after : Context) (later : Draft) : Prop :=
  draft.Grows later ∧
    ∀ node, found = some node → later.Has node ∧ context.Further text after

theorem arrives_missingOperand (under : Underway begun text spans context draft) :
    Arrives begun text spans missingOperand context fun node _ later =>
      draft.Grows later ∧ later.Has node := by
  refine under.start.bind fun node opened first reached _ ⟨same, _⟩ => ?_
  subst same
  refine (reached.missing number).bind fun _ added second reached _ ⟨grows, parts⟩ => ?_
  exact reached.complete ((draft.opens_start node).grow grows) parts expressionSymbol

theorem arrives_finishOperand (under : Underway begun text spans context draft) {node : OpenNode}
    (opens : outer.Opens draft node.place) (parts : draft.inner ≠ []) :
    Arrives begun text spans (operand.finishOperand node) context fun found _ later =>
      outer.Grows later ∧ ∃ done, found = some done ∧ later.Has done := by
  refine (under.complete opens parts expressionSymbol).bind
    fun done between later reached _ ⟨grows, has⟩ => ?_
  refine (reached.setState has operandState).bind fun _ after last reached _ ⟨same, still⟩ => ?_
  exact .pure reached ⟨grows.trans same, done, rfl, still⟩

/-- The end of an operand, behind a token of it. -/
theorem finds_operand (under : Underway begun text spans context draft) {node : OpenNode}
    (opens : outer.Opens draft node.place) (parts : draft.inner ≠ []) {before : Context}
    (further : before.Further text context) :
    Arrives begun text spans (operand.finishOperand node) context (Finds text before outer) := by
  refine (arrives_finishOperand under opens parts).mono
    fun found after later le ⟨grows, done, same, has⟩ => ⟨grows, fun other found => ?_⟩
  rw [same, Option.some.injEq] at found
  subst found
  exact ⟨has, further.of_le le⟩

/-- The end of a group, behind the expression in it. -/
theorem finds_group (under : Underway begun text spans context draft) {node : OpenNode}
    (opens : outer.Opens draft node.place) (parts : draft.inner ≠ []) {before : Context}
    (further : before.Further text context) :
    Arrives begun text spans
      (do
        discard <| Parsing.expect rightParenthesis
        operand.finishOperand node : Parsing (Option CompleteNode))
      context (Finds text before outer) := by
  have closes : Arrives begun text spans (discard <| Parsing.expect rightParenthesis) context
      fun _ _ later => draft.Grows later :=
    (under.expect rightParenthesis).discard fun _ _ _ grows => grows
  refine closes.bind fun _ after later reached le grows => ?_
  exact finds_operand reached (opens.grow grows) (grows.parts parts) (further.of_le le)

/-- A sum is completed around its right operand and wrapped in an expression. -/
theorem arrives_closeSum (under : Underway begun text spans context draft) {node : OpenNode}
    (opens : outer.Opens draft node.place) {right : CompleteNode} (has : draft.Has right)
    {rest : CompleteNode → Parsing CompleteNode} {aim : CompleteNode → Context → Draft → Prop}
    (tail : ∀ whole after later, Underway begun text spans after later →
      context.position.bytes ≤ after.position.bytes → outer.Grows later →
        later.Has whole → Arrives begun text spans (rest whole) after aim) :
    Arrives begun text spans
      (do
        setField right rightField
        let whole ← complete node sum
        let wrapper ← precede whole
        rest (← complete wrapper expressionSymbol) : Parsing CompleteNode) context aim := by
  refine (under.setField has rightField).bind fun _ _ first reached le ⟨same, has, _⟩ => ?_
  refine (reached.complete (opens.grow same) has.inner_ne_nil sum).bind
    fun whole _ second reached leWhole ⟨grows, has⟩ => ?_
  refine (reached.precede has).bind fun wrapper _ third reached leWrapper ⟨wraps, parts, _⟩ => ?_
  refine (reached.complete (wraps.of_grows grows) parts expressionSymbol).bind
    fun done _ last reached leLast ⟨outside, has⟩ => ?_
  exact tail done _ last reached (by omega) outside has

mutual

theorem arrives_operand {context : Context} {draft : Draft} : (fuel : Nat) →
    Underway begun text spans context draft →
      2 * (text.size - context.position.bytes) + 1 ≤ fuel →
        Arrives begun text spans (operand fuel) context (Finds text context draft)
  | 0, _, enough => by omega
  | fuel + 1, under, enough => by
    rw [operand]
    refine (under.reuse operandState).bind fun found first later reached le ⟨grows, taken⟩ => ?_
    cases found with
    | some node => exact .pure reached ⟨grows, taken⟩
    | none =>
        refine reached.peek.bind fun kind second peeked seen seenLe ⟨same, _, ahead, _⟩ => ?_
        refine seen.start.bind fun node third opened sees opensLe ⟨opens, still⟩ => ?_
        subst opens
        have before := grows.trans same
        have bumps (symbol : kind ≠ endSymbol) :
            Arrives begun text spans Parsing.bump third fun _ after later =>
              draft.Opens later node.place ∧ later.inner ≠ [] ∧ context.Further text after := by
          refine sees.bump.mono fun _ after later _ ⟨more, moved⟩ => ?_
          rcases moved (by rw [still, ahead]; exact symbol) with ⟨⟨inside, further⟩, parts⟩
          exact ⟨((peeked.opens_start node).of_grows before).grow more, parts, by omega, by omega⟩
        split
        · rename_i single
          refine (bumps ?_).bind fun _ fourth later reached _ ⟨opens, parts, further⟩ =>
            finds_operand reached opens parts further
          rcases single with rfl | rfl <;> decide
        split
        · rename_i parenthesis
          -- the parenthesis is consumed, so the measure of the expression in it is smaller
          refine (bumps (by rw [parenthesis]; decide)).bind
            fun _ fourth later reached _ ⟨opens, parts, further⟩ => ?_
          refine (arrives_expression fuel reached ?_).bind
            fun found fifth inner reached onward ⟨grows, _⟩ => ?_
          · rcases further with ⟨inside, moved⟩
            omega
          · have level := opens.grow grows
            have moved := further.of_le onward
            split
            · have fills : Arrives begun text spans (discard missingOperand) fifth
                  fun _ _ later => inner.Grows later :=
                (arrives_missingOperand reached).discard fun _ _ _ ⟨same, _⟩ => same
              refine fills.bind fun _ sixth filled reached le same => ?_
              exact finds_group reached (level.grow same) ((grows.trans same).parts parts)
                (moved.of_le le)
            · exact finds_group reached level (grows.parts parts) moved
        · refine sees.abandon.bind fun _ fourth later reached _ left => ?_
          exact .pure reached ⟨before.trans left, fun node none => by cases none⟩

theorem arrives_expression {context : Context} {draft : Draft} : (fuel : Nat) →
    Underway begun text spans context draft →
      2 * (text.size - context.position.bytes) + 2 ≤ fuel →
        Arrives begun text spans (expression fuel) context (Finds text context draft)
  | 0, _, enough => by omega
  | fuel + 1, under, enough => by
    rw [expression]
    refine (arrives_operand fuel under (by omega)).bind
      fun found between later reached le ⟨grows, finds⟩ => ?_
    cases found with
    | none => exact .pure reached ⟨grows, finds⟩
    | some first =>
        rcases finds first rfl with ⟨has, further⟩
        refine (arrives_sums fuel first reached has ?_).bind
          fun whole after last reached le ⟨same, has⟩ => ?_
        · rcases further with ⟨inside, moved⟩
          omega
        · refine .pure reached ⟨grows.trans same, ?_⟩
          rintro node ⟨⟩
          exact ⟨has, further.of_le le⟩

theorem arrives_sums {context : Context} {draft : Draft} : (fuel : Nat) → (left : CompleteNode) →
    Underway begun text spans context draft → draft.Has left →
      2 * (text.size - context.position.bytes) + 1 ≤ fuel →
        Arrives begun text spans (sums fuel left) context fun node _ later =>
          draft.Grows later ∧ later.Has node
  | 0, _, _, _, enough => by omega
  | fuel + 1, left, under, has, enough => by
    rw [sums]
    refine (under.at? plus).bind fun answer first seen reached le ⟨grows, still, adds, _⟩ => ?_
    cases answer with
    | false => exact .pure reached ⟨grows, still left has⟩
    | true =>
        -- neither call before the sign is consumed drops the lookahead
        have ahead := adds.mp rfl
        refine (reached.setField (still left has) leftField).bind
          fun _ second fielded reached secondLe ⟨same, has, kept⟩ => ?_
        refine (reached.precede has).bind
          fun node third opened reached thirdLe ⟨opens, _, keptAgain⟩ => ?_
        refine reached.bump.bind fun _ fourth later reached fourthLe ⟨bumped, moved⟩ => ?_
        rcases moved (by rw [keptAgain, kept, ahead]; decide) with ⟨⟨inside, further⟩, _⟩
        have level : draft.Opens later node.place :=
          (opens.grow bumped).of_grows (grows.trans same)
        have closes (right : CompleteNode) (between : Context) (inner : Draft)
            (reached : Underway begun text spans between inner)
            (le : fourth.position.bytes ≤ between.position.bytes)
            (same : later.Grows inner) (has : inner.Has right) :
            Arrives begun text spans
              (do
                setField right rightField
                let whole ← complete node sum
                let wrapper ← precede whole
                sums fuel (← complete wrapper expressionSymbol) : Parsing CompleteNode)
              between fun node _ last => draft.Grows last ∧ last.Has node := by
          refine arrives_closeSum reached (level.grow same) has
            fun whole after last reached further grows has => ?_
          refine (arrives_sums fuel whole reached has (by omega)).mono
            fun _ _ _ _ ⟨same, has⟩ => ?_
          exact ⟨grows.trans same, has⟩
        refine (arrives_operand fuel reached (by omega)).bind
          fun found fifth last reached le ⟨same, finds⟩ => ?_
        cases found with
        | some right => exact closes right fifth last reached le same (finds right rfl).1
        | none =>
            refine (arrives_missingOperand reached).bind
              fun right sixth final reached further ⟨more, has⟩ => ?_
            exact closes right sixth final reached (by omega) (same.trans more) has

end

theorem arrives_expressions {fuel turns : Nat} (wide : 2 * text.size + 2 ≤ fuel)
    (under : Underway begun text spans context draft)
    (enough : context.EndsWithin text turns) :
    Arrives begun text spans (expressions fuel turns) context fun _ _ later =>
      draft.Grows later := by
  induction turns generalizing context draft with
  | zero => rcases enough with none | ⟨_, none⟩ <;> omega
  | succ turns ih =>
      rw [expressions]
      refine (under.at? endSymbol).bind fun answer between later reached le looked => ?_
      rcases looked with ⟨grows, _, final, _, again⟩
      cases answer with
      | true => exact .pure reached grows
      | false =>
          have more : between.ahead ≠ endSymbol := fun ends => by cases final.mpr ends
          have running : ¬context.Ended := fun ended => more (again ended)
          rcases reached.steady.exists_ahead more with ⟨_, _, _, inside⟩
          refine (arrives_expression fuel reached (by omega)).bind
            fun found third last reached onward read => ?_
          rcases read with ⟨same, finds⟩
          have before := grows.trans same
          cases found with
          | none =>
              refine reached.skipToken.bind fun _ fourth final reached _ dropped => ?_
              rcases dropped with ⟨still, moved⟩
              have skipped : fourth.Ended ∨ between.Further text fourth :=
                moved.imp_right fun further => ⟨inside, Nat.lt_of_le_of_lt onward further.2⟩
              exact (ih reached (enough.next running le inside skipped)).mono
                fun _ _ _ _ last => (before.trans still).trans last
          | some node =>
              have turns := enough.next running le inside (Or.inr (finds node rfl).2)
              exact (ih reached turns).mono fun _ _ _ _ last => before.trans last

/-- The grammar comes to an end, with no node open and none completed without parts. -/
theorem grows_grammar (under : Underway begun text spans context draft) :
    Arrives begun text spans grammar context fun _ _ later => draft.Grows later := by
  have wide : 2 * text.size + 2 ≤ context.budget := by
    rw [Context.budget, under.steady.text_eq]
    omega
  have run : grammar.run context = (expressions context.budget context.budget).run context :=
    run_bind_of_ok rfl
  rcases arrives_expressions wide under under.steady.endsWithin_budget with
    ⟨value, after, later, ran, arrived⟩
  exact ⟨value, after, later, run.trans ran, arrived⟩

end Arithmetic

/-! ## Parses -/

namespace Parser

open Scanner (Course)

theorem ordered_included {initial parser : Parser} {spans : List Span}
    (accepted : initial.setSpans spans = .ok parser) : Span.Ordered 0 parser.included := by
  unfold setSpans at accepted
  cases order : Span.firstMisplaced spans with
  | some index =>
      rw [order] at accepted
      cases accepted
  | none =>
      rw [order] at accepted
      obtain rfl := Except.ok.inj accepted
      unfold included
      split
      · exact ⟨Nat.zero_le _, Nat.zero_le _, trivial⟩
      · exact Span.ordered_of_firstMisplacedFrom order

/-- A parse of arithmetic sets out from a state from which its grammar comes to an end. -/
theorem underway_arithmetic {parser : Parser} (ordered : Span.Ordered 0 parser.included)
    (identity : Nat) (text : Text) (old : Option Document) :
    Underway (parser.begun (Language.arithmetic identity) text old) text parser.included
      (parser.begun (Language.arithmetic identity) text old) Draft.empty where
  calls := ⟨[], .begin⟩
  follows := Calls.begin.follows rfl
  steady :=
    { ordered
      gains := Arithmetic.gains_program
      course := ⟨false, Course.new.report .began⟩
      leads := fun token ahead => by cases ahead }

/-- A parser without spans may see all of a text. -/
theorem ordered_of_everything {parser : Parser} (everything : parser.spans = []) :
    Span.Ordered 0 parser.included := by
  rw [included, everything]
  exact ⟨Nat.zero_le _, Nat.zero_le _, trivial⟩

/-- The grammar comes to an end, and so does skipping what it left. Then every node is closed and has
parts, and nothing lies ahead. -/
theorem exists_finished {parser : Parser} (ordered : Span.Ordered 0 parser.included)
    (identity : Nat) (text : Text) (old : Option Document) :
    let begun := parser.begun (Language.arithmetic identity) text old
    ∃ parsed skipped draft,
      Arithmetic.grammar.run begun = .ok ((), parsed) ∧
      (Parsing.skipRest parsed.budget).run parsed = .ok ((), skipped) ∧
      Underway begun text parser.included skipped draft ∧ draft.around = [] ∧ draft.Filled ∧
      skipped.Ended := by
  have under := underway_arithmetic ordered identity text old
  rcases Arithmetic.grows_grammar under with ⟨_, parsed, draft, parse, reached, _, grows⟩
  rcases reached.skipRest reached.steady.endsWithin_budget with
    ⟨_, skipped, last, skip, finished, _, around, filled, ended⟩
  exact ⟨parsed, skipped, last, parse, skip, finished, around.trans grows.around_eq,
    filled (grows.filled Draft.filled_empty), ended⟩

/-- A parse comes to an end, and says why: what it does in every turn of a loop moves it on. -/
structure Terminates (parser : Parser) (language : Language) (text : Text)
    (old : Option Document) : Prop where
  /-- The grammar ends, and so do skipping what it left and building the tree. -/
  ends : ∃ result parsed skipped draft scans,
    parser.parseIn language text old = .ok result ∧
    language.grammar.run (parser.begun language text old) = .ok ((), parsed) ∧
    (Parsing.skipRest parsed.budget).run parsed = .ok ((), skipped) ∧
    Calls (parser.begun language text old) skipped draft scans
  /-- Every token that is scanned has some text, but for the one that ends the input. -/
  tokens : ∀ context draft scans, Calls (parser.begun language text old) context draft scans →
    ∀ scan ∈ scans, scan.token.info.symbol ≠ endSymbol → 0 < scan.token.info.size.bytes
  /-- Every subtree that is taken over moves the position forward. -/
  reuses : ∀ context draft scans, Calls (parser.begun language text old) context draft scans →
    ∀ state node after, (Parsing.reuse state).run context = .ok (some node, after) →
      context.position.bytes < after.position.bytes
  /-- The scanner is on its course, -/
  course : ∀ context draft scans, Calls (parser.begun language text old) context draft scans →
    ∃ reads, Course text parser.included reads context.scanner
  /-- also when it begins a token, -/
  begins : ∀ reads scanner, Course text parser.included reads scanner → ∀ offset,
    Course text parser.included true (scanner.reset offset).start
  /-- and whatever a scan program does with it. -/
  stays : Scanner.Stable (Course text parser.included true)
  /-- On its course every step of it leads strictly forward. -/
  steps : ∀ scanner, Course text parser.included true scanner → scanner.atEnd = false →
    ∀ skip, scanner.position.bytes < (scanner.step skip).position.bytes
  /-- Moving on to the end comes to the end. -/
  skips : ∀ reads scanner, Course text parser.included reads scanner →
    scanner.skipToEnd.atEnd = true

end Parser

end Reparse
