import Reparse.Proofs.Arithmetic.Operations

/-!
# The grammar derives the trees of the text

A run of the arithmetic grammar on a whole text comes to an end, and what it records yields the
trees of the derivation (`Arithmetic.run_expressions`). A subtree that is taken over is recorded in
place of the events of an operand; both are stems of an operand, and nothing that follows tells
them apart.
-/

namespace Reparse

namespace Arithmetic

open Parsing
open Event (Stem Yields blank built wrapped)

variable {text : Text} {older ahead : Option Tree} {offset : Nat} {record : List Event}
  {context : Context}

theorem Stands.next {token : Tree}
    (stands : Stands text older offset (some token) record context) :
    Ahead text offset token.info.symbol := by
  rcases stands.solid token rfl with ⟨solid, stop, scanned⟩
  exact ⟨token, stop, scanned, rfl, solid⟩

theorem Extras.yields {stop : Nat} {comments : List (Edge Tree)}
    (extras : Extras text offset comments stop) :
    Yields vocabulary (leaves comments) comments := by
  induction extras with
  | done => exact Event.yields_nil
  | more _ _ _ ih => exact (Event.yields_added _ 0).append ih

/-! ## Small programs -/

/-- The events of an expression that is only a missing number. -/
def missingTop : Event := .opening (some expressionSymbol) none 0 noState

def missingBack : List Event :=
  [.added (Tree.missing number (vocabulary.kind number)) none 0, .closing]

theorem stem_missing : Stem vocabulary [] missingTop missingBack missingTree :=
  Event.stem_opening expressionSymbol noState (Event.yields_added _ 0)

theorem isTop_opening (symbol : Option Nat) (state : Nat) :
    IsTop (.opening symbol none 0 state) := ⟨nofun, rfl⟩

theorem Stands.missingOperand (stands : Stands text older offset ahead record context) :
    ∃ after, missingOperand.run context = .ok (⟨record.length⟩, after) ∧
      Stands text older offset ahead (record ++ missingTop :: missingBack) after := by
  rcases stands.start with ⟨first, run, started⟩
  rcases started.missing number with ⟨second, runSecond, between⟩
  rw [List.append_assoc, List.singleton_append] at between
  rcases between.complete expressionSymbol with ⟨after, runLast, reached⟩
  refine ⟨after, ?_, reached⟩
  exact (run_bind_of_ok run).trans ((run_bind_of_ok runSecond).trans runLast)

/-- A group is closed by its parenthesis or by a missing one. -/
theorem Stands.expect {token : Tree}
    (stands : Stands text older offset (some token) record context) :
    ∃ found closing stop ahead after,
      (expect rightParenthesis).run context = .ok (found, after) ∧
      Closes text offset closing stop ∧
      Stands text older stop ahead (record ++ [.added closing none 0]) after := by
  by_cases closes : token.info.symbol = rightParenthesis
  · rcases stands.bump (by rw [closes]; decide) with ⟨stop, after, run, scanned, reached⟩
    refine ⟨true, token, stop, none, after, ?_, .found scanned closes, reached⟩
    have ate : (eat rightParenthesis).run context = .ok (true, after) := by
      refine (run_bind_of_ok ((run_bind_of_ok stands.peek_ahead).trans rfl)).trans ?_
      simp only [closes, BEq.rfl, if_true]
      exact (run_bind_of_ok run).trans rfl
    exact (run_bind_of_ok ate).trans rfl
  · rcases stands.missing rightParenthesis with ⟨after, run, reached⟩
    refine ⟨false, _, offset, some token, after, ?_, .missing stands.next closes, reached⟩
    have refused : (eat rightParenthesis).run context = .ok (false, context) := by
      refine (run_bind_of_ok ((run_bind_of_ok stands.peek_ahead).trans rfl)).trans ?_
      simp only [beq_iff_eq, closes, if_false]
      rfl
    refine (run_bind_of_ok refused).trans ?_
    exact (run_bind_of_ok run).trans rfl

theorem Stands.finishOperand {front back : List Event}
    (stands : Stands text older offset ahead (front ++ blank :: back) context) :
    ∃ after, (operand.finishOperand ⟨front.length⟩).run context =
        .ok (some ⟨front.length⟩, after) ∧
      Stands text older offset ahead
        (front ++ .opening (some expressionSymbol) none 0 operandState :: (back ++ [.closing]))
        after := by
  rcases stands.complete expressionSymbol with ⟨first, run, completed⟩
  rcases completed.setState operandState with ⟨after, runLast, reached⟩
  refine ⟨after, ?_, reached⟩
  refine (run_bind_of_ok run).trans ?_
  exact (run_bind_of_ok runLast).trans rfl

/-! ## What the rules of the grammar come to -/

/-- What a run of `operand` finds at an offset, after a record. -/
inductive FindsOperand (text : Text) (older : Option Tree) (offset : Nat) (record : List Event) :
    Option CompleteNode → Context → Prop where
  | nothing {start : Nat} {comments : List (Edge Tree)} {token : Tree} {after : Context}
      (extras : Extras text offset comments start) (nothing : NoOperand text start)
      (stands : Stands text older start (some token) (record ++ leaves comments) after) :
      FindsOperand text older offset record none after
  | operand {start stop : Nat} {comments : List (Edge Tree)} {tree : Tree} {ahead : Option Tree}
      {top : Event} {back : List Event} {after : Context}
      (extras : Extras text offset comments start) (operand : Operand text start tree stop)
      (stem : Stem vocabulary [] top back tree) (isTop : IsTop top)
      (stands : Stands text older stop ahead (record ++ leaves comments ++ top :: back) after) :
      FindsOperand text older offset record (some ⟨(record ++ leaves comments).length⟩) after

/-- What a run of `expression` finds at an offset, after a record. -/
inductive FindsExpression (text : Text) (older : Option Tree) (offset : Nat)
    (record : List Event) : Option CompleteNode → Context → Prop where
  | nothing {start : Nat} {comments : List (Edge Tree)} {token : Tree} {after : Context}
      (extras : Extras text offset comments start) (nothing : NoOperand text start)
      (stands : Stands text older start (some token) (record ++ leaves comments) after) :
      FindsExpression text older offset record none after
  | expression {start middle stop : Nat} {comments items : List (Edge Tree)} {left token : Tree}
      {node : CompleteNode} {block : List Event} {after : Context}
      (extras : Extras text offset comments start) (first : Operand text start left middle)
      (sums : Sums text left middle items stop) (yields : Yields vocabulary block items)
      (stands : Stands text older stop (some token) (record ++ leaves comments ++ block) after) :
      FindsExpression text older offset record (some node) after

theorem built_eq_branch {symbol state : Nat} {items : List (Edge Tree)}
    (regular : symbol ≠ errorSymbol) :
    built vocabulary symbol state items =
      Tree.branch symbol state (vocabulary.kind symbol) items := if_neg regular

/-- An operand that is taken over stands where the record ends. -/
theorem FindsOperand.taken {tree : Tree} {stop : Nat} (operand : Operand text offset tree stop)
    (stands : Stands text older stop ahead (record ++ [.added tree none 0]) context) :
    FindsOperand text older offset record (some ⟨record.length⟩) context := by
  have nothing : record ++ leaves [] = record := List.append_nil record
  rw [← nothing] at stands
  have finds := FindsOperand.operand .done operand (Event.stem_added tree) ⟨nofun, rfl⟩ stands
  rw [nothing] at finds
  exact finds

/-- An operand that is no group is a single token. -/
theorem Stands.singleOperand {token : Tree} {front : List Event}
    (stands : Stands text older offset (some token) (front ++ [blank]) context)
    (single : token.info.symbol = number ∨ token.info.symbol = variableName) :
    ∃ top back tree stop after,
      (Parsing.bump >>= fun _ => operand.finishOperand ⟨front.length⟩).run context =
        .ok (some ⟨front.length⟩, after) ∧
      Operand text offset tree stop ∧ Stem vocabulary [] top back tree ∧ IsTop top ∧
      Stands text older stop none (front ++ top :: back) after := by
  have more : token.info.symbol ≠ endSymbol := by
    rcases single with same | same <;> rw [same] <;> decide
  rcases stands.bump more with ⟨stop, first, run, scanned, between⟩
  rw [List.append_assoc, List.singleton_append] at between
  rcases between.finishOperand with ⟨after, runLast, reached⟩
  have yields : Yields vocabulary [.added token none 0] [⟨0, token⟩] := Event.yields_added token 0
  have stem := Event.stem_opening expressionSymbol operandState yields
  rw [built_eq_branch (by decide)] at stem
  exact ⟨_, _, _, stop, after, (run_bind_of_ok run).trans runLast, .token scanned single, stem,
    isTop_opening _ _, reached⟩

/-- A group ends behind its parenthesis, or where it is missing. -/
theorem Stands.closeGroup {token opening : Tree} {front back : List Event} {start inner : Nat}
    {items : List (Edge Tree)}
    (stands : Stands text older offset (some token) (front ++ blank :: back) context)
    (opened : Scanned text start opening inner) (opens : opening.info.symbol = leftParenthesis)
    (inside : Inside text inner items offset)
    (yields : Yields vocabulary back (⟨0, opening⟩ :: items)) :
    ∃ top back tree stop ahead after,
      (do
        discard <| Parsing.expect rightParenthesis
        operand.finishOperand ⟨front.length⟩ : Parsing (Option CompleteNode)).run context =
          .ok (some ⟨front.length⟩, after) ∧
      Operand text start tree stop ∧ Stem vocabulary [] top back tree ∧ IsTop top ∧
      Stands text older stop ahead (front ++ top :: back) after := by
  rcases stands.expect with ⟨found, closing, stop, ahead, first, run, closes, between⟩
  rw [List.append_assoc, List.cons_append] at between
  rcases between.finishOperand with ⟨after, runLast, reached⟩
  have stem := Event.stem_opening expressionSymbol operandState
    (yields.append (Event.yields_added closing 0))
  rw [built_eq_branch (by decide)] at stem
  refine ⟨_, _, _, stop, ahead, after, ?_, .group opened opens inside closes, stem,
    isTop_opening _ _, reached⟩
  exact (run_bind_of_ok (run_discard_of_ok run)).trans runLast

/-- A group holds the expression behind its parenthesis, or a missing number. -/
theorem FindsExpression.closeGroup {opening : Tree} {front : List Event} {start inner : Nat}
    {found : Option CompleteNode} (opened : Scanned text start opening inner)
    (opens : opening.info.symbol = leftParenthesis)
    (finds : FindsExpression text older inner (front ++ [blank] ++ [.added opening none 0]) found
      context) :
    ∃ top back tree stop ahead after,
      (do
        if found.isNone then
          discard Arithmetic.missingOperand
        discard <| Parsing.expect rightParenthesis
        operand.finishOperand ⟨front.length⟩ : Parsing (Option CompleteNode)).run context =
          .ok (some ⟨front.length⟩, after) ∧
      Operand text start tree stop ∧ Stem vocabulary [] top back tree ∧ IsTop top ∧
      Stands text older stop ahead (front ++ top :: back) after := by
  have shape (comments : List (Edge Tree)) (block : List Event) :
      front ++ [blank] ++ [.added opening none 0] ++ leaves comments ++ block =
        front ++ blank :: ([.added opening none 0] ++ (leaves comments ++ block)) := by
    simp
  have yieldsOpening : Yields vocabulary [.added opening none 0] [⟨0, opening⟩] :=
    Event.yields_added opening 0
  cases finds with
  | nothing extras nothing reached =>
      rcases reached.missingOperand with ⟨filled, runMissing, complete⟩
      rw [shape] at complete
      have yields := yieldsOpening.append (extras.yields.append (stem_missing.yields 0))
      rcases complete.closeGroup opened opens (.empty extras nothing) yields with
        ⟨top, back, tree, stop, ahead, after, runClose, closed⟩
      refine ⟨top, back, tree, stop, ahead, after, ?_, closed⟩
      exact (run_bind_of_ok (run_discard_of_ok runMissing)).trans runClose
  | expression extras first sums yields reached =>
      rw [shape] at reached
      have all := yieldsOpening.append (extras.yields.append yields)
      exact reached.closeGroup opened opens (.filled extras first sums) all

/-! ## Sums -/

/-- The beginning of a sum: its left operand is given a field and a wrapper, its sign is
consumed. -/
theorem Stands.openSum {α : Type} {front back mid : List Event} {top : Event} {token : Tree}
    (isTop : IsTop top)
    (stands : Stands text older offset (some token) (record ++ (front ++ top :: back) ++ mid)
      context)
    (adds : token.info.symbol = plus) (rest : OpenNode → Parsing α) :
    ∃ outer stop after, outer = record ++
        (front ++ wrapped (some (back.length + 1 + mid.length)) leftField top :: back ++ mid) ∧
      (do
        Parsing.setField ⟨(record ++ front).length⟩ leftField
        let node ← Parsing.precede ⟨(record ++ front).length⟩
        Parsing.bump
        rest node : Parsing α).run context = (rest ⟨outer.length⟩).run after ∧
      Scanned text offset token stop ∧
      Stands text older stop none (outer ++ [blank, .added token none 0]) after := by
  have shape : record ++ (front ++ top :: back) ++ mid =
      (record ++ front) ++ wrapped none 0 top :: (back ++ mid) := by
    rw [isTop.2]
    simp
  rw [shape] at stands
  rcases stands.setField isTop.1 leftField with ⟨first, runFirst, fielded⟩
  rcases fielded.precede isTop.1 with ⟨second, runSecond, preceded⟩
  rcases preceded.bump (by rw [adds]; decide) with ⟨stop, after, runLast, scanned, reached⟩
  have distance : (back ++ mid).length + 1 = back.length + 1 + mid.length := by
    rw [List.length_append]
    omega
  rw [distance] at runSecond reached
  refine ⟨_, stop, after, rfl, ?_, scanned, ?_⟩
  · refine (run_bind_of_ok runFirst).trans ?_
    refine (run_bind_of_ok runSecond).trans ?_
    refine (run_bind_of_ok runLast).trans ?_
    simp only [List.append_assoc, List.cons_append]
  · have same : (record ++ front) ++ wrapped (some (back.length + 1 + mid.length)) leftField top ::
        (back ++ mid ++ [blank]) ++ [.added token none 0] =
        record ++ (front ++ wrapped (some (back.length + 1 + mid.length)) leftField top :: back ++
          mid) ++ [blank, .added token none 0] := by simp
    rw [← same]
    exact reached

/-- What is completed as a sum and wrapped in an expression is a stem of the sum. -/
theorem Stands.closeSum {α : Type} {front back mid inner : List Event} {top : Event} {left : Tree}
    {comments items : List (Edge Tree)} (stem : Stem vocabulary front top back left)
    (between : Yields vocabulary mid comments) (yields : Yields vocabulary inner items)
    {outer : List Event} (same : outer = record ++
      (front ++ wrapped (some (back.length + 1 + mid.length)) leftField top :: back ++ mid))
    (stands : Stands text older offset ahead (outer ++ blank :: inner) context)
    (rest : CompleteNode → Parsing α) :
    ∃ front top back after,
      (do
        let whole ← Parsing.complete ⟨outer.length⟩ sum
        let wrapper ← Parsing.precede whole
        rest (← Parsing.complete wrapper expressionSymbol) : Parsing α).run context =
          (rest ⟨(record ++ front).length⟩).run after ∧
      Stem vocabulary front top back (sumTree (⟨leftField, left⟩ :: comments ++ items)) ∧
      IsTop top ∧ Stands text older offset ahead (record ++ (front ++ top :: back)) after := by
  have inSum := stem.wrap (between.gap yields) sum noState leftField
  have whole := inSum.wrap (Event.yields_nil.gap Event.yields_nil) expressionSymbol noState 0
  rw [built_eq_branch (by decide), built_eq_branch (by decide)] at whole
  rcases stands.complete sum with ⟨first, runFirst, completed⟩
  have completed : Stands text older offset ahead
      (outer ++ wrapped none 0 (.opening (some sum) none 0 noState) :: (inner ++ [.closing]))
      first := completed
  rcases completed.precede (isTop_opening (some sum) noState).1 with ⟨second, runSecond, preceded⟩
  have shape : outer ++ wrapped (some ((inner ++ [Event.closing]).length + 1)) 0
        (.opening (some sum) none 0 noState) :: (inner ++ [.closing] ++ [blank]) =
      (outer ++ wrapped (some ((inner ++ [Event.closing]).length + 1)) 0
        (.opening (some sum) none 0 noState) :: (inner ++ [.closing])) ++ blank :: [] := by simp
  rw [shape] at preceded
  rcases preceded.complete expressionSymbol with ⟨after, runLast, reached⟩
  refine ⟨_, _, _, after, ?_, whole, isTop_opening _ _, ?_⟩
  · refine (run_bind_of_ok runFirst).trans ?_
    refine (run_bind_of_ok runSecond).trans ?_
    refine (run_bind_of_ok runLast).trans ?_
    simp only [same, List.append_assoc, List.cons_append, List.append_nil, List.length_nil,
      Nat.add_zero]
  · rw [same] at reached
    simp only [List.append_assoc, List.cons_append, List.append_nil, List.nil_append,
      List.length_nil, Nat.add_zero] at reached ⊢
    exact reached

/-- The right operand of a sum is what was found or a missing number. -/
theorem Stands.addRight {α : Type} {fuel : Nat} {found : Option CompleteNode} {between : Context}
    (run : (operand fuel).run context = .ok (found, between))
    (finds : FindsOperand text older offset record found between) (rest : Parsing α) :
    ∃ addend stop ahead block after,
      (do
        let right ← do
          match ← operand fuel with
          | some right => pure right
          | none => Arithmetic.missingOperand
        Parsing.setField right rightField
        rest : Parsing α).run context = rest.run after ∧
      Right text offset addend stop ∧ Yields vocabulary block addend ∧
      Stands text older stop ahead (record ++ block) after := by
  cases finds with
  | @nothing start comments token _ extras nothing reached =>
      rcases reached.missingOperand with ⟨filled, runMissing, complete⟩
      have complete : Stands text older start (some token)
          (record ++ leaves comments ++ wrapped none 0 missingTop :: missingBack) filled := complete
      rcases complete.setField (isTop_opening (some expressionSymbol) noState).1 rightField with
        ⟨after, runField, fielded⟩
      rw [List.append_assoc] at fielded
      refine ⟨_, start, _, _, after, ?_, .missing extras nothing,
        extras.yields.append (stem_missing.yields rightField), fielded⟩
      refine (run_bind_of_ok run).trans ?_
      refine (run_bind_of_ok runMissing).trans ?_
      exact run_bind_of_ok runField
  | @operand start stop comments tree ahead top back _ extras operand stem isTop reached =>
      rw [← isTop.2] at reached
      rcases reached.setField isTop.1 rightField with ⟨after, runField, fielded⟩
      rw [List.append_assoc] at fielded
      refine ⟨_, stop, _, _, after, ?_, .found extras operand,
        extras.yields.append (stem.yields rightField), fielded⟩
      refine (run_bind_of_ok run).trans ?_
      dsimp only
      refine (run_bind_of_ok rfl).trans ?_
      exact run_bind_of_ok runField

mutual

theorem run_operand {offset : Nat} {ahead : Option Tree} {record : List Event} {context : Context}
    (short : text.size < maxOffset) (reliable : Reliable text older) :
    (fuel : Nat) → Stands text older offset ahead record context →
      2 * (text.size - offset) + 1 ≤ fuel →
        ∃ found after, (operand fuel).run context = .ok (found, after) ∧
          FindsOperand text older offset record found after
  | 0, _, enough => by omega
  | fuel + 1, stands, enough => by
    rcases stands.reuse short reliable with run | ⟨tree, stop, after, run, found, reached⟩
    · rcases stands.peek short with ⟨comments, start, token, peeked, runPeek, extras, sees⟩
      rcases sees.start with ⟨opened, runStart, begun⟩
      have program (found : Option CompleteNode) (after : Context)
          (rest : (if token.info.symbol = number ∨ token.info.symbol = variableName then do
              Parsing.bump
              operand.finishOperand ⟨(record ++ leaves comments).length⟩
            else if token.info.symbol = leftParenthesis then do
              Parsing.bump
              if (← expression fuel).isNone then
                discard Arithmetic.missingOperand
              discard <| Parsing.expect rightParenthesis
              operand.finishOperand ⟨(record ++ leaves comments).length⟩
            else do
              Parsing.abandon ⟨(record ++ leaves comments).length⟩
              return none : Parsing (Option CompleteNode)).run opened = .ok (found, after)) :
          (operand (fuel + 1)).run context = .ok (found, after) := by
        rw [operand]
        refine (run_bind_of_ok run).trans ?_
        refine (run_bind_of_ok runPeek).trans ?_
        refine (run_bind_of_ok runStart).trans ?_
        exact rest
      by_cases single : token.info.symbol = number ∨ token.info.symbol = variableName
      · rcases begun.singleOperand single with
          ⟨top, back, tree, stop, after, rest, derived, stem, isTop, reached⟩
        refine ⟨_, after, program _ after ?_, .operand extras derived stem isTop reached⟩
        rw [if_pos single]
        exact rest
      by_cases opens : token.info.symbol = leftParenthesis
      · rcases begun.bump (by rw [opens]; decide) with
          ⟨inner, bumped, runBump, scanned, between⟩
        have before := extras.le
        have further := scanned.lt (by rw [opens]; decide)
        have inside := between.inside
        rcases run_expression short reliable fuel between (by omega) with
          ⟨found, filled, runInner, finds⟩
        rcases finds.closeGroup scanned opens with
          ⟨top, back, tree, stop, ahead, after, runClose, derived, stem, isTop, reached⟩
        refine ⟨_, after, program _ after ?_, .operand extras derived stem isTop reached⟩
        rw [if_neg single, if_pos opens]
        exact (run_bind_of_ok runBump).trans ((run_bind_of_ok runInner).trans runClose)
      · rcases begun.abandon with ⟨after, runAbandon, reached⟩
        refine ⟨none, after, program none after ?_, .nothing extras ⟨_, sees.next, ?_⟩ reached⟩
        · rw [if_neg single, if_neg opens]
          exact (run_bind_of_ok runAbandon).trans rfl
        · rintro (same | same | same)
          · exact single (Or.inl same)
          · exact single (Or.inr same)
          · exact opens same
    · have taken : (operand (fuel + 1)).run context = .ok (some ⟨record.length⟩, after) := by
        rw [operand]
        exact (run_bind_of_ok run).trans rfl
      exact ⟨_, after, taken, .taken found reached⟩

theorem run_expression {offset : Nat} {ahead : Option Tree} {record : List Event}
    {context : Context} (short : text.size < maxOffset) (reliable : Reliable text older) :
    (fuel : Nat) → Stands text older offset ahead record context →
      2 * (text.size - offset) + 2 ≤ fuel →
        ∃ found after, (expression fuel).run context = .ok (found, after) ∧
          FindsExpression text older offset record found after
  | 0, _, enough => by omega
  | fuel + 1, stands, enough => by
    rw [expression]
    rcases run_operand short reliable fuel stands (by omega) with ⟨found, between, run, finds⟩
    cases finds with
    | nothing extras nothing reached =>
        exact ⟨none, between, (run_bind_of_ok run).trans rfl, .nothing extras nothing reached⟩
    | operand extras operand stem isTop reached =>
        have before := extras.le
        have further := operand.lt
        rcases run_sums short reliable [] stem isTop fuel reached (by omega) with
          ⟨node, after, items, stop, token, block, runSums, sums, yields, summed⟩
        rw [List.append_nil] at runSums
        refine ⟨some node, after, ?_, .expression extras operand sums yields summed⟩
        exact (run_bind_of_ok run).trans ((run_bind_of_ok runSums).trans rfl)

theorem run_sums {offset : Nat} {ahead : Option Tree} {record back : List Event}
    {top : Event} {left : Tree} {context : Context} (short : text.size < maxOffset)
    (reliable : Reliable text older) (front : List Event)
    (stem : Stem vocabulary front top back left) (isTop : IsTop top) :
    (fuel : Nat) → Stands text older offset ahead (record ++ (front ++ top :: back)) context →
      2 * (text.size - offset) + 1 ≤ fuel →
        ∃ node after items stop token block,
          (sums fuel ⟨(record ++ front).length⟩).run context = .ok (node, after) ∧
          Sums text left offset items stop ∧ Yields vocabulary block items ∧
          Stands text older stop (some token) (record ++ block) after
  | 0, _, enough => by omega
  | fuel + 1, stands, enough => by
    rw [sums]
    rcases stands.peek short with ⟨comments, start, token, peeked, runPeek, extras, sees⟩
    by_cases adds : token.info.symbol = plus
    · have between : Yields vocabulary (leaves comments) comments := extras.yields
      rcases sees.openSum isTop adds (fun node => do
          let right ← do
            match ← operand fuel with
            | some right => pure right
            | none => Arithmetic.missingOperand
          Parsing.setField right rightField
          let whole ← Parsing.complete node sum
          let wrapper ← Parsing.precede whole
          sums fuel (← Parsing.complete wrapper expressionSymbol)) with
        ⟨outer, inner, opened, same, runOpen, scanned, begun⟩
      have before := extras.le
      have further := scanned.lt (by rw [adds]; decide)
      have inside := begun.inside
      rcases run_operand short reliable fuel begun (by omega) with ⟨found, tried, runRight, finds⟩
      rcases Stands.addRight runRight finds (do
          let whole ← Parsing.complete ⟨outer.length⟩ sum
          let wrapper ← Parsing.precede whole
          sums fuel (← Parsing.complete wrapper expressionSymbol)) with
        ⟨addend, middle, next, block, filled, runAdd, right, yields, added⟩
      have shape : outer ++ [blank, .added token none 0] ++ block =
          outer ++ blank :: ([.added token none 0] ++ block) := by simp
      rw [shape] at added
      have behind := right.row.le
      have all := (Event.yields_added token 0).append yields
      rcases added.closeSum stem between all same (sums fuel) with
        ⟨front, top, back, closed, runClose, whole, isTop, reached⟩
      rcases run_sums short reliable front whole isTop fuel reached (by omega) with
        ⟨node, after, items, stop, token, block, runRest, rest, yields, summed⟩
      refine ⟨node, after, items, stop, token, block, ?_,
        .more extras scanned adds right rest, yields, summed⟩
      refine (run_bind_of_ok ((run_bind_of_ok runPeek).trans rfl)).trans ?_
      simp only [beq_iff_eq, adds, if_true]
      exact runOpen.trans (runAdd.trans (runClose.trans runRest))
    · refine ⟨⟨(record ++ front).length⟩, peeked, _, start, token, _, ?_,
        .done extras sees.next adds, (stem.yields 0).append extras.yields, ?_⟩
      · refine (run_bind_of_ok ((run_bind_of_ok runPeek).trans rfl)).trans ?_
        simp only [beq_iff_eq, adds, if_false]
        rfl
      · rw [isTop.2, ← List.append_assoc]
        exact sees

end

/-! ## Whole texts -/

theorem Extras.append {middle stop : Nat} {items others : List (Edge Tree)}
    (first : Extras text offset items middle) (second : Extras text middle others stop) :
    Extras text offset (items ++ others) stop := by
  induction first with
  | done => exact second
  | more scanned extra _ ih => exact .more scanned extra (ih second)

/-- A token that is skipped is recorded as an error. -/
theorem Stands.skipToken {token : Tree}
    (stands : Stands text older offset (some token) record context)
    (more : token.info.symbol ≠ endSymbol) :
    ∃ stop block after, skipToken.run context = .ok ((), after) ∧
      Scanned text offset token stop ∧ Yields vocabulary block [⟨0, Tree.error [⟨0, token⟩]⟩] ∧
      Stands text older stop none (record ++ block) after := by
  have reported := stands.report (.skipped (context.vocabulary.symbolName token.info.symbol))
  rcases reported.start with ⟨opened, runStart, begun⟩
  rcases begun.bump more with ⟨stop, bumped, runBump, scanned, between⟩
  rw [List.append_assoc, List.singleton_append] at between
  rcases between.complete errorSymbol with ⟨after, runLast, reached⟩
  have stem := Event.stem_opening errorSymbol noState
    (@Event.yields_added vocabulary token 0)
  refine ⟨stop, _, after, ?_, scanned, stem.yields 0, reached⟩
  refine (run_bind_of_ok stands.peek_ahead).trans ?_
  rw [if_pos more]
  refine (run_bind_of_ok rfl).trans ?_
  refine (run_bind_of_ok rfl).trans ?_
  refine (run_bind_of_ok runStart).trans ?_
  refine (run_bind_of_ok runBump).trans ?_
  exact run_discard_of_ok runLast

/-- What a turn of the program comes to where the text goes on: it has read an expression or
skipped a token, and the turns behind it go on from there. -/
structure Turn (text : Text) (older : Option Tree) (offset : Nat) (record : List Event)
    (items : List (Edge Tree)) (block : List Event) (stop : Nat) (ahead : Option Tree)
    (after : Context) : Prop where
  further : offset < stop
  expressions : ∀ rest, Expressions text stop rest → Expressions text offset (items ++ rest)
  yields : Yields vocabulary block items
  stands : Stands text older stop ahead (record ++ block) after

/-- A turn reads an expression, or skips the token that begins none. -/
theorem run_turn {fuel : Nat} (short : text.size < maxOffset) (reliable : Reliable text older)
    (enough : 2 * text.size + 2 ≤ fuel) {start : Nat} {comments : List (Edge Tree)} {token : Tree}
    (extras : Extras text offset comments start)
    (sees : Stands text older start (some token) (record ++ leaves comments) context)
    (goesOn : token.info.symbol ≠ endSymbol) :
    ∃ items block stop ahead after found between,
      (expression fuel).run context = .ok (found, between) ∧
      (if found.isNone then skipToken else pure ()).run between = .ok ((), after) ∧
      Turn text older offset record items block stop ahead after := by
  have before := extras.le
  rcases run_expression short reliable fuel sees (by omega) with ⟨found, between, run, finds⟩
  cases finds with
  | @nothing place others other _ extrasInner nothing reached =>
      rcases nothing with ⟨symbol, next, refused⟩
      -- the token that is skipped is the one that was looked at
      obtain rfl : start = place := (Extras.done.unique sees.next extrasInner next).2
      have same := reached.next.unique sees.next
      obtain rfl := next.unique reached.next
      have more : other.info.symbol ≠ endSymbol := by rwa [same]
      rcases reached.skipToken more with ⟨stop, block, after, runSkip, scanned, yields, skips⟩
      have further := scanned.lt more
      refine ⟨_, _, stop, none, after, none, between, run, runSkip, by omega, fun rest later => ?_,
        extras.yields.append (extrasInner.yields.append yields), by simpa using skips⟩
      have skipped := Expressions.skipped (extras.append extrasInner) scanned
        (reached.solid _ rfl).1 more refused later
      simpa using skipped
  | @expression place middle next others items left other node block _ extrasInner first sums
      yields reached =>
      have further := first.lt
      have onward := sums.le
      have onset := extrasInner.le
      refine ⟨_, _, next, some other, between, some node, between, run, rfl, by omega,
        fun rest later => ?_, extras.yields.append (extrasInner.yields.append yields),
        by simpa using reached⟩
      simpa using Expressions.expression (extras.append extrasInner) first sums later

theorem run_expressions {fuel : Nat} (short : text.size < maxOffset)
    (reliable : Reliable text older) (enough : 2 * text.size + 2 ≤ fuel) (turns : Nat)
    (stands : Stands text older offset ahead record context)
    (left : text.size - offset + 1 ≤ turns) :
    ∃ block items stop last after, (expressions fuel turns).run context = .ok ((), after) ∧
      Expressions text offset (items ++ [⟨0, last⟩]) ∧ last.info.symbol = endSymbol ∧
      Yields vocabulary block items ∧
      Stands text older stop (some last) (record ++ block) after := by
  induction turns generalizing offset ahead record context with
  | zero => omega
  | succ turns ih =>
      rcases stands.peek short with ⟨comments, start, token, peeked, runPeek, extras, sees⟩
      have looked : atEnd.run context = .ok (token.info.symbol == endSymbol, peeked) :=
        (run_bind_of_ok runPeek).trans rfl
      rw [expressions]
      by_cases ends : token.info.symbol = endSymbol
      · rcases sees.solid token rfl with ⟨_, stop, scanned⟩
        refine ⟨_, comments, start, token, peeked, ?_, .ended extras scanned ends, ends,
          extras.yields, sees⟩
        refine (run_bind_of_ok looked).trans ?_
        simp only [ends, BEq.rfl, Bool.not_true, Bool.false_eq_true, if_false]
        rfl
      · have goesOn : (!(token.info.symbol == endSymbol)) = true := by simp [ends]
        rcases run_turn short reliable enough extras sees ends with
          ⟨items, block, place, next, between, found, read, runInner, runSkip, turn⟩
        have further := turn.further
        have inside := turn.stands.inside
        rcases ih turn.stands (by omega) with
          ⟨behind, trees, stop, last, after, runRest, later, isEnd, yields, stops⟩
        refine ⟨block ++ behind, items ++ trees, stop, last, after, ?_, ?_, isEnd,
          turn.yields.append yields, ?_⟩
        · refine (run_bind_of_ok looked).trans ?_
          rw [if_pos goesOn]
          refine (run_bind_of_ok runInner).trans ?_
          cases found with
          | none => exact (run_bind_of_ok runSkip).trans runRest
          | some node =>
              cases runSkip
              exact runRest
        · rw [List.append_assoc]
          exact turn.expressions _ later
        · rwa [← List.append_assoc]

theorem stands_new (short : text.size < maxOffset) (older : Option Tree) :
    Stands text older 0 none [] (Context.new vocabulary program text [Span.whole] older 0) := by
  let fresh : Scanner :=
    { text, spans := [Span.whole], previous := none, ahead := [Span.whole]
      position := Extent.zero, tokenStart := Extent.zero, tokenStop := none, loaded := none
      malformed := false, symbol := 0, log := [] }
  have placed : (fresh.goTo (text.place 0)).Placed text 0 :=
    Scanner.placed_goTo short rfl rfl (Nat.zero_le _)
  exact ⟨rfl, rfl, rfl, rfl, rfl, rfl, Nat.zero_le _, ⟨0, placed⟩, rfl, rfl, nofun⟩

/-- Nothing is skipped where the text ends. -/
theorem Stands.skipRest {last : Tree} (stands : Stands text older offset (some last) record context)
    (ends : last.info.symbol = endSymbol) (fuel : Nat) :
    (Parsing.skipRest (fuel + 1)).run context = .ok ((), context) := by
  have looked : atEnd.run context = .ok (last.info.symbol == endSymbol, context) :=
    (run_bind_of_ok stands.peek_ahead).trans rfl
  rw [Parsing.skipRest]
  refine (run_bind_of_ok looked).trans ?_
  rw [ends]
  rfl

/-- The parse of a whole text ends, and its tree is the root of the derivation of the text. -/
theorem run_wholeTree (short : text.size < maxOffset) (reliable : Reliable text older) :
    ∃ items after,
      (wholeTree grammar).run (Context.new vocabulary program text [Span.whole] older 0) =
        .ok (Tree.root vocabulary items, after) ∧ Expressions text 0 items := by
  have begun := (stands_new short older).report .began
  have budget : ((Context.new vocabulary program text [Span.whole] older 0).report .began).budget =
      4 * text.size + 16 := by
    rcases begun.placed with ⟨place, placed⟩
    simp [Context.budget, placed.standing.text_eq, begun.limit_eq]
  rcases run_expressions short reliable (show 2 * text.size + 2 ≤ 4 * text.size + 16 by omega)
    (4 * text.size + 16) begun (by omega) with
    ⟨block, items, stop, last, parsed, run, expressions, ends, yields, stands⟩
  have parses : grammar.run
      ((Context.new vocabulary program text [Span.whole] older 0).report .began) =
        .ok ((), parsed) := by
    refine (run_bind_of_ok rfl).trans ?_
    rw [budget]
    exact run
  have folds : Event.fold? parsed.vocabulary parsed.events = .ok items := by
    rw [List.nil_append] at stands
    rw [← stands.events_eq] at yields
    rw [stands.vocabulary_eq]
    exact yields.fold
  have final : parsed.lastToken = (last, { parsed with lookahead := none }) := by
    unfold Context.lastToken
    rw [stands.lookahead_eq, stands.running]
  have whole := run_wholeTree_of_ok parses (stands.skipRest ends _) (by rw [final]; exact folds)
  rw [final, stands.vocabulary_eq] at whole
  exact ⟨items ++ [⟨0, last⟩], _, whole, expressions⟩

end Arithmetic

end Reparse
