import Reparse.Proofs.Parse.Interface

/-!
# The arithmetic grammar on two parses

The arithmetic grammar does the same from states that no operation of the interface tells apart,
even if its loops are allowed more turns on one side (`Arithmetic.simulates_grammar`). If an
operation parts the two runs, they stay apart (`Arithmetic.simulatesUntil_grammar`).
-/

namespace Reparse

namespace Arithmetic

open Parsing

variable {stopped spent : Context → Prop} {related : Context → Context → Prop}
  (operations : OperationsSimulateUntil stopped spent related)

include operations

theorem simulates_missingOperand :
    SimulatesUntil stopped spent related missingOperand missingOperand :=
  operations.start.bind fun _ => (operations.missing number).bind fun _ => operations.complete _ _

theorem simulates_finishOperand (node : OpenNode) :
    SimulatesUntil stopped spent related (operand.finishOperand node)
      (operand.finishOperand node) :=
  (operations.complete _ _).bind fun _ => (operations.setState _ _).bind fun _ => .pure _

theorem simulates_operand {turns fuel : Nat}
    (inner : SimulatesUntil stopped spent related (expression fuel) (expression turns)) :
    SimulatesUntil stopped spent related (operand (fuel + 1)) (operand (turns + 1)) := by
  have closed (node : OpenNode) := simulates_finishOperand operations node
  rw [operand, operand]
  refine (operations.reuse _).bind fun found => ?_
  cases found with
  | some node => exact .pure _
  | none =>
      refine operations.peek.bind fun kind => operations.start.bind fun node =>
        .ite ?_ (.ite ?_ ?_)
      · exact operations.bump.bind fun _ => closed node
      · refine operations.bump.bind fun _ => inner.bind fun found => .ite ?_ ?_
        · exact (simulates_missingOperand operations).discard.bind fun _ =>
            (operations.expect _).discard.bind fun _ => closed node
        · exact (operations.expect _).discard.bind fun _ => closed node
      · exact (operations.abandon node).bind fun _ => .pure _

omit operations in
theorem simulates_expression {turns fuel : Nat}
    (first : SimulatesUntil stopped spent related (operand fuel) (operand turns))
    (more : ∀ left, SimulatesUntil stopped spent related (sums fuel left) (sums turns left)) :
    SimulatesUntil stopped spent related (expression (fuel + 1)) (expression (turns + 1)) := by
  rw [expression, expression]
  refine first.bind fun found => ?_
  cases found with
  | none => exact .pure _
  | some left => exact (more left).bind fun _ => .pure _

theorem simulates_sums {turns fuel : Nat} (left : CompleteNode)
    (next : SimulatesUntil stopped spent related (operand fuel) (operand turns))
    (more : ∀ left, SimulatesUntil stopped spent related (sums fuel left) (sums turns left)) :
    SimulatesUntil stopped spent related (sums (fuel + 1) left) (sums (turns + 1) left) := by
  rw [sums, sums]
  refine (operations.at? _).bind fun plus => .ite ?_ (.pure _)
  refine (operations.setField _ _).bind fun _ => (operations.precede _).bind fun node =>
    operations.bump.bind fun _ => ?_
  have last (right : CompleteNode) : SimulatesUntil stopped spent related (do
      setField right rightField
      let whole ← complete node sum
      let wrapper ← precede whole
      sums fuel (← complete wrapper expressionSymbol)) (do
      setField right rightField
      let whole ← complete node sum
      let wrapper ← precede whole
      sums turns (← complete wrapper expressionSymbol)) :=
    (operations.setField _ _).bind fun _ => (operations.complete _ _).bind fun whole =>
      (operations.precede _).bind fun wrapper => (operations.complete _ _).bind fun left =>
        more left
  refine next.bind fun right => ?_
  cases right with
  | some right => exact (SimulatesUntil.pure _).bind last
  | none => exact (simulates_missingOperand operations).bind last

/-- The rules of the grammar do the same on both sides, if the first side has enough fuel. -/
theorem simulates_rules {turns fuel : Nat} (enough : turns ≤ fuel) :
    SimulatesUntil stopped spent related (operand fuel) (operand turns) ∧
      SimulatesUntil stopped spent related (expression fuel) (expression turns) ∧
      ∀ left, SimulatesUntil stopped spent related (sums fuel left) (sums turns left) := by
  induction turns generalizing fuel with
  | zero =>
      exact ⟨.fault ((byInterface_operand fuel).preserves operations.stays) _,
        .fault ((byInterface_expression fuel).preserves operations.stays) _,
        fun left => .fault ((byInterface_sums fuel left).preserves operations.stays) _⟩
  | succ turns ih =>
      cases fuel with
      | zero => omega
      | succ fuel =>
          rcases ih (Nat.le_of_succ_le_succ enough) with ⟨first, inner, more⟩
          exact ⟨simulates_operand operations inner, simulates_expression first more,
            fun left => simulates_sums operations left first more⟩

theorem simulates_expressions {budget fuel : Nat} (wide : budget ≤ fuel) {turns rounds : Nat}
    (enough : turns ≤ rounds) :
    SimulatesUntil stopped spent related (expressions fuel rounds) (expressions budget turns) := by
  induction turns generalizing rounds with
  | zero => exact .fault ((byInterface_expressions fuel rounds).preserves operations.stays) _
  | succ turns ih =>
      cases rounds with
      | zero => omega
      | succ rounds =>
          rw [expressions, expressions]
          refine operations.atEnd.bind fun ended => .ite ?_ (.pure _)
          refine (simulates_rules operations wide).2.1.bind fun found => .ite ?_ ?_
          · exact operations.skipToken.bind fun _ => ih (by omega)
          · exact ih (by omega)

/-- The grammar does the same on both sides until they part, if the first side has at least the
budget of the second. -/
theorem simulatesUntil_grammar
    (budgets : ∀ left right, related left right → right.budget ≤ left.budget) :
    SimulatesUntil stopped spent related grammar grammar where
  stays := byInterface_grammar.preserves operations.stays
  spends := Preserves.get.bind fun context =>
    (simulates_expressions operations (Nat.le_refl context.budget) (Nat.le_refl _)).spends
  goes left right holds value after run := by
    rcases run_bind_ok run with ⟨_, _, read, run⟩
    cases read
    have enough := budgets left right holds
    rcases (simulates_expressions operations enough enough).goes holds run with
      ⟨reached, ran, kept⟩ | ⟨spent, apart⟩
    · exact Or.inl ⟨reached, (run_bind_of_ok rfl).trans ran, kept⟩
    · refine Or.inr ⟨spent, fun other reached ran => ?_⟩
      rcases run_bind_ok ran with ⟨_, _, read, ran⟩
      cases read
      exact apart ran

omit operations in
theorem simulates_grammar (operations : OperationsSimulate related)
    (budgets : ∀ left right, related left right → right.budget ≤ left.budget) :
    Simulates related grammar grammar :=
  simulatesUntil_false.mp (simulatesUntil_grammar operations.never budgets)

end Arithmetic

end Reparse
