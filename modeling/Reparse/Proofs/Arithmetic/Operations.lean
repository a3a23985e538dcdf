import Reparse.Proofs.Arithmetic.Ahead
import Reparse.Proofs.Arithmetic.Parts
import Reparse.Proofs.Parse.Changes
import Reparse.Proofs.Tree.Reuse

/-!
# The parsing interface at work on a whole text

What each operation of the interface does to a parse that stands at an offset
(`Arithmetic.Stands`): none of them fails, and each changes the record of events at its end or at
one event.
-/

namespace Reparse

namespace Arithmetic

open Parsing
open Event (blank wrapped)

variable {text : Text} {older ahead : Option Tree} {offset : Nat} {record : List Event}
  {context : Context}

/-- A change of the record, the notices and the number of operations leaves the parse where it
is. -/
theorem Stands.alter {scanner : Scanner} {place : Nat}
    (stands : Stands text older offset ahead record context) (events : Array Event)
    (operations : Nat) (placed : scanner.Placed text place) :
    Stands text older offset ahead events.toList
      { context with events, scanner, operations } :=
  ⟨stands.vocabulary_eq, stands.program_eq, stands.older_eq, stands.limit_eq, stands.running,
    stands.position_eq, stands.inside, ⟨place, placed⟩, stands.lookahead_eq, rfl, stands.solid⟩

theorem Stands.alterEvents (stands : Stands text older offset ahead record context)
    (events : Array Event) {after : List Event} (same : events.toList = after) :
    Stands text older offset ahead after { context with events } := by
  rcases stands.placed with ⟨place, placed⟩
  rw [← same]
  exact stands.alter events _ placed

theorem Stands.report (stands : Stands text older offset ahead record context) (notice : Notice) :
    Stands text older offset ahead record (context.report notice) := by
  rcases stands.placed with ⟨place, placed⟩
  have altered := stands.alter context.events context.operations (placed.report notice)
  rw [stands.events_eq] at altered
  exact altered

theorem Stands.tick (stands : Stands text older offset ahead record context) :
    Stands text older offset ahead record context.tick := by
  rcases stands.placed with ⟨place, placed⟩
  rw [Context.tick_of_unlimited stands.limit_eq]
  have altered := stands.alter context.events (context.operations + 1) placed
  rw [stands.events_eq] at altered
  exact altered

/-! ## Looking and consuming -/

theorem Stands.ahead_eq {token : Tree}
    (stands : Stands text older offset (some token) record context) :
    context.ahead = token.info.symbol := by
  simp [Context.ahead, stands.running, stands.lookahead_eq]

theorem Stands.peek_ahead {token : Tree}
    (stands : Stands text older offset (some token) record context) :
    peek.run context = .ok (token.info.symbol, context) := by
  rw [← stands.ahead_eq]
  exact run_peek (fill_of_lookahead stands.lookahead_eq)

/-- Looking ahead consumes the extras in front of the next token. -/
theorem Stands.peek (short : text.size < maxOffset)
    (stands : Stands text older offset ahead record context) :
    ∃ comments start token after, peek.run context = .ok (token.info.symbol, after) ∧
      Extras text offset comments start ∧
      Stands text older start (some token) (record ++ leaves comments) after := by
  rcases stands.placed with ⟨place, placed⟩
  have enough : text.size < context.budget + offset := by
    unfold Context.budget
    rw [placed.standing.text_eq]
    omega
  rcases stands.fill short enough with ⟨comments, start, token, after, filled, extras, reached⟩
  refine ⟨comments, start, token, after, ?_, extras, reached⟩
  rw [← reached.ahead_eq]
  exact run_peek filled

/-- The next token of the text, which was scanned ahead, is consumed. -/
theorem Stands.bump {token : Tree} (stands : Stands text older offset (some token) record context)
    (more : token.info.symbol ≠ endSymbol) :
    ∃ stop after, bump.run context = .ok ((), after) ∧ Scanned text offset token stop ∧
      Stands text older stop none (record ++ [.added token none 0]) after := by
  rcases stands.solid token rfl with ⟨_, stop, scanned⟩
  let notice := Notice.shifted (context.vocabulary.symbolName token.info.symbol)
  have reported := stands.report notice
  have dropped : Stands text older offset none record
      { context.report notice with lookahead := none } :=
    ⟨reported.vocabulary_eq, reported.program_eq, reported.older_eq, reported.limit_eq,
      reported.running, reported.position_eq, reported.inside, reported.placed, rfl,
      reported.events_eq, nofun⟩
  refine ⟨stop, _, ?_, scanned, dropped.consume scanned⟩
  exact run_bump_of_token (fill_of_lookahead stands.lookahead_eq) (stands.ahead_eq ▸ more)
    stands.lookahead_eq

/-! ## Recording events -/

theorem Stands.start (stands : Stands text older offset ahead record context) :
    ∃ after, start.run context = .ok (⟨record.length⟩, after) ∧
      Stands text older offset ahead (record ++ [blank]) after := by
  rcases run_start_of_record stands.events_eq with ⟨events, same, run⟩
  exact ⟨_, run, stands.alterEvents events same⟩

theorem Stands.missing (stands : Stands text older offset ahead record context) (symbol : Nat) :
    ∃ after, (missing symbol).run context = .ok ((), after) ∧
      Stands text older offset ahead
        (record ++ [.added (Tree.missing symbol (vocabulary.kind symbol)) none 0]) after := by
  rcases run_missing_of_record stands.events_eq symbol with ⟨events, same, run⟩
  rw [stands.vocabulary_eq] at same
  exact ⟨_, run, (stands.report _).alterEvents events same⟩

section Change

variable {front back : List Event} {event : Event}

theorem Stands.complete {wrapper : Option Nat} {field state : Nat} {node : Option Nat}
    (stands : Stands text older offset ahead (front ++ .opening node wrapper field state :: back)
      context) (symbol : Nat) :
    ∃ after, (complete ⟨front.length⟩ symbol).run context = .ok (⟨front.length⟩, after) ∧
      Stands text older offset ahead
        (front ++ .opening (some symbol) wrapper field state :: (back ++ [.closing])) after := by
  rcases run_complete_of_record stands.events_eq symbol with ⟨events, same, run⟩
  exact ⟨_, run, ((stands.alterEvents events same).report _).tick⟩

theorem Stands.abandon (stands : Stands text older offset ahead (front ++ [event]) context) :
    ∃ after, (abandon ⟨front.length⟩).run context = .ok ((), after) ∧
      Stands text older offset ahead front after := by
  rcases run_abandon_of_record stands.events_eq with ⟨events, same, run⟩
  exact ⟨_, run, stands.alterEvents events same⟩

theorem Stands.setState {wrapper : Option Nat} {field state : Nat} {node : Option Nat}
    (stands : Stands text older offset ahead (front ++ .opening node wrapper field state :: back)
      context) (other : Nat) :
    ∃ after, (setState ⟨front.length⟩ other).run context = .ok ((), after) ∧
      Stands text older offset ahead (front ++ .opening node wrapper field other :: back)
        after := by
  rcases run_setState_of_record stands.events_eq other with ⟨events, same, run⟩
  exact ⟨_, run, stands.alterEvents events same⟩

/-- An event that stands for a complete node. -/
def IsTop (event : Event) : Prop := event ≠ .closing ∧ wrapped none 0 event = event

theorem Stands.setField {wrapper : Option Nat} {field : Nat} (top : event ≠ .closing)
    (stands : Stands text older offset ahead (front ++ wrapped wrapper field event :: back)
      context) (other : Nat) :
    ∃ after, (setField ⟨front.length⟩ other).run context = .ok ((), after) ∧
      Stands text older offset ahead (front ++ wrapped wrapper other event :: back) after := by
  rcases run_setField_of_record top stands.events_eq other with ⟨events, same, run⟩
  exact ⟨_, run, stands.alterEvents events same⟩

theorem Stands.precede {wrapper : Option Nat} {field : Nat} (top : event ≠ .closing)
    (stands : Stands text older offset ahead (front ++ wrapped wrapper field event :: back)
      context) :
    ∃ after, (precede ⟨front.length⟩).run context =
        .ok (⟨(front ++ wrapped (some (back.length + 1)) field event :: back).length⟩, after) ∧
      Stands text older offset ahead
        (front ++ wrapped (some (back.length + 1)) field event :: (back ++ [blank])) after := by
  rcases run_precede_of_record top stands.events_eq with ⟨events, same, run⟩
  exact ⟨_, run, stands.alterEvents events same⟩

end Change

/-! ## Taking over subtrees -/

/-- What is found in an older tree for a place in a text is an operand of the text there. -/
def Reliable (text : Text) (older : Option Tree) : Prop :=
  ∀ tree, older = some tree → ∀ offset found,
    tree.findReusable text.size offset operandState = some found →
      ∃ stop, Operand text offset found stop

/-- The rest of `reuse` once a subtree was found and the token ahead was dropped. -/
theorem Stands.adopt {tree : Tree} {stop : Nat} (short : text.size < maxOffset)
    (stands : Stands text older offset none record context)
    (operand : Operand text offset tree stop) (inside : stop ≤ text.size) :
    ∃ after, (adopt tree).run context = .ok (some ⟨record.length⟩, after) ∧
      Stands text older stop none (record ++ [.added tree none 0]) after := by
  let notice := Notice.reused (context.vocabulary.symbolName tree.info.symbol)
  have reported := stands.report notice
  have reached : (context.report notice).position + tree.total = text.place stop := by
    rw [reported.position_eq, operand.part.total, Text.place_between operand.part.le]
  rcases reported.placed with ⟨place, placed⟩
  have moved : Stands text older stop none record ((context.report notice).pass tree) := by
    unfold Context.pass
    rw [reached]
    exact ⟨reported.vocabulary_eq, reported.program_eq, reported.older_eq, reported.limit_eq,
      reported.running, rfl, inside, ⟨stop, placed.reset short inside⟩, reported.lookahead_eq,
      reported.events_eq, nofun⟩
  have same : (context.events.push (.added tree none 0)).toList =
      record ++ [.added tree none 0] := by
    rw [Array.toList_push, stands.events_eq]
  have run := run_adopt context tree
  rw [← Array.length_toList, stands.events_eq] at run
  exact ⟨_, run, (moved.alterEvents _ same).tick⟩

/-- The token ahead is dropped. -/
theorem Stands.unseen (stands : Stands text older offset ahead record context) :
    Stands text older offset none record context.unseen := by
  unfold Context.unseen
  split
  · apply Stands.report
    exact ⟨stands.vocabulary_eq, stands.program_eq, stands.older_eq, stands.limit_eq,
      stands.running, stands.position_eq, stands.inside, stands.placed, rfl, stands.events_eq,
      nofun⟩
  · rename_i unread
    rw [stands.lookahead_eq, Bool.not_eq_true, Option.isSome_eq_false_iff,
      Option.isNone_iff_eq_none] at unread
    exact unread ▸ stands

theorem Stands.reusable_eq (stands : Stands text older offset ahead record context) :
    context.reusable operandState =
      older.bind fun tree => tree.findReusable text.size offset operandState := by
  rcases stands.placed with ⟨_, placed⟩
  rw [Context.reusable, if_neg (by simp [stands.running]), stands.older_eq,
    placed.standing.text_eq, stands.position_eq, Text.bytes_place]

/-- Either nothing is taken over, or an operand that stands where the parse does. -/
theorem Stands.reuse (short : text.size < maxOffset) (reliable : Reliable text older)
    (stands : Stands text older offset ahead record context) :
    (reuse operandState).run context = .ok (none, context) ∨
      ∃ tree stop after, (reuse operandState).run context = .ok (some ⟨record.length⟩, after) ∧
        Operand text offset tree stop ∧
        Stands text older stop none (record ++ [.added tree none 0]) after := by
  cases found : context.reusable operandState with
  | none => exact Or.inl (run_reuse_of_none found)
  | some tree =>
      right
      have given := stands.reusable_eq
      rw [found, eq_comm, Option.bind_eq_some_iff] at given
      rcases given with ⟨source, present, search⟩
      rcases reliable source present offset tree search with ⟨stop, operand⟩
      have inside : stop ≤ text.size := by
        rcases Tree.at_of_findReusable search with ⟨path, _, suits⟩
        have bound := operand.part.bytes_total
        have inside := suits.inside
        omega
      rcases stands.unseen.adopt short operand inside with ⟨after, run, reached⟩
      exact ⟨tree, stop, after, (run_reuse_of_reusable found).trans run, operand, reached⟩

end Arithmetic

end Reparse
