import Reparse.Proofs.Arithmetic.NodeTypes
import Reparse.Proofs.Arithmetic.Run
import Reparse.Proofs.Parse.Forward

/-!
# Records that keep to the node types

A stretch of the record of a parse is told by the labels of the trees that it comes to, all of which
keep to the node types (`Arithmetic.Piece`). An expression in the record may still be given a field
and a wrapper (`Arithmetic.ExpressionStem`).

Wherever a parse stands, with whatever limit, a call of the interface adds such stretches to its
record (`Arithmetic.Recorded`): comments when it looks ahead, the token that was seen when this is
consumed, and an expression when a subtree is taken over.
-/

namespace Reparse

namespace Arithmetic

open Parsing
open Event (Stem Yields blank wrapped)
open Tree (Among)

variable {context after next : Context} {record block front back : List Event} {top : Event}
  {labels : List (Nat × Nat)} {allowed : Nat × Nat → Prop}

/-! ## Stretches of the record -/

/-- A stretch of the record comes to trees with the labels that keep to the node types. -/
def Piece (block : List Event) (labels : List (Nat × Nat)) : Prop :=
  ∃ items, Yields vocabulary block items ∧ Among Typed items ∧ items.map Edge.label = labels

theorem piece_nil : Piece [] [] := ⟨[], Event.yields_nil, Tree.among_nil, rfl⟩

theorem piece_added {token : Tree} (typed : Typed token) :
    Piece [.added token none 0] [(0, token.info.symbol)] :=
  ⟨[⟨0, token⟩], Event.yields_added token 0, Tree.among_cons.mpr ⟨typed, Tree.among_nil⟩, rfl⟩

theorem Piece.append {left right : List Event} {first second : List (Nat × Nat)}
    (before : Piece left first) (behind : Piece right second) :
    Piece (left ++ right) (first ++ second) := by
  rcases before with ⟨items, yields, typed, rfl⟩
  rcases behind with ⟨others, yieldsOthers, typedOthers, rfl⟩
  exact ⟨items ++ others, yields.append yieldsOthers, Tree.among_append.mpr ⟨typed, typedOthers⟩,
    List.map_append⟩

/-- A stretch of the record comes to comments. -/
def Comments (block : List Event) : Prop := ∃ count, Piece block (List.replicate count (0, comment))

/-- A stretch of the record comes to trees with allowed labels. -/
def Pieces (allowed : Nat × Nat → Prop) (block : List Event) : Prop :=
  ∃ labels, Piece block labels ∧ ∀ label ∈ labels, allowed label

theorem Pieces.append {left right : List Event} (before : Pieces allowed left)
    (behind : Pieces allowed right) : Pieces allowed (left ++ right) := by
  rcases before with ⟨first, piece, fine⟩
  rcases behind with ⟨second, other, fineToo⟩
  exact ⟨_, piece.append other, List.forall_mem_append.mpr ⟨fine, fineToo⟩⟩

theorem Pieces.mono {wider : Nat × Nat → Prop} (pieces : Pieces allowed block)
    (weaken : ∀ label, allowed label → wider label) : Pieces wider block := by
  rcases pieces with ⟨labels, piece, fine⟩
  exact ⟨labels, piece, fun label member => weaken label (fine label member)⟩

theorem Piece.single {label : Nat × Nat} (piece : Piece block [label]) (fine : allowed label) :
    Pieces allowed block :=
  ⟨_, piece, by simpa using fine⟩

theorem Comments.pieces (comments : Comments block) (fine : allowed (0, comment)) :
    Pieces allowed block := by
  rcases comments with ⟨count, piece⟩
  exact ⟨_, piece, fun label member => List.eq_of_mem_replicate member ▸ fine⟩

/-- The label of a tree outside of all expressions. -/
def IsItem (label : Nat × Nat) : Prop :=
  label.2 = errorSymbol ∨ label = (0, comment) ∨ label = (0, expressionSymbol)

theorem isPart_comment : IsPart (0, comment) := .inr (.inr (.inl rfl))

/-- What the node type of an expression lists in no field may stand in an expression. -/
theorem isPart_of_listed {symbol : Nat}
    (listed : symbol ∈ [leftParenthesis, rightParenthesis, number, variableName, expressionSymbol,
      sum]) : IsPart (0, symbol) :=
  .inr (.inr (.inr ⟨_, rfl, listed⟩))

theorem IsItem.isPart {label : Nat × Nat} (item : IsItem label) : IsPart label := by
  rcases item with error | rfl | rfl
  · exact .inr (.inl error)
  · exact isPart_comment
  · exact isPart_of_listed (by decide)

/-! ## Complete expressions in the record -/

/-- A stem of an expression that keeps to the node types. -/
def ExpressionStem (front : List Event) (top : Event) (back : List Event) : Prop :=
  IsTop top ∧ ∃ tree, Stem vocabulary front top back tree ∧ Typed tree ∧
    tree.info.symbol = expressionSymbol

theorem ExpressionStem.piece (expression : ExpressionStem front top back) (field : Nat) :
    Piece (front ++ wrapped none field top :: back) [(field, expressionSymbol)] := by
  rcases expression with ⟨_, tree, stem, typed, same⟩
  exact ⟨_, stem.yields field, Tree.among_cons.mpr ⟨typed, Tree.among_nil⟩,
    by simp [Edge.label, same]⟩

theorem ExpressionStem.piece_plain (expression : ExpressionStem front top back) :
    Piece (front ++ top :: back) [(0, expressionSymbol)] := by
  have piece := expression.piece 0
  rw [expression.1.2] at piece
  exact piece

/-- What is completed around the parts of an expression is one. -/
theorem Pieces.expressionStem (parts : Pieces IsPart block) (state : Nat) :
    ExpressionStem [] (.opening (some expressionSymbol) none 0 state) (block ++ [.closing]) := by
  rcases parts with ⟨labels, ⟨items, yields, typed, rfl⟩, fine⟩
  have stem := Event.stem_opening expressionSymbol state yields
  rw [built_eq_branch (by decide)] at stem
  exact ⟨isTop_opening _ _, _, stem,
    typed_expression typed (List.forall_mem_map.mp fine) state, rfl⟩

/-- A subtree that may be used again is an expression. -/
theorem expressionStem_added {tree : Tree} (typed : Typed tree)
    (state : tree.info.state = operandState) : ExpressionStem [] (.added tree none 0) [] :=
  ⟨⟨nofun, rfl⟩, tree, Event.stem_added tree, typed, typed.info.operand state⟩

theorem piece_missing {symbol : Nat} (own : symbol < comment) :
    Piece [.added (Tree.missing symbol (vocabulary.kind symbol)) none 0] [(0, symbol)] :=
  piece_added (typed_missing own)

theorem expressionStem_missing : ExpressionStem [] missingTop missingBack :=
  ((piece_missing (by decide : number < comment)).single
    (isPart_of_listed (by decide))).expressionStem noState

theorem typed_sumTree {items : List (Edge Tree)} (typed : Among Typed items)
    (labels : IsSum (items.map Edge.label)) : Typed (sumTree items) := by
  refine typed_expression (Tree.among_cons.mpr ⟨typed_sum typed labels, Tree.among_nil⟩) ?_ noState
  intro edge member
  rw [List.mem_singleton.mp member]
  exact isPart_of_listed (show sum ∈ _ by decide)

/-- A sum in an expression of its own is an expression. -/
theorem ExpressionStem.sum {mid inner : List Event} {count : Nat}
    (left : ExpressionStem front top back) (between : Comments mid)
    (addend : Piece inner ((0, plus) ::
      (List.replicate count (0, comment) ++ [(rightField, expressionSymbol)]))) :
    ExpressionStem
      (front ++ wrapped (some (back.length + 1 + mid.length)) leftField top :: back ++ mid ++
        wrapped (some ((inner ++ [Event.closing]).length + 1)) 0
          (.opening (some Arithmetic.sum) none 0 noState) :: (inner ++ [.closing]))
      (.opening (some expressionSymbol) none 0 noState) [.closing] := by
  rcases left with ⟨_, tree, stem, typed, same⟩
  rcases between with ⟨before, comments, yieldsComments, typedComments, areComments⟩
  rcases addend with ⟨items, yields, typedItems, labels⟩
  have inSum := stem.wrap (yieldsComments.gap yields) Arithmetic.sum noState leftField
  have whole := inSum.wrap (Event.yields_nil.gap Event.yields_nil) expressionSymbol noState 0
  rw [built_eq_branch (by decide), built_eq_branch (by decide), List.append_nil] at whole
  have all : Among Typed (⟨leftField, tree⟩ :: (comments ++ items)) :=
    Tree.among_cons.mpr ⟨typed, Tree.among_append.mpr ⟨typedComments, typedItems⟩⟩
  refine ⟨isTop_opening _ _, _, whole, typed_sumTree all ⟨before, count, ?_⟩, rfl⟩
  simp [Edge.label, same, areComments, labels]

/-! ## The interface -/

/-- A parse in the arithmetic language has recorded the events. The token ahead and all that can be
taken over keep to the node types. -/
structure Recorded (record : List Event) (context : Context) : Prop where
  vocabulary_eq : context.vocabulary = vocabulary
  program_eq : context.program = program
  events_eq : context.events.toList = record
  ahead : ∀ token, context.lookahead = some token → Typed token
  older : ∀ tree, context.older = some tree → tree.Lends Typed

namespace Recorded

open Context (SameView)

theorem of_sameView {other : List Event} (recorded : Recorded record context)
    (same : context.SameView after) (events : after.events.toList = other) :
    Recorded other after where
  vocabulary_eq := same.vocabulary_eq.trans recorded.vocabulary_eq
  program_eq := same.program_eq.trans recorded.program_eq
  events_eq := events
  ahead := by
    rw [same.lookahead_eq]
    exact recorded.ahead
  older := by
    rw [same.older_eq]
    exact recorded.older

theorem scan {token : Tree} (recorded : Recorded record context)
    (scanned : context.scanToken = some (token, next)) :
    Typed token ∧ Recorded record next := by
  rcases Context.scanToken_same scanned with ⟨_, _, events, lookahead, older⟩
  refine ⟨typed_of_scan recorded.vocabulary_eq recorded.program_eq scanned, ?_⟩
  constructor
  · exact (Context.vocabulary_scanToken scanned).trans recorded.vocabulary_eq
  · exact (Context.scanToken_program scanned).trans recorded.program_eq
  · rw [events]
    exact recorded.events_eq
  · rw [lookahead]
    exact recorded.ahead
  · rw [older]
    exact recorded.older

theorem consume {token : Tree} (recorded : Recorded record context) :
    Recorded (record ++ [.added token none 0]) (context.consume token) :=
  ⟨recorded.vocabulary_eq, recorded.program_eq, by simp [Context.consume, recorded.events_eq],
    recorded.ahead, recorded.older⟩

/-- Looking ahead records comments. -/
theorem fill {fuel : Nat} (recorded : Recorded record context)
    (filled : context.fill fuel = some after) :
    ∃ block, Comments block ∧ Recorded (record ++ block) after := by
  replace filled := Context.looksAhead_of_fill filled
  induction filled generalizing record with
  | still => exact ⟨[], ⟨0, piece_nil⟩, by simpa using recorded⟩
  | halted _ scanned _ => exact ⟨[], ⟨0, piece_nil⟩, by simpa using (recorded.scan scanned).2⟩
  | @extra _ _ _ _ token _ scanned _ extra _ ih =>
      rcases recorded.scan scanned with ⟨typed, reached⟩
      rcases ih reached.consume with ⟨block, ⟨count, piece⟩, last⟩
      have first := piece_added typed
      rw [typed.info.extra.mp extra] at first
      exact ⟨_, ⟨count + 1, first.append piece⟩, by simpa using last⟩
  | solid _ scanned _ _ =>
      rcases recorded.scan scanned with ⟨typed, reached⟩
      refine ⟨[], ⟨0, piece_nil⟩, ?_⟩
      rw [List.append_nil]
      refine ⟨reached.vocabulary_eq, reached.program_eq, reached.events_eq, ?_, reached.older⟩
      intro token same
      cases same
      exact typed

theorem peek (recorded : Recorded record context) :
    Ensures Parsing.peek context fun symbol after =>
      after.ahead = symbol ∧ ∃ block, Comments block ∧ Recorded (record ++ block) after := by
  intro symbol after run
  cases filling : context.fill context.budget with
  | none =>
      rw [run_peek_endless filling] at run
      cases run
  | some filled =>
      rw [run_peek filling] at run
      cases run
      exact ⟨rfl, recorded.fill filling⟩

theorem at? (recorded : Recorded record context) (symbol : Nat) :
    Ensures (Parsing.at? symbol) context fun answer after =>
      (answer = true ↔ after.ahead = symbol) ∧
        ∃ block, Comments block ∧ Recorded (record ++ block) after := by
  refine recorded.peek.bind fun found between ⟨ahead, reached⟩ => .pure ⟨?_, reached⟩
  rw [ahead, beq_iff_eq]

/-- The token ahead is recorded if it is not the end of the input. -/
theorem bump (recorded : Recorded record context) (more : context.ahead ≠ endSymbol) :
    Ensures Parsing.bump context fun _ after =>
      ∃ block, Piece block [(0, context.ahead)] ∧ Recorded (record ++ block) after := by
  rcases lookahead_of_ahead more with ⟨token, ahead⟩
  refine .of_run (run_bump_of_token (fill_of_lookahead ahead) more ahead)
    ⟨[.added token none 0], ?_, ?_⟩
  · rw [Context.symbol_of_ahead (Context.running_of_ahead more) ahead]
    exact piece_added (recorded.ahead token ahead)
  · exact consume ⟨recorded.vocabulary_eq, recorded.program_eq, recorded.events_eq, nofun,
      recorded.older⟩

theorem start (recorded : Recorded record context) :
    Ensures Parsing.start context fun node after =>
      node = ⟨record.length⟩ ∧ after.ahead = context.ahead ∧
        Recorded (record ++ [blank]) after := by
  rcases run_start_of_record recorded.events_eq with ⟨events, same, run⟩
  exact .of_run run ⟨rfl, rfl, recorded.of_sameView (.withEvents _ _) same⟩

theorem missing (recorded : Recorded record context) (symbol : Nat) :
    Ensures (Parsing.missing symbol) context fun _ after =>
      Recorded (record ++ [.added (Tree.missing symbol (vocabulary.kind symbol)) none 0])
        after := by
  rcases run_missing_of_record recorded.events_eq symbol with ⟨events, same, run⟩
  rw [recorded.vocabulary_eq] at same
  exact .of_run run (recorded.of_sameView (.trans (.report _ _) (.withEvents _ _)) same)

theorem complete {wrapper : Option Nat} {field state : Nat} {node : Option Nat}
    (recorded : Recorded (front ++ .opening node wrapper field state :: back) context)
    (symbol : Nat) :
    Ensures (Parsing.complete ⟨front.length⟩ symbol) context fun done after =>
      done = ⟨front.length⟩ ∧
        Recorded (front ++ .opening (some symbol) wrapper field state :: (back ++ [.closing]))
          after := by
  rcases run_complete_of_record recorded.events_eq symbol with ⟨events, same, run⟩
  refine .of_run run ⟨rfl, recorded.of_sameView ((sameView_complete _ _).sameView run) ?_⟩
  rw [Context.events_tick]
  exact same

theorem abandon {event : Event} (recorded : Recorded (front ++ [event]) context) :
    Ensures (Parsing.abandon ⟨front.length⟩) context fun _ after => Recorded front after := by
  rcases run_abandon_of_record recorded.events_eq with ⟨events, same, run⟩
  exact .of_run run (recorded.of_sameView (.withEvents _ _) same)

theorem setState {wrapper : Option Nat} {field state : Nat} {node : Option Nat}
    (recorded : Recorded (front ++ .opening node wrapper field state :: back) context)
    (other : Nat) :
    Ensures (Parsing.setState ⟨front.length⟩ other) context fun _ after =>
      Recorded (front ++ .opening node wrapper field other :: back) after := by
  rcases run_setState_of_record recorded.events_eq other with ⟨events, same, run⟩
  exact .of_run run (recorded.of_sameView (.withEvents _ _) same)

theorem setField {wrapper : Option Nat} {field : Nat} (plain : top ≠ .closing)
    (recorded : Recorded (front ++ wrapped wrapper field top :: back) context) (other : Nat) :
    Ensures (Parsing.setField ⟨front.length⟩ other) context fun _ after =>
      after.ahead = context.ahead ∧
        Recorded (front ++ wrapped wrapper other top :: back) after := by
  rcases run_setField_of_record plain recorded.events_eq other with ⟨events, same, run⟩
  exact .of_run run ⟨rfl, recorded.of_sameView (.withEvents _ _) same⟩

theorem precede {wrapper : Option Nat} {field : Nat} (plain : top ≠ .closing)
    (recorded : Recorded (front ++ wrapped wrapper field top :: back) context) :
    Ensures (Parsing.precede ⟨front.length⟩) context fun node after =>
      node = ⟨(front ++ wrapped (some (back.length + 1)) field top :: back).length⟩ ∧
        after.ahead = context.ahead ∧
        Recorded (front ++ wrapped (some (back.length + 1)) field top :: (back ++ [blank]))
          after := by
  rcases run_precede_of_record plain recorded.events_eq with ⟨events, same, run⟩
  exact .of_run run ⟨rfl, rfl, recorded.of_sameView (.withEvents _ _) same⟩

/-- What is taken over is an expression. -/
theorem reuse (recorded : Recorded record context) :
    Ensures (Parsing.reuse operandState) context fun found after =>
      found = none ∧ after = context ∨
        ∃ tree, found = some ⟨record.length⟩ ∧ ExpressionStem [] (.added tree none 0) [] ∧
          Recorded (record ++ [.added tree none 0]) after := by
  intro found after run
  rcases run_reuse_ok run with nothing | ⟨tree, seen, rfl, reusable, same, passed, events⟩
  · exact .inl nothing
  · right
    rcases exists_of_reusable reusable with ⟨_, older, present, search⟩
    rcases Tree.at_of_findReusable search with ⟨_, _, suits⟩
    have size : context.events.size = record.length := by
      rw [← recorded.events_eq, Array.length_toList]
    have stem := expressionStem_added (recorded.older older present search) suits.state_eq
    refine ⟨tree, by rw [size], stem, ?_⟩
    have dropped : Recorded record { context with lookahead := none } :=
      ⟨recorded.vocabulary_eq, recorded.program_eq, recorded.events_eq, nofun, recorded.older⟩
    have before := dropped.of_sameView same rfl
    have moved : Recorded seen.events.toList (seen.pass tree) :=
      ⟨before.vocabulary_eq, before.program_eq, rfl, before.ahead, before.older⟩
    refine moved.of_sameView passed ?_
    rw [events, Array.toList_push, recorded.events_eq]

end Recorded

end Arithmetic

end Reparse
