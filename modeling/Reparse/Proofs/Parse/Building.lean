import Reparse.Grammar.Arithmetic
import Reparse.Proofs.Parse.Changes
import Reparse.Proofs.Parse.Record
import Reparse.Proofs.Parse.Families

/-!
# Events fold to the tree that the calls describe

Each call of the parsing interface that is made in order succeeds, unless the scan of a token does
not end, and keeps the record of the parse with the draft (`Builds.records`). When all nodes are
closed, the record therefore folds to the trees of the draft (`Builds.fold_eq_draft`).
-/

namespace Reparse

open Event (added blank closing opening withWrapper)

variable {context after filled : Context} {draft : Draft}

/-- The record of a parse goes with a draft. -/
def Draft.Follows (draft : Draft) (context : Context) : Prop :=
  draft.Records context.vocabulary context.events.toList

/-- A call succeeds and keeps the record with the draft. -/
def Draft.Keeps (draft : Draft) (context : Context) (call : Call) : Prop :=
  ∃ handle after, call.perform.run context = .ok (handle, after) ∧
    (draft.after context call handle).Follows after

/-- A call does not end since looking ahead does not. -/
def Context.Stalls (context : Context) (call : Call) : Prop :=
  context.fill context.budget = none ∧ call.perform.run context = .error .endless

namespace Context

@[simp] theorem vocabulary_tick (context : Context) :
    context.tick.vocabulary = context.vocabulary := by
  dsimp only [tick]
  split <;> rfl

theorem vocabulary_scanToken {token : Tree} (scanned : context.scanToken = some (token, after)) :
    after.vocabulary = context.vocabulary := by
  rcases exists_of_scanToken scanned with ⟨_, _, _, _, _, rfl⟩
  exact vocabulary_tick _

/-- What is filled in are the extras. -/
theorem fill_extrasAhead {fuel : Nat} (fill : context.fill fuel = some filled) :
    filled.vocabulary = context.vocabulary ∧
      filled.events.toList =
        context.events.toList ++ (context.extrasAhead fuel).map fun tree => added tree none 0 := by
  replace fill := looksAhead_of_fill fill
  induction fill with
  | still still =>
      rw [extrasAhead_still still]
      exact ⟨rfl, (List.append_nil _).symm⟩
  | halted idle scanned halted =>
      rw [extrasAhead_halted idle scanned halted, (scanToken_same scanned).2.2.1]
      exact ⟨vocabulary_scanToken scanned, (List.append_nil _).symm⟩
  | extra idle scanned running extra _ ih =>
      rcases ih with ⟨same, record⟩
      rw [extrasAhead_extra idle scanned running extra, same, record]
      simp [Context.consume, vocabulary_scanToken scanned, (scanToken_same scanned).2.2.1]
  | solid idle scanned running solid =>
      have vocabulary := vocabulary_scanToken scanned
      have events := (scanToken_same scanned).2.2.1
      rw [extrasAhead_solid idle scanned running solid, ← events]
      exact ⟨vocabulary, (List.append_nil _).symm⟩

end Context

/-! ## Calls one by one -/

theorem run_map_of_ok {α β : Type} {program : Parsing α} {value : α} (change : α → β)
    (run : program.run context = .ok (value, after)) :
    (change <$> program).run context = .ok (change value, after) := by
  rw [StateT.run_map, run]
  rfl

theorem run_map_of_error {α β : Type} {program : Parsing α} {fault : Fault} (change : α → β)
    (run : program.run context = .error fault) :
    (change <$> program).run context = .error fault := by
  rw [StateT.run_map, run]
  rfl

namespace Draft.Follows

theorem start (follows : draft.Follows context) : draft.Keeps context .start := by
  refine ⟨.opened ⟨context.events.size⟩, context.record blank, rfl, ?_⟩
  have started := Records.start follows
  rw [Array.length_toList] at started
  unfold Draft.Follows
  simp only [Context.record, Array.toList_push, Draft.after]
  exact started

theorem missing (follows : draft.Follows context) (symbol : Nat) :
    draft.Keeps context (.missing symbol) := by
  refine ⟨.none, _, rfl, ?_⟩
  have more := Records.add follows (Tree.missing symbol (context.vocabulary.kind symbol))
  rw [Array.length_toList] at more
  unfold Draft.Follows
  simp only [Context.record, Context.report, Array.toList_push, Draft.after]
  exact more

/-- The record changes, and nothing else that matters. -/
theorem of_events {events : Array Event} {record : List Event}
    (records : draft.Records context.vocabulary record) (same : events.toList = record) :
    draft.Follows { context with events } := by
  rw [← same] at records
  exact records

theorem report (follows : draft.Follows context) (notice : Notice) :
    draft.Follows (context.report notice) := follows

/-- A token that is consumed is added. -/
theorem consume (follows : draft.Follows context) (token : Tree) (notice : Notice) :
    (draft.add context.events.size token).Follows
      (({ context.report notice with lookahead := none } : Context).consume token) := by
  have added := Records.add follows token
  rw [Array.length_toList, ← Array.toList_push] at added
  exact added

theorem tick (follows : draft.Follows context) : draft.Follows context.tick := by
  rw [Draft.Follows, Context.vocabulary_tick, Context.events_tick]
  exact follows

theorem complete_innermost (follows : draft.Follows context) {level : Level} {rest : List Level}
    (around : draft.around = level :: rest) (symbol : Nat) :
    ∃ after, (Parsing.complete ⟨level.name⟩ symbol).run context = .ok (⟨level.name⟩, after) ∧
      ((draft.complete symbol).hold ⟨level.name⟩).Follows after := by
  have found := Records.opened follows around
  rw [Array.getElem?_toList] at found
  have same : ((context.events.setIfInBounds level.name
      (opening (some symbol) none 0 noState)).push closing).toList =
      context.events.toList.set level.name (opening (some symbol) none 0 noState) ++ [closing] := by
    simp
  have completed := of_events (Records.complete follows around symbol) same
  refine ⟨_, Parsing.run_complete_record found context symbol, ?_⟩
  rw [Context.completed, ← Context.tick_record]
  exact (completed.report (.completed (context.vocabulary.symbolName symbol))).tick

theorem complete (follows : draft.Follows context) {node : OpenNode} {symbol : Nat}
    (allowed : draft.Allows (.complete node symbol)) :
    draft.Keeps context (.complete node symbol) := by
  rcases allowed with ⟨level, rest, around, named⟩
  obtain rfl : node = ⟨level.name⟩ := by simp [named]
  rcases follows.complete_innermost around symbol with ⟨after, run, kept⟩
  exact ⟨_, after, run_map_of_ok _ run, kept⟩

theorem abandon (follows : draft.Follows context) {node : OpenNode}
    (allowed : draft.Allows (.abandon node)) : draft.Keeps context (.abandon node) := by
  rcases allowed with ⟨level, rest, around, named, plain⟩
  have left := Records.abandon follows around plain
  rw [named, Array.length_toList] at left
  refine ⟨_, _, run_map_of_ok _ (Parsing.run_abandon_record context _ _), ?_⟩
  split
  · rename_i last
    rw [if_pos last] at left
    exact of_events left Array.toList_pop
  · rename_i further
    rw [if_neg further] at left
    exact left

theorem precede (follows : draft.Follows context) {node : CompleteNode}
    (allowed : draft.Allows (.precede node)) : draft.Keeps context (.precede node) := by
  rcases allowed with ⟨held, direct⟩
  rcases Records.precede follows held direct with ⟨event, found, isNode, preceded⟩
  rw [Array.length_toList] at preceded
  rw [Array.getElem?_toList] at found
  have inside := (Array.getElem?_eq_some_iff.mp found).1
  have same : ((context.events.push blank).setIfInBounds node.place
      (withWrapper (some (context.events.size - node.place)) event)).toList =
      context.events.toList.set node.place
        (withWrapper (some (context.events.size - node.place)) event) ++ [blank] := by
    rw [Array.toList_setIfInBounds, Array.toList_push,
      List.set_append_left _ _ (by simpa using inside)]
  have run := Parsing.run_precede_record found isNode.ne_closing context
  exact ⟨_, _, run_map_of_ok _ run, of_events preceded same⟩

theorem setField (follows : draft.Follows context) {node : CompleteNode} {field : Nat}
    (held : node ∈ draft.held) : draft.Keeps context (.setField node field) := by
  rcases Records.retag follows held with ⟨event, isNode, found, retagged⟩
  rw [Array.getElem?_toList] at found
  have tagged := retagged ⟨field, (draft.tags node.place).state⟩
  rw [← isNode.withField_dressed] at tagged
  have run := Parsing.run_setField_record found (isNode.dressed _).ne_closing context field
  exact ⟨_, _, run_map_of_ok _ run, of_events tagged (Array.toList_setIfInBounds ..)⟩

theorem setState (follows : draft.Follows context) {node : CompleteNode} {state : Nat}
    (held : node ∈ draft.held) : draft.Keeps context (.setState node state) := by
  rcases Records.retag follows held with ⟨event, isNode, found, retagged⟩
  rw [Array.getElem?_toList] at found
  have tagged := retagged ⟨(draft.tags node.place).field, state⟩
  rw [← isNode.withState_dressed] at tagged
  have run := Parsing.run_setState_record found context state
  exact ⟨_, _, run_map_of_ok _ run, of_events tagged (Array.toList_setIfInBounds ..)⟩

/-- The rest of `reuse` once a subtree was found and the token ahead was dropped. -/
theorem adopt (follows : draft.Follows context) (tree : Tree) :
    ∃ after, (Parsing.adopt tree).run context = .ok (some ⟨context.events.size⟩, after) ∧
      ((draft.add context.events.size tree).hold ⟨context.events.size⟩).Follows after := by
  have held := Records.addHeld follows tree
  rw [Array.length_toList, ← Array.toList_push] at held
  exact ⟨_, Parsing.run_adopt context tree, Follows.tick held⟩

theorem unseen (follows : draft.Follows context) : draft.Follows context.unseen := by
  unfold Context.unseen
  split
  · exact follows
  · exact follows

theorem run_reuse_of_some (follows : draft.Follows context) {state : Nat} {tree : Tree}
    (found : context.reusable state = some tree) :
    ∃ after, (Parsing.reuse state).run context = .ok (some ⟨context.events.size⟩, after) ∧
      ((draft.add context.events.size tree).hold ⟨context.events.size⟩).Follows after := by
  rw [Parsing.run_reuse_of_reusable found, ← Context.events_unseen]
  exact follows.unseen.adopt tree

theorem reuse (follows : draft.Follows context) (state : Nat) :
    draft.Keeps context (.reuse state) := by
  cases found : context.reusable state with
  | none => exact ⟨.none, context, run_map_of_ok _ (Parsing.run_reuse_of_none found), follows⟩
  | some tree =>
      rcases follows.run_reuse_of_some found with ⟨after, run, kept⟩
      refine ⟨_, after, run_map_of_ok _ run, ?_⟩
      simp only [Option.elim, Draft.after, found]
      exact kept

end Draft.Follows

/-! ## Calls that scan -/

namespace Context

theorem nextToken_of_end (fill : context.fill context.budget = some filled)
    (ends : filled.ahead = endSymbol) : context.nextToken = none := by
  simp [nextToken, fill, ends]

theorem nextToken_of_token (fill : context.fill context.budget = some filled)
    (more : filled.ahead ≠ endSymbol) : context.nextToken = filled.lookahead := by
  simp [nextToken, fill, more]

end Context

theorem Draft.addAll_append (left right : List Tree) (name : Nat) :
    draft.addAll name (left ++ right) =
      (draft.addAll name left).addAll (name + left.length) right := by
  induction left generalizing draft name with
  | nil => rfl
  | cons tree rest ih => simp [Draft.addAll, ih, Nat.add_assoc, Nat.add_comm 1]

namespace Draft.Follows

/-- Looking ahead takes in the extras. -/
theorem fill (follows : draft.Follows context)
    (filling : context.fill context.budget = some filled) :
    filled.events.size = context.events.size + context.extras.length ∧
      (draft.addAll context.events.size context.extras).Follows filled := by
  rcases Context.fill_extrasAhead filling with ⟨vocabulary, events⟩
  have more := Records.addAll follows context.extras
  rw [Array.length_toList] at more
  constructor
  · rw [← Array.length_toList, events]
    simp [Context.extras]
  · rw [Draft.Follows, vocabulary, events]
    exact more

theorem peek (follows : draft.Follows context) :
    draft.Keeps context .peek ∨ context.Stalls .peek := by
  cases filling : context.fill context.budget with
  | none => exact Or.inr ⟨filling, run_map_of_error _ (Parsing.run_peek_endless filling)⟩
  | some filled =>
      left
      exact ⟨_, filled, run_map_of_ok _ (Parsing.run_peek filling), (follows.fill filling).2⟩

theorem bump (follows : draft.Follows context) :
    draft.Keeps context .bump ∨ context.Stalls .bump := by
  cases filling : context.fill context.budget with
  | none => exact Or.inr ⟨filling, run_map_of_error _ (Parsing.run_bind_endless filling)⟩
  | some filled =>
      left
      rcases follows.fill filling with ⟨size, seen⟩
      by_cases ends : filled.ahead = endSymbol
      · refine ⟨_, filled, run_map_of_ok _ (Parsing.run_bump_of_end filling ends), ?_⟩
        simpa [Draft.after, Context.nextToken_of_end filling ends] using seen
      · rcases Parsing.lookahead_of_ahead ends with ⟨token, ahead⟩
        have kept := seen.consume token
          (.shifted (filled.vocabulary.symbolName token.info.symbol))
        refine ⟨_, _, run_map_of_ok _ (Parsing.run_bump_of_token filling ends ahead), ?_⟩
        simp only [Draft.after, Context.nextToken_of_token filling ends, ahead, Option.toList_some,
          Draft.addAll_append, Draft.addAll]
        rw [← size]
        exact kept

theorem skipToken (follows : draft.Follows context) :
    draft.Keeps context .skipToken ∨ context.Stalls .skipToken := by
  cases filling : context.fill context.budget with
  | none => exact Or.inr ⟨filling, run_map_of_error _ (Parsing.run_bind_endless filling)⟩
  | some filled =>
      left
      rcases follows.fill filling with ⟨size, seen⟩
      by_cases ends : filled.ahead = endSymbol
      · have run : Parsing.skipToken.run context = .ok ((), filled) := by
          refine (Parsing.run_bind_of_ok (Parsing.run_peek filling)).trans ?_
          rw [if_neg (by simp [ends])]
          rfl
        refine ⟨_, filled, run_map_of_ok _ run, ?_⟩
        simpa [Draft.after, Context.nextToken_of_end filling ends] using seen
      · rcases Parsing.lookahead_of_ahead ends with ⟨token, ahead⟩
        let notice := Notice.skipped (filled.vocabulary.symbolName filled.ahead)
        let opened := (filled.report notice).record blank
        have started : ((draft.addAll context.events.size context.extras).start
            ⟨filled.events.size⟩).Follows opened := by
          have started := Records.start seen
          rw [Array.length_toList, ← Array.toList_push] at started
          exact started
        have again : opened.fill opened.budget = some opened :=
          Parsing.fill_of_lookahead (show opened.lookahead = some token from ahead)
        have bumped := Parsing.run_bump_of_token again ends ahead
        have added := started.consume token
          (.shifted (opened.vocabulary.symbolName token.info.symbol))
        rcases added.complete_innermost rfl errorSymbol with ⟨after, completed, kept⟩
        have run : Parsing.skipToken.run context = .ok ((), after) := by
          refine (Parsing.run_bind_of_ok (Parsing.run_peek filling)).trans ?_
          rw [if_pos ends]
          refine (Parsing.run_bind_of_ok rfl).trans ?_
          refine (Parsing.run_bind_of_ok rfl).trans ?_
          refine (Parsing.run_bind_of_ok rfl).trans ?_
          refine (Parsing.run_bind_of_ok bumped).trans ?_
          exact Parsing.run_discard_of_ok completed
        refine ⟨_, after, run_map_of_ok _ run, ?_⟩
        simp only [Draft.after, Context.nextToken_of_token filling ends, ahead]
        rw [← size]
        have wider : opened.events.size = filled.events.size + 1 := by
          simp [opened, Context.record, Context.report]
        rw [wider] at kept
        exact Records.release kept

theorem call (follows : draft.Follows context) {call : Call} (allowed : draft.Allows call) :
    draft.Keeps context call ∨ context.Stalls call := by
  cases call with
  | start => exact Or.inl follows.start
  | complete node symbol => exact Or.inl (follows.complete allowed)
  | abandon node => exact Or.inl (follows.abandon allowed)
  | precede node => exact Or.inl (follows.precede allowed)
  | peek => exact follows.peek
  | bump => exact follows.bump
  | missing symbol => exact Or.inl (follows.missing symbol)
  | skipToken => exact follows.skipToken
  | reuse state => exact Or.inl (follows.reuse state)
  | setField node field => exact Or.inl (follows.setField allowed)
  | setState node state => exact Or.inl (follows.setState allowed)

end Draft.Follows

/-- When all nodes are closed, the record folds to the trees of the draft. -/
theorem Draft.Follows.fold (follows : draft.Follows context) (closed : draft.around = []) :
    Event.fold? context.vocabulary context.events =
      .ok (Sketch.edges context.vocabulary draft.tags draft.inner) := by
  rcases follows with ⟨skeleton, record, fits⟩
  have lies := fits.lies
  rw [closed] at lies
  cases lies with
  | outside laid =>
      apply Event.Yields.fold
      rw [record]
      exact laid.yields draft.tags

/-- The token that ends the tree may add a leaf, but opens and closes no node. -/
theorem Draft.Follows.lastToken (follows : draft.Follows context) :
    ∃ last : Draft, last.Follows context.lastToken.2 ∧ last.around = draft.around := by
  unfold Context.lastToken
  split
  · exact ⟨draft, follows, rfl⟩
  · dsimp only
    split
    · have added := Draft.Records.add follows (Tree.unexpected none Extent.zero
        (((context.scanner.reset context.position).skipToEnd).position - context.position) 0)
      rw [Array.length_toList, ← Array.toList_push] at added
      exact ⟨_, added, rfl⟩
    · exact ⟨draft, follows, rfl⟩

/-- When all nodes are closed, the leaves are those of the parts outside of all nodes. -/
theorem Draft.leaves_of_closed (closed : draft.around = []) :
    draft.leaves = Sketch.leavesAmong draft.inner := by
  rw [Draft.leaves, closed, Draft.leavesAround, List.nil_append]

/-! ## Sequences of calls -/

theorem Builds.follows (builds : Builds context draft) : draft.Follows context := by
  induction builds with
  | begin fresh =>
      rw [Draft.Follows, fresh]
      exact Draft.Records.empty
  | call _ allowed run ih =>
      rcases ih.call allowed with ⟨handle, after, succeeds, kept⟩ | ⟨_, endless⟩
      · rw [run] at succeeds
        cases succeeds
        exact kept
      · rw [run] at endless
        cases endless

/-- A call that is made in order succeeds unless the scan of a token does not end. When all nodes
are closed, the events fold to the trees that the draft describes: each leaf that was consumed comes
out once, in its order, every node stands in the field that was set last and carries the state that
was set last, and error nodes carry neither a state nor fields. -/
theorem Builds.fold_eq_draft (builds : Builds context draft) :
    (∀ call, draft.Allows call →
      (∃ handle after, call.perform.run context = .ok (handle, after)) ∨
        call.perform.run context = .error .endless) ∧
    (draft.around = [] →
      Event.fold? context.vocabulary context.events =
          .ok (Sketch.edges context.vocabulary draft.tags draft.inner) ∧
        Sketch.leavesAmong draft.inner = draft.consumed) ∧
    ∀ name parts,
      ((Sketch.node name errorSymbol parts).tree context.vocabulary draft.tags).info.state =
          noState ∧
        ∀ edge ∈ ((Sketch.node name errorSymbol parts).tree context.vocabulary
          draft.tags).children, edge.field = 0 := by
  have follows := builds.follows
  refine ⟨?_, ?_, fun name parts => Sketch.tree_error name parts⟩
  · intro call allowed
    rcases follows.call allowed with ⟨handle, after, run, _⟩ | ⟨_, endless⟩
    · exact Or.inl ⟨handle, after, run⟩
    · exact Or.inr endless
  · intro closed
    have leaves := builds.leaves
    rw [Draft.leaves_of_closed closed] at leaves
    exact ⟨follows.fold closed, leaves⟩

/-- A missing number is made an expression, and this the left operand of a sum. -/
theorem fold_eq_draft_sum :
    ∃ context draft, Builds context draft ∧ draft.around = [] ∧ draft.consumed.length = 2 ∧
      Event.fold? context.vocabulary context.events =
        .ok (Sketch.edges context.vocabulary draft.tags draft.inner) ∧
      Sketch.leavesAmong draft.inner = draft.consumed := by
  have begun : Builds (Context.new Arithmetic.vocabulary Arithmetic.program #[] [] none 0)
    Draft.empty := .begin rfl
  have started := @Builds.call _ _ _ .start _ begun trivial rfl
  have missing := @Builds.call _ _ _ (.missing Arithmetic.number) _ started trivial rfl
  have operand := @Builds.call _ _ _ (.complete ⟨0⟩ Arithmetic.expressionSymbol) _ missing
    ⟨_, _, rfl, rfl⟩ rfl
  have left := @Builds.call _ _ _ (.setField ⟨0⟩ Arithmetic.leftField) _ operand
    List.mem_cons_self rfl
  have wrapped := @Builds.call _ _ _ (.precede ⟨0⟩) _ left
    ⟨List.mem_cons_self, _, List.mem_cons_self, rfl⟩ rfl
  have right := @Builds.call _ _ _ (.missing Arithmetic.number) _ wrapped trivial rfl
  have sum := @Builds.call _ _ _ (.complete ⟨3⟩ Arithmetic.sum) _ right ⟨_, _, rfl, rfl⟩ rfl
  rcases sum.fold_eq_draft.2.1 rfl with ⟨folded, leaves⟩
  exact ⟨_, _, sum, rfl, rfl, folded, leaves⟩

end Reparse
