import Reparse.Grammar.Arithmetic
import Reparse.Grammar.Script
import Reparse.Proofs.Scanner.Runs

/-!
# Grammars go by the interface

A grammar is any program over the state of a parse; the promises of the parser hold for those that
touch the state through the operations of the interface only (`Parsing.ByInterface`). The arithmetic
grammar and all scripted ones do.

What every operation of the interface keeps, such a grammar keeps (`ByInterface.preserves`).

Two runs of one grammar are compared by a relation between their states that every operation keeps
(`Simulates`), or keeps until the runs part for good (`SimulatesUntil`).
-/

namespace Reparse

/-! ## Scans -/

namespace Context

variable {context : Context}

theorem tick_of_unlimited (unlimited : context.limit = 0) :
    context.tick = { context with operations := context.operations + 1 } := by
  simp [tick, unlimited]

theorem scanToken_of_none
    (run : context.program.run (context.scanner.reset context.position).start = none) :
    context.scanToken = none := by
  simp only [scanToken, run]

/-- The token that a scan leads to, and the scanner behind it: what the program found, the end of the
input, or a character that was not expected. -/
def tokenOf (vocabulary : Vocabulary) (found : Bool) (scanner : Scanner) (start : Extent) :
    Tree × Scanner :=
  if found then foundToken vocabulary scanner start
  else if scanner.atEnd ∧ scanner.position.bytes = scanner.tokenStart.bytes then
    endToken vocabulary scanner start scanner.tokenStart
  else unexpectedToken scanner start scanner.tokenStart

/-- What holds of tokens of all three kinds holds of every token. -/
theorem tokenOf_cases {motive : Tree × Scanner → Prop} (vocabulary : Vocabulary) {found : Bool}
    {scanner : Scanner} (start : Extent)
    (accepted : found = true → motive (foundToken vocabulary scanner start))
    (ended : scanner.atEnd = true ∧ scanner.position.bytes = scanner.tokenStart.bytes →
      motive (endToken vocabulary scanner start scanner.tokenStart))
    (unexpected : ¬(scanner.atEnd = true ∧ scanner.position.bytes = scanner.tokenStart.bytes) →
      motive (unexpectedToken scanner start scanner.tokenStart)) :
    motive (tokenOf vocabulary found scanner start) := by
  unfold tokenOf
  split
  · exact accepted ‹_›
  · split
    · exact ended ‹_›
    · exact unexpected ‹_›

/-- A scan that ends gives the token made of what it found, and counts as an operation. -/
theorem scanToken_of_some {found : Bool} {scanner after : Scanner} {token : Tree}
    (run : context.program.run (context.scanner.reset context.position).start =
      some (found, scanner))
    (made : tokenOf context.vocabulary found scanner context.position = (token, after)) :
    context.scanToken = some (token,
      (report { context with scanner := after.reset (context.position + token.total) }
        (.lexed (context.vocabulary.symbolName token.info.symbol) token.info.size.bytes)).tick) := by
  unfold tokenOf at made
  simp only [scanToken, run, made]

/-- Every token that is scanned is made of what the program found. -/
theorem exists_of_scanToken {token : Tree} {after : Context}
    (scanned : context.scanToken = some (token, after)) :
    ∃ found scanner reached,
      context.program.run (context.scanner.reset context.position).start = some (found, scanner) ∧
      tokenOf context.vocabulary found scanner context.position = (token, reached) ∧
      after = (report { context with scanner := reached.reset (context.position + token.total) }
        (.lexed (context.vocabulary.symbolName token.info.symbol) token.info.size.bytes)).tick := by
  cases run : context.program.run (context.scanner.reset context.position).start with
  | none =>
      rw [scanToken_of_none run] at scanned
      cases scanned
  | some result =>
      rcases result with ⟨found, scanner⟩
      rw [scanToken_of_some run rfl, Option.some.injEq, Prod.mk.injEq] at scanned
      rcases scanned with ⟨rfl, rfl⟩
      exact ⟨found, scanner, _, rfl, rfl, rfl⟩

/-- An unexpected character is scanned again from where the token began. -/
theorem unexpectedToken_eq (scanner : Scanner) (start tokenStart : Extent) :
    unexpectedToken scanner start tokenStart =
      let started := (scanner.reset tokenStart).start
      let passed := (started.report .unrecognized).advance false
      (Tree.unexpected (some started.lookahead) (tokenStart - start)
        (passed.tokenBoundary - tokenStart)
        (passed.markEnd.finish.2 - passed.tokenBoundary.bytes), passed.markEnd.finish.1) := by
  have stop (passed : Scanner) : passed.markEnd.finish.1.tokenEnd = passed.tokenBoundary :=
    passed.markEnd.finish_spec.1
  dsimp only
  rw [← stop]
  rfl

/-! ## How a parse looks ahead -/

/-- The parse is not halted, and has no token ahead. -/
structure Idle (context : Context) : Prop where
  running : context.isHalted = false
  unread : context.lookahead = none

theorem Idle.not_still (idle : context.Idle) :
    ¬(context.isHalted = true ∨ context.lookahead.isSome = true) := by
  simp [idle.running, idle.unread]

theorem idle_of_not_still (moving : ¬(context.isHalted = true ∨ context.lookahead.isSome = true)) :
    context.Idle := by
  rcases not_or.mp moving with ⟨running, unread⟩
  exact ⟨by simpa using running, by simpa using unread⟩

/-- In so many scans extras are consumed, until the parse is halted or a token that is none lies
ahead. -/
inductive LooksAhead : Nat → Context → Context → Prop where
  | still {fuel : Nat} {context : Context}
      (still : context.isHalted = true ∨ context.lookahead.isSome = true) :
      LooksAhead (fuel + 1) context context
  | halted {fuel : Nat} {context next : Context} {token : Tree} (idle : context.Idle)
      (scanned : context.scanToken = some (token, next)) (halted : next.isHalted = true) :
      LooksAhead (fuel + 1) context next
  | extra {fuel : Nat} {context next after : Context} {token : Tree} (idle : context.Idle)
      (scanned : context.scanToken = some (token, next)) (running : next.isHalted = false)
      (extra : token.info.extra = true) (rest : LooksAhead fuel (next.consume token) after) :
      LooksAhead (fuel + 1) context after
  | solid {fuel : Nat} {context next : Context} {token : Tree} (idle : context.Idle)
      (scanned : context.scanToken = some (token, next)) (running : next.isHalted = false)
      (solid : token.info.extra = false) :
      LooksAhead (fuel + 1) context { next with lookahead := some token }

theorem looksAhead_of_fill {fuel : Nat} {after : Context}
    (filled : context.fill fuel = some after) : LooksAhead fuel context after := by
  induction fuel generalizing context with
  | zero => cases filled
  | succ fuel ih =>
      rw [fill] at filled
      by_cases still : context.isHalted = true ∨ context.lookahead.isSome = true
      · rw [if_pos still] at filled
        cases filled
        exact .still still
      · rw [if_neg still] at filled
        have idle := idle_of_not_still still
        cases scanned : context.scanToken with
        | none =>
            rw [scanned] at filled
            cases filled
        | some found =>
            rcases found with ⟨token, next⟩
            rw [scanned] at filled
            dsimp only at filled
            split at filled
            · rename_i halted
              cases filled
              exact .halted idle scanned halted
            · rename_i running
              have running : next.isHalted = false := by simpa using running
              split at filled
              · rename_i extra
                exact .extra idle scanned running extra (ih filled)
              · rename_i solid
                cases filled
                exact .solid idle scanned running (by simpa using solid)

section FillSteps

variable {next : Context} {token : Tree} {fuel : Nat}

theorem fill_still (still : context.isHalted = true ∨ context.lookahead.isSome = true) :
    context.fill (fuel + 1) = some context := by
  rw [fill, if_pos still]

variable (idle : context.Idle) (scanned : context.scanToken = some (token, next))

include idle scanned

theorem fill_halted (halted : next.isHalted = true) : context.fill (fuel + 1) = some next := by
  rw [fill, if_neg idle.not_still, scanned]
  exact if_pos halted

theorem fill_extra (running : next.isHalted = false) (extra : token.info.extra = true) :
    context.fill (fuel + 1) = (next.consume token).fill fuel := by
  rw [fill, if_neg idle.not_still, scanned]
  dsimp only
  rw [if_neg (by simp [running]), if_pos extra]

theorem fill_solid (running : next.isHalted = false) (solid : token.info.extra = false) :
    context.fill (fuel + 1) = some { next with lookahead := some token } := by
  rw [fill, if_neg idle.not_still, scanned]
  dsimp only
  rw [if_neg (by simp [running]), if_neg (by simp [solid])]

end FillSteps

end Context

namespace Parsing

/-! ## Runs -/

section Runs

variable {α β : Type} {context after : Context} {value : α}

theorem run_bind_ok {first : Parsing α} {next : α → Parsing β} {result : β}
    (run : (first >>= next).run context = .ok (result, after)) :
    ∃ value between, first.run context = .ok (value, between) ∧
      (next value).run between = .ok (result, after) := by
  rw [StateT.run_bind] at run
  cases step : first.run context with
  | error fault =>
      rw [step] at run
      cases run
  | ok produced =>
      rw [step] at run
      exact ⟨produced.1, produced.2, rfl, run⟩

theorem run_bind_of_ok {first : Parsing α} {next : α → Parsing β} {between : Context}
    (run : first.run context = .ok (value, between)) :
    (first >>= next).run context = (next value).run between := by
  rw [StateT.run_bind, run]
  rfl

theorem run_discard_of_ok {program : Parsing α} (run : program.run context = .ok (value, after)) :
    (discard program).run context = .ok ((), after) := by
  change (program >>= fun _ => pure () : Parsing Unit).run context = _
  exact (run_bind_of_ok run).trans rfl

theorem run_pure_ok (run : (pure value : Parsing α).run context = .ok (result, after)) :
    result = value ∧ after = context := by
  cases run
  exact ⟨rfl, rfl⟩

/-- A parse runs the grammar, skips what the grammar left, and folds the events. -/
theorem run_wholeTree_ok {grammar : Parsing Unit} {tree : Tree}
    (run : (wholeTree grammar).run context = .ok (tree, after)) :
    ∃ parsed skipped items,
      grammar.run (context.report .began) = .ok ((), parsed) ∧
      (skipRest parsed.budget).run parsed = .ok ((), skipped) ∧
      Event.fold? skipped.lastToken.2.vocabulary skipped.lastToken.2.events = .ok items ∧
      tree = Tree.root skipped.lastToken.2.vocabulary (items ++ [⟨0, skipped.lastToken.1⟩]) ∧
      after = skipped.lastToken.2.report .finished := by
  rcases run_bind_ok run with ⟨_, begun, start, run⟩
  rcases run_bind_ok run with ⟨_, parsed, parse, run⟩
  rcases run_bind_ok run with ⟨_, _, read, run⟩
  rcases run_bind_ok run with ⟨_, skipped, skip, run⟩
  rcases run_bind_ok run with ⟨_, _, again, run⟩
  cases start
  cases read
  cases again
  refine ⟨parsed, skipped, ?_⟩
  generalize skipped.lastToken = last at run ⊢
  rcases last with ⟨last, ended⟩
  rcases run_bind_ok run with ⟨_, _, put, run⟩
  rcases run_bind_ok run with ⟨items, _, fold, run⟩
  cases put
  dsimp only at fold ⊢
  cases folded : Event.fold? ended.vocabulary ended.events with
  | error fault =>
      rw [folded] at fold
      cases fold
  | ok found =>
      rw [folded] at fold
      cases fold
      cases run
      exact ⟨items, parse, skip, rfl, rfl, rfl⟩

theorem run_wholeTree_of_skip_error {grammar : Parsing Unit} {parsed : Context} {fault : Fault}
    (parse : grammar.run (context.report .began) = .ok ((), parsed))
    (skip : (skipRest parsed.budget).run parsed = .error fault) :
    (wholeTree grammar).run context = .error fault := by
  refine (run_bind_of_ok rfl).trans ?_
  refine (run_bind_of_ok parse).trans ?_
  refine (run_bind_of_ok rfl).trans ?_
  rw [StateT.run_bind, skip]
  rfl

/-- If the grammar ends and the rest of the input is skipped, the outcome is up to the fold of the
events. -/
theorem run_wholeTree_of_skip {grammar : Parsing Unit} {parsed skipped : Context}
    (parse : grammar.run (context.report .began) = .ok ((), parsed))
    (skip : (skipRest parsed.budget).run parsed = .ok ((), skipped)) :
    (wholeTree grammar).run context =
      (Event.fold? skipped.lastToken.2.vocabulary skipped.lastToken.2.events).map fun items =>
        (Tree.root skipped.lastToken.2.vocabulary (items ++ [⟨0, skipped.lastToken.1⟩]),
          skipped.lastToken.2.report .finished) := by
  refine (run_bind_of_ok rfl).trans ?_
  refine (run_bind_of_ok parse).trans ?_
  refine (run_bind_of_ok rfl).trans ?_
  refine (run_bind_of_ok skip).trans ?_
  refine (run_bind_of_ok rfl).trans ?_
  rcases skipped.lastToken with ⟨last, ended⟩
  refine (run_bind_of_ok rfl).trans ?_
  dsimp only
  cases Event.fold? ended.vocabulary ended.events <;> rfl

theorem run_wholeTree_of_fold_error {grammar : Parsing Unit} {parsed skipped : Context}
    {fault : Fault} (parse : grammar.run (context.report .began) = .ok ((), parsed))
    (skip : (skipRest parsed.budget).run parsed = .ok ((), skipped))
    (fold : Event.fold? skipped.lastToken.2.vocabulary skipped.lastToken.2.events =
      .error fault) :
    (wholeTree grammar).run context = .error fault := by
  rw [run_wholeTree_of_skip parse skip, fold]
  rfl

/-- If the grammar ends, the rest of the input is skipped and the events fold, so does the parse. -/
theorem run_wholeTree_of_ok {grammar : Parsing Unit} {parsed skipped : Context}
    {items : List (Edge Tree)} (parse : grammar.run (context.report .began) = .ok ((), parsed))
    (skip : (skipRest parsed.budget).run parsed = .ok ((), skipped))
    (fold : Event.fold? skipped.lastToken.2.vocabulary skipped.lastToken.2.events = .ok items) :
    (wholeTree grammar).run context =
      .ok (Tree.root skipped.lastToken.2.vocabulary (items ++ [⟨0, skipped.lastToken.1⟩]),
        skipped.lastToken.2.report .finished) := by
  rw [run_wholeTree_of_skip parse skip, fold]
  rfl

/-- What is left of `reuse` once a subtree was found. -/
def adopt (tree : Tree) : Parsing (Option CompleteNode) := do
  report (.reused (← symbolName tree.info.symbol))
  modify fun context =>
    let position := context.position + tree.total
    { context with position, scanner := context.scanner.reset position }
  let place := (← get).events.size
  modify fun context => (context.record (.added tree none 0)).tick
  return some ⟨place⟩

end Runs

/-! ## Looking ahead -/

section Ahead

variable {context filled : Context}

theorem run_peek (fill : context.fill context.budget = some filled) :
    peek.run context = .ok (filled.ahead, filled) := by
  refine (run_bind_of_ok rfl).trans ?_
  rw [fill]
  rfl

theorem run_peek_endless (fill : context.fill context.budget = none) :
    peek.run context = .error .endless := by
  refine (run_bind_of_ok rfl).trans ?_
  rw [fill]
  rfl

/-- What begins by looking ahead does not end if the scan does not. -/
theorem run_bind_endless {α : Type} {next : Nat → Parsing α}
    (fill : context.fill context.budget = none) :
    (peek >>= next).run context = .error .endless := by
  rw [StateT.run_bind, run_peek_endless fill]
  rfl

/-- Nothing is scanned by a parse that is halted, or has a token ahead. -/
theorem fill_of_still (still : context.isHalted = true ∨ context.lookahead.isSome = true) :
    context.fill context.budget = some context :=
  Context.fill_still still

/-- A token that was scanned already is not scanned again. -/
theorem fill_of_lookahead {token : Tree} (ahead : context.lookahead = some token) :
    context.fill context.budget = some context :=
  fill_of_still (Or.inr (by rw [ahead]; rfl))

/-- Where the next token is not the end of the input, it was scanned ahead. -/
theorem lookahead_of_ahead (more : context.ahead ≠ endSymbol) :
    ∃ token, context.lookahead = some token := by
  unfold Context.ahead at more
  split at more
  · exact absurd rfl more
  · cases ahead : context.lookahead with
    | none => simp [ahead] at more
    | some token => exact ⟨token, rfl⟩

theorem run_bump_of_end (fill : context.fill context.budget = some filled)
    (ends : filled.ahead = endSymbol) : bump.run context = .ok ((), filled) := by
  refine (run_bind_of_ok (run_peek fill)).trans ?_
  rw [if_neg (by simp [ends])]
  rfl

/-- The token ahead is consumed. -/
theorem run_bump_of_token (fill : context.fill context.budget = some filled)
    (more : filled.ahead ≠ endSymbol) {token : Tree} (ahead : filled.lookahead = some token) :
    bump.run context = .ok ((),
      ({ filled.report (.shifted (filled.vocabulary.symbolName token.info.symbol)) with
        lookahead := none } : Context).consume token) := by
  refine (run_bind_of_ok (run_peek fill)).trans ?_
  rw [if_pos more]
  refine (run_bind_of_ok rfl).trans ?_
  rw [ahead]
  rfl

/-- Looking ahead leaves a token ahead unless the parse is halted. -/
theorem lookahead_of_fill {fuel : Nat} (fill : context.fill fuel = some filled)
    (running : filled.isHalted = false) : ∃ token, filled.lookahead = some token := by
  replace fill := Context.looksAhead_of_fill fill
  induction fill with
  | still still => simpa [running, Option.isSome_iff_exists] using still
  | halted _ _ halted =>
      rw [running] at halted
      cases halted
  | extra _ _ _ _ _ ih => exact ih running
  | solid => exact ⟨_, rfl⟩

/-- Skipping the rest of the input ends with a token ahead unless the parse is halted. -/
theorem lookahead_of_skipRest {turns : Nat} (run : (skipRest turns).run context = .ok ((), filled))
    (running : filled.isHalted = false) : ∃ token, filled.lookahead = some token := by
  induction turns generalizing context with
  | zero => cases run
  | succ turns ih =>
      rw [skipRest] at run
      rcases run_bind_ok run with ⟨ended, looked, look, run⟩
      rcases run_bind_ok look with ⟨_, peeked, peek, rest⟩
      cases rest
      split at run
      · rcases run_bind_ok run with ⟨_, _, _, run⟩
        exact ih run
      · cases run
        cases filling : context.fill context.budget with
        | none =>
            rw [run_peek_endless filling] at peek
            cases peek
        | some reached =>
            rw [run_peek filling] at peek
            cases peek
            exact lookahead_of_fill filling running

end Ahead

/-! ## Invariants -/

/-- Runs of a program that end lead from states with a property to states with the property. -/
def Preserves {α : Type} (invariant : Context → Prop) (program : Parsing α) : Prop :=
  ∀ ⦃context : Context⦄ ⦃value : α⦄ ⦃after : Context⦄,
    program.run context = .ok (value, after) → invariant context → invariant after

namespace Preserves

variable {α β : Type} {invariant : Context → Prop}

theorem pure (value : α) : Preserves invariant (Pure.pure value : Parsing α) := by
  intro context result after run holds
  cases run
  exact holds

theorem fault (fault : Fault) : Preserves invariant (throw fault : Parsing α) := by
  intro context result after run
  cases run

theorem get : Preserves invariant (MonadState.get : Parsing Context) := by
  intro context result after run holds
  cases run
  exact holds

theorem bind {first : Parsing α} {next : α → Parsing β} (head : Preserves invariant first)
    (tail : ∀ value, Preserves invariant (next value)) : Preserves invariant (first >>= next) := by
  intro context result after run holds
  rcases run_bind_ok run with ⟨value, between, start, rest⟩
  exact tail value rest (head start holds)

theorem modify {change : Context → Context}
    (keeps : ∀ context, invariant context → invariant (change context)) :
    Preserves invariant (MonadStateOf.modifyGet fun context => ((), change context)) := by
  intro context result after run holds
  cases run
  exact keeps context holds

theorem ite {condition : Prop} [Decidable condition] {positive negative : Parsing α}
    (left : Preserves invariant positive) (right : Preserves invariant negative) :
    Preserves invariant (if condition then positive else negative) := by
  split
  · exact left
  · exact right

end Preserves

/-! ## What programs come to -/

/-- If the program ends from a state, its result is as wanted. -/
def Ensures {α : Type} (program : Parsing α) (context : Context) (wanted : α → Context → Prop) :
    Prop :=
  ∀ ⦃value : α⦄ ⦃after : Context⦄, program.run context = .ok (value, after) → wanted value after

namespace Ensures

variable {α β : Type} {context after : Context} {wanted : α → Context → Prop}

theorem of_run {program : Parsing α} {value : α} (run : program.run context = .ok (value, after))
    (holds : wanted value after) : Ensures program context wanted := by
  intro result reached other
  rw [run] at other
  cases other
  exact holds

theorem pure {value : α} (holds : wanted value context) :
    Ensures (Pure.pure value : Parsing α) context wanted := .of_run rfl holds

theorem fault (fault : Fault) : Ensures (throw fault : Parsing α) context wanted := by
  intro value after run
  cases run

theorem bind {first : Parsing α} {next : α → Parsing β} {aim : β → Context → Prop}
    (head : Ensures first context wanted)
    (tail : ∀ value between, wanted value between → Ensures (next value) between aim) :
    Ensures (first >>= next) context aim := by
  intro result reached run
  rcases run_bind_ok run with ⟨value, between, start, rest⟩
  exact tail value between (head start) rest

/-- The run of the first part is known. -/
theorem step {first : Parsing α} {next : α → Parsing β} {aim : β → Context → Prop} {value : α}
    (run : first.run context = .ok (value, after)) (rest : Ensures (next value) after aim) :
    Ensures (first >>= next) context aim := by
  intro result reached whole
  exact rest ((run_bind_of_ok run).symm.trans whole)

theorem mono {program : Parsing α} {weaker : α → Context → Prop}
    (ensures : Ensures program context wanted)
    (weaken : ∀ value after, wanted value after → weaker value after) :
    Ensures program context weaker :=
  fun value after run => weaken value after (ensures run)

theorem discard {program : Parsing α} {aim : Unit → Context → Prop}
    (ensures : Ensures program context wanted)
    (weaken : ∀ value after, wanted value after → aim () after) :
    Ensures (Functor.discard program) context aim :=
  ensures.bind fun value after holds => .pure (weaken value after holds)

end Ensures

/-! ## Simulations -/

/-- What the second program does from one of two related states, if it ends, the first program does
from the other one, and the states stay related. -/
def Simulates {α : Type} (related : Context → Context → Prop) (first second : Parsing α) : Prop :=
  ∀ ⦃left right : Context⦄, related left right → ∀ ⦃value : α⦄ ⦃after : Context⦄,
    second.run right = .ok (value, after) →
      ∃ reached, first.run left = .ok (value, reached) ∧ related reached after

namespace Simulates

variable {α β : Type} {related : Context → Context → Prop}

theorem pure (value : α) : Simulates related (Pure.pure value : Parsing α) (Pure.pure value) := by
  intro left right holds result after run
  rcases run_pure_ok run with ⟨rfl, rfl⟩
  exact ⟨left, rfl, holds⟩

theorem fault (program : Parsing α) (fault : Fault) : Simulates related program (throw fault) := by
  intro left right holds result after run
  cases run

theorem bind {first second : Parsing α} {next other : α → Parsing β}
    (head : Simulates related first second)
    (tail : ∀ value, Simulates related (next value) (other value)) :
    Simulates related (first >>= next) (second >>= other) := by
  intro left right holds result after run
  rcases run_bind_ok run with ⟨value, between, start, rest⟩
  rcases head holds start with ⟨middle, runStart, kept⟩
  rcases tail value kept rest with ⟨reached, runRest, related⟩
  exact ⟨reached, (run_bind_of_ok runStart).trans runRest, related⟩

theorem ite {condition : Prop} [Decidable condition] {positive negative other another : Parsing α}
    (left : Simulates related positive other) (right : Simulates related negative another) :
    Simulates related (if condition then positive else negative)
      (if condition then other else another) := by
  split
  · exact left
  · exact right

theorem discard {first second : Parsing α} (inner : Simulates related first second) :
    Simulates related (discard first) (discard second) := inner.bind fun _ => .pure _

end Simulates

/-- The programs simulate one another as long as they have not parted. They part for good: then what
the second one comes to is spent, and wherever the first one ends it is stopped. -/
structure SimulatesUntil {α : Type} (stopped spent : Context → Prop)
    (related : Context → Context → Prop) (first second : Parsing α) : Prop where
  stays : Preserves stopped first
  spends : Preserves spent second
  goes : ∀ ⦃left right : Context⦄, related left right → ∀ ⦃value : α⦄ ⦃after : Context⦄,
    second.run right = .ok (value, after) →
      (∃ reached, first.run left = .ok (value, reached) ∧ related reached after) ∨
        spent after ∧ ∀ ⦃other : α⦄ ⦃reached : Context⦄,
          first.run left = .ok (other, reached) → stopped reached

namespace SimulatesUntil

variable {α β : Type} {stopped spent : Context → Prop} {related : Context → Context → Prop}

theorem pure (value : α) :
    SimulatesUntil stopped spent related (Pure.pure value : Parsing α) (Pure.pure value) where
  stays := .pure value
  spends := .pure value
  goes left right holds result after run := by
    rcases run_pure_ok run with ⟨rfl, rfl⟩
    exact Or.inl ⟨left, rfl, holds⟩

theorem fault {program : Parsing α} (stays : Preserves stopped program) (fault : Fault) :
    SimulatesUntil stopped spent related program (throw fault) where
  stays := stays
  spends := .fault fault
  goes left right holds result after run := by cases run

theorem bind {first second : Parsing α} {next other : α → Parsing β}
    (head : SimulatesUntil stopped spent related first second)
    (tail : ∀ value, SimulatesUntil stopped spent related (next value) (other value)) :
    SimulatesUntil stopped spent related (first >>= next) (second >>= other) where
  stays := head.stays.bind fun value => (tail value).stays
  spends := head.spends.bind fun value => (tail value).spends
  goes left right holds result after run := by
    rcases run_bind_ok run with ⟨value, between, start, rest⟩
    rcases head.goes holds start with ⟨middle, runStart, kept⟩ | ⟨spent, apart⟩
    · rcases (tail value).goes kept rest with ⟨reached, runRest, related⟩ | ⟨spent, apart⟩
      · exact Or.inl ⟨reached, (run_bind_of_ok runStart).trans runRest, related⟩
      · refine Or.inr ⟨spent, fun other reached ran => ?_⟩
        rw [run_bind_of_ok runStart] at ran
        exact apart ran
    · refine Or.inr ⟨(tail value).spends rest spent, fun other reached ran => ?_⟩
      rcases run_bind_ok ran with ⟨_, middle, runStart, runRest⟩
      exact (tail _).stays runRest (apart runStart)

theorem ite {condition : Prop} [Decidable condition] {positive negative other another : Parsing α}
    (left : SimulatesUntil stopped spent related positive other)
    (right : SimulatesUntil stopped spent related negative another) :
    SimulatesUntil stopped spent related (if condition then positive else negative)
      (if condition then other else another) := by
  split
  · exact left
  · exact right

theorem discard {first second : Parsing α}
    (inner : SimulatesUntil stopped spent related first second) :
    SimulatesUntil stopped spent related (discard first) (discard second) :=
  inner.bind fun _ => .pure _

end SimulatesUntil

theorem Preserves.false {α : Type} (program : Parsing α) : Preserves (fun _ => False) program :=
  fun _ _ _ _ never => never

/-- Simulations are those that never part. -/
theorem simulatesUntil_false {α : Type} {related : Context → Context → Prop}
    {first second : Parsing α} :
    SimulatesUntil (fun _ => False) (fun _ => False) related first second ↔
      Simulates related first second := by
  constructor
  · intro simulates left right holds value after run
    rcases simulates.goes holds run with goes | ⟨never, _⟩
    · exact goes
    · exact never.elim
  · intro simulates
    exact ⟨.false first, .false second, fun _ _ holds _ _ run => Or.inl (simulates holds run)⟩

/-! ## Programs over the interface -/

/-- Programs that read the state of the parse as they like and change it only through the
interface. -/
inductive ByInterface : {α : Type} → Parsing α → Prop where
  | pure {α : Type} (value : α) : ByInterface (pure value : Parsing α)
  | bind {α β : Type} {first : Parsing α} {next : α → Parsing β} (head : ByInterface first)
      (tail : ∀ value, ByInterface (next value)) : ByInterface (first >>= next)
  | fault {α : Type} (fault : Fault) : ByInterface (throw fault : Parsing α)
  | get : ByInterface (MonadState.get : Parsing Context)
  | remark (remark : Remark) : ByInterface (Parsing.remark remark)
  | peek : ByInterface Parsing.peek
  | bump : ByInterface Parsing.bump
  | missing (symbol : Nat) : ByInterface (Parsing.missing symbol)
  | start : ByInterface Parsing.start
  | complete (node : OpenNode) (symbol : Nat) : ByInterface (Parsing.complete node symbol)
  | abandon (node : OpenNode) : ByInterface (Parsing.abandon node)
  | precede (node : CompleteNode) : ByInterface (Parsing.precede node)
  | setField (node : CompleteNode) (field : Nat) : ByInterface (Parsing.setField node field)
  | setState (node : CompleteNode) (state : Nat) : ByInterface (Parsing.setState node state)
  | skipToken : ByInterface Parsing.skipToken
  | reuse (state : Nat) : ByInterface (Parsing.reuse state)

namespace ByInterface

variable {α β : Type}

theorem ite {condition : Prop} [Decidable condition] {positive negative : Parsing α}
    (left : ByInterface positive) (right : ByInterface negative) :
    ByInterface (if condition then positive else negative) := by
  split
  · exact left
  · exact right

theorem discard {program : Parsing α} (inner : ByInterface program) :
    ByInterface (discard program) := .bind inner fun _ => .pure _

theorem at? (symbol : Nat) : ByInterface (Parsing.at? symbol) :=
  .bind .peek fun _ => .pure _

theorem atEnd : ByInterface Parsing.atEnd := at? endSymbol

theorem isHalted : ByInterface Parsing.isHalted := .bind .get fun _ => .pure _

theorem eat (symbol : Nat) : ByInterface (Parsing.eat symbol) :=
  .bind (at? symbol) fun _ => ite (.bind .bump fun _ => .pure _) (.pure _)

theorem expect (symbol : Nat) : ByInterface (Parsing.expect symbol) :=
  .bind (eat symbol) fun _ => ite (.pure _) (.bind (.missing symbol) fun _ => .pure _)

end ByInterface

/-- All operations of the interface keep a property of the state. -/
structure OperationsPreserve (invariant : Context → Prop) : Prop where
  remark : ∀ remark, Preserves invariant (Parsing.remark remark)
  peek : Preserves invariant Parsing.peek
  bump : Preserves invariant Parsing.bump
  missing : ∀ symbol, Preserves invariant (Parsing.missing symbol)
  start : Preserves invariant Parsing.start
  complete : ∀ node symbol, Preserves invariant (Parsing.complete node symbol)
  abandon : ∀ node, Preserves invariant (Parsing.abandon node)
  precede : ∀ node, Preserves invariant (Parsing.precede node)
  setField : ∀ node field, Preserves invariant (Parsing.setField node field)
  setState : ∀ node state, Preserves invariant (Parsing.setState node state)
  skipToken : Preserves invariant Parsing.skipToken
  reuse : ∀ state, Preserves invariant (Parsing.reuse state)

/-- From related states every operation of the interface does the same. -/
structure OperationsSimulate (related : Context → Context → Prop) : Prop where
  peek : Simulates related Parsing.peek Parsing.peek
  bump : Simulates related Parsing.bump Parsing.bump
  missing : ∀ symbol, Simulates related (Parsing.missing symbol) (Parsing.missing symbol)
  start : Simulates related Parsing.start Parsing.start
  complete : ∀ node symbol,
    Simulates related (Parsing.complete node symbol) (Parsing.complete node symbol)
  abandon : ∀ node, Simulates related (Parsing.abandon node) (Parsing.abandon node)
  precede : ∀ node, Simulates related (Parsing.precede node) (Parsing.precede node)
  setField : ∀ node field,
    Simulates related (Parsing.setField node field) (Parsing.setField node field)
  setState : ∀ node state,
    Simulates related (Parsing.setState node state) (Parsing.setState node state)
  skipToken : Simulates related Parsing.skipToken Parsing.skipToken
  reuse : ∀ state, Simulates related (Parsing.reuse state) (Parsing.reuse state)

/-- From related states every operation of the interface does the same until the runs part. -/
structure OperationsSimulateUntil (stopped spent : Context → Prop)
    (related : Context → Context → Prop) : Prop where
  stays : OperationsPreserve stopped
  peek : SimulatesUntil stopped spent related Parsing.peek Parsing.peek
  bump : SimulatesUntil stopped spent related Parsing.bump Parsing.bump
  missing : ∀ symbol,
    SimulatesUntil stopped spent related (Parsing.missing symbol) (Parsing.missing symbol)
  start : SimulatesUntil stopped spent related Parsing.start Parsing.start
  complete : ∀ node symbol,
    SimulatesUntil stopped spent related (Parsing.complete node symbol)
      (Parsing.complete node symbol)
  abandon : ∀ node,
    SimulatesUntil stopped spent related (Parsing.abandon node) (Parsing.abandon node)
  precede : ∀ node,
    SimulatesUntil stopped spent related (Parsing.precede node) (Parsing.precede node)
  setField : ∀ node field,
    SimulatesUntil stopped spent related (Parsing.setField node field) (Parsing.setField node field)
  setState : ∀ node state,
    SimulatesUntil stopped spent related (Parsing.setState node state) (Parsing.setState node state)
  skipToken : SimulatesUntil stopped spent related Parsing.skipToken Parsing.skipToken
  reuse : ∀ state, SimulatesUntil stopped spent related (Parsing.reuse state) (Parsing.reuse state)

/-- Skipping the rest of the input keeps what every operation keeps. -/
theorem OperationsPreserve.skipRest {invariant : Context → Prop}
    (operations : OperationsPreserve invariant) (fuel : Nat) :
    Preserves invariant (Parsing.skipRest fuel) := by
  induction fuel with
  | zero => exact .fault _
  | succ fuel ih =>
      refine .bind (operations.peek.bind fun _ => .pure _) fun ended => ?_
      exact .ite (operations.skipToken.bind fun _ => ih) (.pure _)

namespace OperationsSimulateUntil

variable {stopped spent : Context → Prop} {related : Context → Context → Prop}
  (operations : OperationsSimulateUntil stopped spent related)

include operations

theorem at? (symbol : Nat) :
    SimulatesUntil stopped spent related (Parsing.at? symbol) (Parsing.at? symbol) :=
  operations.peek.bind fun _ => .pure _

theorem atEnd : SimulatesUntil stopped spent related Parsing.atEnd Parsing.atEnd :=
  operations.at? endSymbol

theorem expect (symbol : Nat) :
    SimulatesUntil stopped spent related (Parsing.expect symbol) (Parsing.expect symbol) := by
  have eat : SimulatesUntil stopped spent related (Parsing.eat symbol) (Parsing.eat symbol) :=
    (operations.at? symbol).bind fun _ => .ite (operations.bump.bind fun _ => .pure _) (.pure _)
  exact eat.bind fun _ => .ite (.pure _) ((operations.missing symbol).bind fun _ => .pure _)

/-- Tokens are skipped alike, even if one side is allowed more turns. -/
theorem skipRest {fuel turns : Nat} (enough : turns ≤ fuel) :
    SimulatesUntil stopped spent related (Parsing.skipRest fuel) (Parsing.skipRest turns) := by
  induction turns generalizing fuel with
  | zero => exact .fault (operations.stays.skipRest fuel) _
  | succ turns ih =>
      cases fuel with
      | zero => omega
      | succ fuel =>
          rw [Parsing.skipRest, Parsing.skipRest]
          refine operations.atEnd.bind fun ended => .ite ?_ (.pure _)
          exact operations.skipToken.bind fun _ => ih (by omega)

end OperationsSimulateUntil

namespace OperationsSimulate

variable {related : Context → Context → Prop} (operations : OperationsSimulate related)

include operations

/-- Operations that simulate one another never part. -/
theorem never : OperationsSimulateUntil (fun _ => False) (fun _ => False) related where
  stays := ⟨fun _ => .false _, .false _, .false _, fun _ => .false _, .false _,
    fun _ _ => .false _, fun _ => .false _, fun _ => .false _, fun _ _ => .false _,
    fun _ _ => .false _, .false _, fun _ => .false _⟩
  peek := simulatesUntil_false.mpr operations.peek
  bump := simulatesUntil_false.mpr operations.bump
  missing symbol := simulatesUntil_false.mpr (operations.missing symbol)
  start := simulatesUntil_false.mpr operations.start
  complete node symbol := simulatesUntil_false.mpr (operations.complete node symbol)
  abandon node := simulatesUntil_false.mpr (operations.abandon node)
  precede node := simulatesUntil_false.mpr (operations.precede node)
  setField node field := simulatesUntil_false.mpr (operations.setField node field)
  setState node state := simulatesUntil_false.mpr (operations.setState node state)
  skipToken := simulatesUntil_false.mpr operations.skipToken
  reuse state := simulatesUntil_false.mpr (operations.reuse state)

theorem skipRest {fuel turns : Nat} (enough : turns ≤ fuel) :
    Simulates related (Parsing.skipRest fuel) (Parsing.skipRest turns) :=
  simulatesUntil_false.mp (operations.never.skipRest enough)

end OperationsSimulate

/-- A program over the interface keeps what every operation keeps. -/
theorem ByInterface.preserves {α : Type} {program : Parsing α} {invariant : Context → Prop}
    (operations : OperationsPreserve invariant) (byInterface : ByInterface program) :
    Preserves invariant program := by
  induction byInterface with
  | pure value => exact .pure value
  | bind _ _ head tail => exact head.bind tail
  | fault fault => exact .fault fault
  | get => exact .get
  | remark remark => exact operations.remark remark
  | peek => exact operations.peek
  | bump => exact operations.bump
  | missing symbol => exact operations.missing symbol
  | start => exact operations.start
  | complete node symbol => exact operations.complete node symbol
  | abandon node => exact operations.abandon node
  | precede node => exact operations.precede node
  | setField node field => exact operations.setField node field
  | setState node state => exact operations.setState node state
  | skipToken => exact operations.skipToken
  | reuse state => exact operations.reuse state

end Parsing

/-! ## The grammars of the program -/

namespace Arithmetic

open Parsing

theorem byInterface_missingOperand : ByInterface missingOperand :=
  .bind .start fun _ => .bind (.missing number) fun _ => .complete _ _

theorem byInterface_finishOperand (node : OpenNode) :
    ByInterface (operand.finishOperand node) :=
  .bind (.complete _ _) fun _ => .bind (.setState _ _) fun _ => .pure _

mutual

theorem byInterface_operand : (fuel : Nat) → ByInterface (operand fuel)
  | 0 => .fault _
  | fuel + 1 => by
    rw [operand]
    refine .bind (.reuse _) fun found => ?_
    cases found with
    | some node => exact .pure _
    | none =>
        refine .bind .peek fun kind => .bind .start fun node => .ite ?_ (.ite ?_ ?_)
        · exact .bind .bump fun _ => byInterface_finishOperand node
        · refine .bind .bump fun _ => .bind (byInterface_expression fuel) fun inner => .ite ?_ ?_
          · exact .bind (.discard byInterface_missingOperand) fun _ =>
              .bind (.discard (.expect _)) fun _ => byInterface_finishOperand node
          · exact .bind (.discard (.expect _)) fun _ => byInterface_finishOperand node
        · exact .bind (.abandon node) fun _ => .pure _

theorem byInterface_expression : (fuel : Nat) → ByInterface (expression fuel)
  | 0 => .fault _
  | fuel + 1 => by
    rw [expression]
    refine .bind (byInterface_operand fuel) fun first => ?_
    cases first with
    | none => exact .pure _
    | some first => exact .bind (byInterface_sums fuel first) fun _ => .pure _

theorem byInterface_sums : (fuel : Nat) → (left : CompleteNode) → ByInterface (sums fuel left)
  | 0, _ => .fault _
  | fuel + 1, left => by
    rw [sums]
    refine .bind (.at? _) fun more => .ite ?_ (.pure _)
    refine .bind (.setField _ _) fun _ => .bind (.precede _) fun node => .bind .bump fun _ => ?_
    have last (right : CompleteNode) : ByInterface (do
        setField right rightField
        let whole ← complete node sum
        let wrapper ← precede whole
        sums fuel (← complete wrapper expressionSymbol)) :=
      .bind (.setField _ _) fun _ => .bind (.complete _ _) fun whole =>
        .bind (.precede _) fun wrapper => .bind (.complete _ _) fun left =>
          byInterface_sums fuel left
    refine .bind (byInterface_operand fuel) fun right => ?_
    cases right with
    | some right => exact .bind (.pure _) last
    | none => exact .bind byInterface_missingOperand last

end

theorem byInterface_expressions (fuel : Nat) : (turns : Nat) → ByInterface (expressions fuel turns)
  | 0 => .fault _
  | turns + 1 => by
    rw [expressions]
    refine .bind .atEnd fun ended => .ite ?_ (.pure _)
    refine .bind (byInterface_expression fuel) fun found => .ite ?_ ?_
    · exact .bind .skipToken fun _ => byInterface_expressions fuel turns
    · exact byInterface_expressions fuel turns

theorem byInterface_grammar : ByInterface grammar :=
  .bind .get fun _ => byInterface_expressions _ _

end Arithmetic

namespace Script

open Parsing

theorem byInterface_atAny : (symbols : List Nat) → ByInterface (atAny symbols)
  | [] => .pure _
  | _ :: rest => .bind (.at? _) fun _ => .ite (.pure _) (byInterface_atAny rest)

theorem byInterface_test (registers : Registers) :
    (condition : Condition) → ByInterface (condition.test registers)
  | .at symbols => byInterface_atAny symbols
  | .atEnd => .atEnd
  | .isHalted => .isHalted
  | .holds _ => .pure _
  | .negation condition => .bind (byInterface_test registers condition) fun _ => .pure _

theorem byInterface_open (registers : Registers) (name : String) (node : OpenNode) :
    ByInterface (registers.open? name node) := .ite (.fault _) (.pure _)

theorem byInterface_takeOpen (registers : Registers) (name : String) :
    ByInterface (registers.takeOpen name) := by
  unfold Registers.takeOpen
  split
  · exact .pure _
  · exact .fault _

theorem byInterface_get (registers : Registers) (name : String) :
    ByInterface (registers.get name) := by
  unfold Registers.get
  split
  · exact .pure _
  · exact .fault _

theorem byInterface_result (registers : Registers) (name : Option String) :
    ByInterface (registers.result name) := .ite (.pure _) (.fault _)

theorem byInterface_perform (registers : Registers) (action : Action) :
    ByInterface (action.perform registers) := by
  cases action with
  | start name => exact .bind .start fun _ => byInterface_open _ _ _
  | complete name symbol result =>
      refine .bind (byInterface_takeOpen _ _) fun taken => .bind (.complete _ _) fun node => ?_
      cases result with
      | some result => exact .pure _
      | none => exact .pure _
  | abandon name =>
      exact .bind (byInterface_takeOpen _ _) fun _ => .bind (.abandon _) fun _ => .pure _
  | precede name wrapper =>
      exact .bind (byInterface_get _ _) fun _ => .bind (.precede _) fun _ => byInterface_open _ _ _
  | setField name field =>
      exact .bind (byInterface_get _ _) fun _ => .bind (.setField _ _) fun _ => .pure _
  | setState name state =>
      exact .bind (byInterface_get _ _) fun _ => .bind (.setState _ _) fun _ => .pure _
  | bump => exact .bind .bump fun _ => .pure _
  | missing symbol => exact .bind (.missing _) fun _ => .pure _
  | skipToken => exact .bind .skipToken fun _ => .pure _
  | eat symbol => exact .bind (.eat _) fun _ => .bind (.remark _) fun _ => .pure _
  | expect symbol => exact .bind (.expect _) fun _ => .bind (.remark _) fun _ => .pure _
  | peek => exact .bind .peek fun _ => .bind (.remark _) fun _ => .pure _
  | isHalted => exact .bind .isHalted fun _ => .bind (.remark _) fun _ => .pure _
  | language => exact .bind .get fun _ => .bind (.remark _) fun _ => .pure _
  | reuse state result => exact .bind (.reuse _) fun _ => .bind (.remark _) fun _ => .pure _
  | call rule result => exact .pure _
  | finish result => exact .pure _
  | branch condition positive negative => exact .pure _
  | loop condition body => exact .pure _

theorem byInterface_run (rules : Rules) (fuel : Nat) (actions : List Action)
    (registers : Registers) : ByInterface (run rules fuel actions registers) := by
  induction fuel generalizing actions registers with
  | zero => exact .fault _
  | succ fuel ih =>
      cases actions with
      | nil => exact byInterface_result _ _
      | cons action rest =>
          have perform : ByInterface (do
              let registers ← action.perform registers
              run rules fuel rest registers) :=
            .bind (byInterface_perform registers action) fun registers => ih rest registers
          cases action with
          | finish result => exact byInterface_result _ _
          | branch condition positive negative =>
              exact .bind (byInterface_test _ _) fun _ => .ite (ih _ _) (ih _ _)
          | loop condition body =>
              exact .bind (byInterface_test _ _) fun _ => .ite (ih _ _) (ih _ _)
          | call name result =>
              rw [run]
              split
              · exact .fault _
              · refine .bind (ih _ _) fun value => ?_
                cases result with
                | some result => exact ih _ _
                | none => exact ih _ _
          | _ => exact perform

theorem byInterface_grammar (rules : Rules) : ByInterface (grammar rules) := by
  unfold grammar
  split
  · exact .fault _
  · exact .bind .get fun _ => .discard (byInterface_run _ _ _ _)

end Script

end Reparse
