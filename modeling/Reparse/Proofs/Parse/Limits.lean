import Reparse.Proofs.Parse.Calls
import Reparse.Proofs.Parse.Interface

/-!
# Parses with a limit

A parse that may perform only so many operations goes along with the same parse without a limit
(`Context.Within`) until one operation is too many. That one halts it, and the two part for good
(`Parsing.operationsSimulate_within`). So a parse with a limit gives the same tree as the one without
if that one stays within the limit, and else it is halted in the end (`Parser.parseIn_limited`).
-/

namespace Reparse

open Parsing (Preserves SimulatesUntil run_bind_ok run_bind_of_ok)

namespace Context

variable {context after left right next : Context} {limit fuel turns : Nat} {token : Tree}

/-- The first parse is the second one with a limit that it has not exceeded yet. -/
structure Within (limit : Nat) (left right : Context) : Prop where
  unlimited : right.limit = 0
  running : right.isHalted = false
  few : right.operations ≤ limit
  left_eq : left = { right with limit }

/-- More operations were performed than the limit allows. -/
def Exceeds (limit : Nat) (context : Context) : Prop := limit < context.operations

/-- The parse is halted. -/
def Halted (context : Context) : Prop := context.isHalted = true

/-! ## Operations -/

@[simp] theorem operations_tick (context : Context) :
    context.tick.operations = context.operations + 1 := by
  dsimp only [tick]
  split <;> rfl

theorem Halted.tick (halted : context.Halted) : context.tick.Halted :=
  (SameView.tick context).halts halted

theorem Exceeds.tick (exceeds : context.Exceeds limit) : context.tick.Exceeds limit := by
  unfold Exceeds at exceeds ⊢
  rw [operations_tick]
  exact Nat.lt_succ_of_lt exceeds

/-- One more operation stays within the limit, or it halts the parse. -/
theorem Within.tick (positive : 0 < limit) (within : Within limit left right) :
    Within limit left.tick right.tick ∨ right.tick.Exceeds limit ∧ left.tick.Halted := by
  rcases within with ⟨unlimited, running, few, rfl⟩
  have counted := tick_of_unlimited unlimited
  by_cases last : right.operations = limit
  · right
    constructor
    · unfold Exceeds
      rw [operations_tick]
      omega
    · simp [Halted, Context.tick, positive, last, running]
  · left
    have allowed : ¬limit < right.operations + 1 := by omega
    refine ⟨?_, ?_, ?_, ?_⟩
    · rw [counted]
      exact unlimited
    · rw [counted]
      exact running
    · rw [operations_tick]
      omega
    · rw [counted]
      simp [Context.tick, allowed]

/-! ## Scanning -/

/-- What a scan comes to before it is counted does not depend on the limit. -/
theorem exists_uncounted (scanned : context.scanToken = some (token, after)) :
    ∃ scanner, after = ({ context with scanner } : Context).tick ∧
      ∀ limit, ({ context with limit } : Context).scanToken =
        some (token, ({ context with scanner, limit } : Context).tick) := by
  rcases exists_of_scanToken scanned with ⟨found, scanner, reached, run, made, rfl⟩
  exact ⟨_, rfl, fun limit => @scanToken_of_some { context with limit } _ _ _ _ run made⟩

theorem operations_scanToken (scanned : context.scanToken = some (token, after)) :
    after.operations = context.operations + 1 := by
  rcases exists_uncounted scanned with ⟨scanner, rfl, _⟩
  exact operations_tick _

theorem LooksAhead.operations_le (looks : LooksAhead turns context after) :
    context.operations ≤ after.operations := by
  induction looks with
  | still => exact Nat.le_refl _
  | halted _ scanned _ =>
      rw [operations_scanToken scanned]
      exact Nat.le_succ _
  | @extra _ _ next _ token _ scanned _ _ _ ih =>
      have same : (next.consume token).operations = next.operations := rfl
      rw [same, operations_scanToken scanned] at ih
      exact Nat.le_of_succ_le ih
  | @solid _ context next _ _ scanned _ _ =>
      change context.operations ≤ next.operations
      rw [operations_scanToken scanned]
      exact Nat.le_succ _

/-- A scan stays within the limit, or it halts the parse. -/
theorem Within.scanToken (positive : 0 < limit) (within : Within limit left right)
    (scanned : right.scanToken = some (token, next)) :
    ∃ reached, left.scanToken = some (token, reached) ∧
      (Within limit reached next ∨ next.Exceeds limit ∧ reached.Halted) := by
  rcases within with ⟨unlimited, running, few, rfl⟩
  rcases exists_uncounted scanned with ⟨scanner, rfl, limited⟩
  refine ⟨_, limited limit, ?_⟩
  apply Within.tick positive
  exact ⟨unlimited, running, few, rfl⟩

theorem Within.idle (within : Within limit left right) (idle : right.Idle) : left.Idle := by
  rw [within.left_eq]
  exact ⟨idle.running, idle.unread⟩

/-- Looking ahead stays within the limit, or it halts the parse. -/
theorem Within.fill (positive : 0 < limit) (within : Within limit left right)
    (enough : turns ≤ fuel) (filled : right.fill turns = some after) :
    (∃ reached, left.fill fuel = some reached ∧ Within limit reached after) ∨
      after.Exceeds limit ∧ ∀ reached, left.fill fuel = some reached → reached.Halted := by
  replace filled := looksAhead_of_fill filled
  have stops {fuel : Nat} {left other : Context} {token : Tree} (idle : left.Idle)
      (scanned : left.scanToken = some (token, other)) (halted : other.Halted)
      (reached : Context) (ran : left.fill (fuel + 1) = some reached) : reached.Halted := by
    rw [fill_halted idle scanned halted] at ran
    cases ran
    exact halted
  induction filled generalizing left fuel with
  | still still =>
      cases fuel with
      | zero => omega
      | succ fuel =>
          have same : left.isHalted = true ∨ left.lookahead.isSome = true := by
            rw [within.left_eq]
            exact still
          exact Or.inl ⟨left, fill_still same, within⟩
  | halted idle scanned halted =>
      cases fuel with
      | zero => omega
      | succ fuel =>
          rcases within.scanToken positive scanned with ⟨other, limited, stays | ⟨beyond, stopped⟩⟩
          · rw [stays.running] at halted
            cases halted
          · exact Or.inr ⟨beyond, stops (within.idle idle) limited stopped⟩
  | extra idle scanned running extra rest ih =>
      cases fuel with
      | zero => omega
      | succ fuel =>
          rcases within.scanToken positive scanned with ⟨other, limited, stays | ⟨beyond, stopped⟩⟩
          · have same : other.isHalted = false := by
              rw [stays.left_eq]
              exact running
            rw [fill_extra (within.idle idle) limited same extra]
            refine ih ?_ (Nat.le_of_succ_le_succ enough)
            exact ⟨stays.unlimited, stays.running, stays.few, by rw [stays.left_eq]; rfl⟩
          · have onward := Nat.lt_of_lt_of_le beyond rest.operations_le
            exact Or.inr ⟨onward, stops (within.idle idle) limited stopped⟩
  | solid idle scanned running solid =>
      cases fuel with
      | zero => omega
      | succ fuel =>
          rcases within.scanToken positive scanned with ⟨other, limited, stays | ⟨beyond, stopped⟩⟩
          · have same : other.isHalted = false := by
              rw [stays.left_eq]
              exact running
            refine Or.inl ⟨_, fill_solid (within.idle idle) limited same solid, ?_⟩
            exact ⟨stays.unlimited, stays.running, stays.few, by rw [stays.left_eq]⟩
          · exact Or.inr ⟨beyond, stops (within.idle idle) limited stopped⟩

/-! ## The end of a parse -/

@[simp] theorem operations_lastToken (context : Context) :
    context.lastToken.2.operations = context.operations := by
  unfold lastToken
  split
  · rfl
  · dsimp only
    split <;> rfl

/-- The token that ends the tree does not depend on the limit. -/
theorem lastToken_limit (context : Context) (limit : Nat) :
    ({ context with limit } : Context).lastToken =
      (context.lastToken.1, { context.lastToken.2 with limit }) := by
  unfold lastToken
  dsimp only
  split
  · rfl
  · split <;> rfl

theorem Within.budget_le (within : Within limit left right) : right.budget ≤ left.budget := by
  rw [within.left_eq]
  simp only [budget, within.unlimited]
  omega

end Context

namespace Parsing

open Context (Within Exceeds Halted)

variable {α β : Type} {limit : Nat} {program : Parsing α}

/-- The programs do the same until one operation is too many and halts the first one. -/
abbrev SimulatesWithin {α : Type} (limit : Nat) (first second : Parsing α) : Prop :=
  SimulatesUntil Halted (Exceeds limit) (Within limit) first second

/-! ## Programs that perform no operation -/

/-- The program performs no operation, halts no parse and does not ask for the limit. -/
def Uncounted (program : Parsing α) : Prop :=
  ∀ ⦃context : Context⦄ ⦃value : α⦄ ⦃after : Context⦄, program.run context = .ok (value, after) →
    after.limit = context.limit ∧ after.isHalted = context.isHalted ∧
      after.operations = context.operations ∧
      ∀ limit, program.run { context with limit } = .ok (value, { after with limit })

namespace Uncounted

theorem pure (value : α) : Uncounted (Pure.pure value : Parsing α) := by
  intro context result after run
  cases run
  exact ⟨rfl, rfl, rfl, fun _ => rfl⟩

theorem fault (fault : Fault) : Uncounted (throw fault : Parsing α) := by
  intro context result after run
  cases run

theorem bind {first : Parsing α} {next : α → Parsing β} (head : Uncounted first)
    (tail : ∀ value, Uncounted (next value)) : Uncounted (first >>= next) := by
  intro context result after run
  rcases run_bind_ok run with ⟨value, between, start, rest⟩
  rcases head start with ⟨limited, halted, counted, starts⟩
  rcases tail value rest with ⟨stillLimited, stillHalted, stillCounted, ends⟩
  refine ⟨stillLimited.trans limited, stillHalted.trans halted, stillCounted.trans counted, ?_⟩
  intro limit
  exact (run_bind_of_ok (starts limit)).trans (ends limit)

theorem ite {condition : Prop} [Decidable condition] {positive negative : Parsing α}
    (left : Uncounted positive) (right : Uncounted negative) :
    Uncounted (if condition then positive else negative) := by
  split
  · exact left
  · exact right

/-- The state is read, but for the limit. -/
theorem get {next : Context → Parsing α}
    (same : ∀ context limit, next { context with limit } = next context)
    (inner : ∀ context, Uncounted (next context)) : Uncounted (MonadState.get >>= next) := by
  intro context result after run
  rcases run_bind_ok run with ⟨_, _, read, rest⟩
  cases read
  rcases inner context rest with ⟨limited, halted, counted, ends⟩
  refine ⟨limited, halted, counted, fun limit => ?_⟩
  refine (run_bind_of_ok rfl).trans ?_
  rw [same]
  exact ends limit

theorem modify {change : Context → Context}
    (keeps : ∀ context, (change context).limit = context.limit ∧
      (change context).isHalted = context.isHalted ∧
      (change context).operations = context.operations ∧
      ∀ limit, change { context with limit } = { change context with limit }) :
    Uncounted (MonadStateOf.modifyGet fun context => ((), change context) : Parsing Unit) := by
  intro context result after run
  cases run
  rcases keeps context with ⟨limited, halted, counted, same⟩
  refine ⟨limited, halted, counted, fun limit => ?_⟩
  exact congrArg (fun after => Except.ok ((), after)) (same limit)

/-- A program that performs no operation stays within every limit. -/
theorem simulates (uncounted : Uncounted program) :
    SimulatesWithin limit program program where
  stays context value after run halted := (uncounted run).2.1.trans halted
  spends context value after run exceeds := by
    unfold Exceeds
    rw [(uncounted run).2.2.1]
    exact exceeds
  goes left right within value after run := by
    rcases within with ⟨unlimited, running, few, rfl⟩
    rcases uncounted run with ⟨limited, halted, counted, same⟩
    refine Or.inl ⟨_, same limit, limited.trans unlimited, halted.trans running, ?_, rfl⟩
    rw [counted]
    exact few

end Uncounted

theorem uncounted_report (notice : Notice) : Uncounted (report notice) :=
  .modify fun _ => ⟨rfl, rfl, rfl, fun _ => rfl⟩

theorem uncounted_symbolName (symbol : Nat) : Uncounted (symbolName symbol) :=
  .get (fun _ _ => rfl) fun _ => .pure _

/-- The record is changed. -/
theorem uncounted_record {change : Context → Array Event}
    (same : ∀ context limit, change { context with limit } = change context) :
    Uncounted (MonadStateOf.modifyGet fun context : Context =>
      ((), { context with events := change context }) : Parsing Unit) := by
  refine .modify fun context => ⟨rfl, rfl, rfl, fun limit => ?_⟩
  dsimp only
  rw [same]

theorem uncounted_start : Uncounted start :=
  .get (fun _ _ => rfl) fun _ => .bind (uncounted_record fun _ _ => rfl) fun _ => .pure _

theorem uncounted_missing (symbol : Nat) : Uncounted (missing symbol) :=
  .bind (uncounted_symbolName symbol) fun _ => .bind (uncounted_report _) fun _ =>
    uncounted_record fun _ _ => rfl

theorem uncounted_abandon (node : OpenNode) : Uncounted (abandon node) := by
  refine .modify fun context => ?_
  by_cases last : node.place + 1 = context.events.size
  · simp only [last, if_true, implies_true, and_self]
  · simp only [last, if_false, implies_true, and_self]

theorem uncounted_precede (node : CompleteNode) : Uncounted (precede node) := by
  refine .bind uncounted_start fun wrapper => .get (fun _ _ => rfl) fun context => ?_
  split
  · exact .bind (uncounted_record fun _ _ => rfl) fun _ => .pure _
  · exact .bind (uncounted_record fun _ _ => rfl) fun _ => .pure _
  · exact .fault _
  · exact .fault _

theorem uncounted_setField (node : CompleteNode) (field : Nat) :
    Uncounted (setField node field) := by
  refine .get (fun _ _ => rfl) fun context => ?_
  split
  · exact uncounted_record fun _ _ => rfl
  · exact uncounted_record fun _ _ => rfl
  · exact .fault _
  · exact .fault _

theorem uncounted_setState (node : CompleteNode) (state : Nat) :
    Uncounted (setState node state) := by
  refine .get (fun _ _ => rfl) fun context => ?_
  split
  · exact uncounted_record fun _ _ => rfl
  · exact .pure _
  · exact .fault _

/-! ## Programs that perform operations -/

section Counted

variable (positive : 0 < limit)

theorem simulates_get {next : Context → Parsing α}
    (same : ∀ context limit, next { context with limit } = next context)
    (inner : ∀ context,
      SimulatesWithin limit (next context) (next context)) :
    SimulatesWithin limit (MonadState.get >>= next)
      (MonadState.get >>= next) where
  stays := Preserves.get.bind fun context => (inner context).stays
  spends := Preserves.get.bind fun context => (inner context).spends
  goes left right within value after run := by
    rcases run_bind_ok run with ⟨_, _, read, rest⟩
    cases read
    have begins : (MonadState.get >>= next).run left = (next right).run left := by
      refine (run_bind_of_ok rfl).trans ?_
      rw [within.left_eq, same]
    rw [begins]
    exact (inner right).goes within rest

include positive

theorem simulates_tick :
    SimulatesWithin limit
      (MonadStateOf.modifyGet fun context : Context => ((), context.tick) : Parsing Unit)
      (MonadStateOf.modifyGet fun context : Context => ((), context.tick)) where
  stays := .modify fun _ halted => halted.tick
  spends := .modify fun _ exceeds => exceeds.tick
  goes left right within value after run := by
    cases run
    rcases within.tick positive with stays | ⟨beyond, halted⟩
    · exact Or.inl ⟨left.tick, rfl, stays⟩
    · refine Or.inr ⟨beyond, fun other reached ran => ?_⟩
      cases ran
      exact halted

theorem simulates_peek_within :
    SimulatesWithin limit peek peek where
  stays context value after run halted := by
    rw [run_peek (fill_of_still (Or.inl halted))] at run
    cases run
    exact halted
  spends context value after run exceeds := by
    cases filling : context.fill context.budget with
    | none =>
        rw [run_peek_endless filling] at run
        cases run
    | some filled =>
        rw [run_peek filling] at run
        cases run
        exact Nat.lt_of_lt_of_le exceeds (Context.looksAhead_of_fill filling).operations_le
  goes left right within value after run := by
    cases filling : right.fill right.budget with
    | none =>
        rw [run_peek_endless filling] at run
        cases run
    | some filled =>
        rw [run_peek filling] at run
        cases run
        rcases within.fill positive within.budget_le filling with
          ⟨reached, fills, stays⟩ | ⟨beyond, apart⟩
        · left
          have ahead : reached.ahead = after.ahead := by
            rw [stays.left_eq]
            rfl
          refine ⟨reached, ?_, stays⟩
          rw [run_peek fills, ahead]
        · refine Or.inr ⟨beyond, fun other reached ran => ?_⟩
          cases fills : left.fill left.budget with
          | none =>
              rw [run_peek_endless fills] at ran
              cases ran
          | some middle =>
              rw [run_peek fills] at ran
              cases ran
              exact apart _ fills

theorem simulates_bump_within :
    SimulatesWithin limit bump bump := by
  refine (simulates_peek_within positive).bind fun symbol => .ite ?_ (.pure _)
  refine simulates_get (fun _ _ => rfl) fun context => ?_
  split
  · exact .pure _
  · refine (uncounted_symbolName _).simulates.bind fun _ => ?_
    refine (uncounted_report _).simulates.bind fun _ => ?_
    refine Uncounted.simulates ?_
    exact .modify fun _ => ⟨rfl, rfl, rfl, fun _ => rfl⟩

theorem simulates_complete_within (node : OpenNode) (symbol : Nat) :
    SimulatesWithin limit (complete node symbol)
      (complete node symbol) := by
  refine simulates_get (fun _ _ => rfl) fun context => ?_
  split
  · refine (uncounted_record fun _ _ => rfl).simulates.bind fun _ => ?_
    refine (uncounted_symbolName _).simulates.bind fun _ => ?_
    refine (uncounted_report _).simulates.bind fun _ => ?_
    exact (simulates_tick positive).bind fun _ => .pure _
  · exact (Uncounted.fault _).simulates
  · exact (Uncounted.fault _).simulates

theorem simulates_skipToken_within :
    SimulatesWithin limit skipToken skipToken := by
  refine (simulates_peek_within positive).bind fun symbol => .ite ?_ (.pure _)
  refine (uncounted_symbolName _).simulates.bind fun _ => ?_
  refine (uncounted_report _).simulates.bind fun _ => ?_
  refine uncounted_start.simulates.bind fun node => ?_
  refine (simulates_bump_within positive).bind fun _ => ?_
  exact (simulates_complete_within positive node errorSymbol).discard

/-- A subtree that was found is taken over. -/
theorem simulates_adopt (tree : Tree) : SimulatesWithin limit (adopt tree) (adopt tree) := by
  refine (uncounted_symbolName _).simulates.bind fun _ => ?_
  refine (uncounted_report _).simulates.bind fun _ => ?_
  have moves : Uncounted (modify fun context =>
      let position := context.position + tree.total
      { context with position, scanner := context.scanner.reset position } : Parsing Unit) :=
    .modify fun _ => ⟨rfl, rfl, rfl, fun _ => rfl⟩
  have records : Uncounted (modify (·.record (.added tree none 0)) : Parsing Unit) :=
    .modify fun _ => ⟨rfl, rfl, rfl, fun _ => rfl⟩
  refine moves.simulates.bind fun _ => simulates_get (fun _ _ => rfl) fun context => ?_
  have counts := records.simulates.bind fun _ => simulates_tick positive
  exact counts.bind fun _ => .pure _

theorem simulates_reuse_within (state : Nat) :
    SimulatesWithin limit (reuse state) (reuse state) := by
  refine simulates_get (fun _ _ => rfl) fun context => .ite (.pure _) ?_
  split
  · exact .pure _
  · split
    · exact .pure _
    · have drops : Uncounted (modify fun context =>
          { context with lookahead := none } : Parsing Unit) :=
        .modify fun _ => ⟨rfl, rfl, rfl, fun _ => rfl⟩
      refine .ite ?_ (simulates_adopt positive _)
      refine drops.simulates.bind fun _ => (uncounted_report _).simulates.bind fun _ => ?_
      exact simulates_adopt positive _

/-- The operations do the same until one is too many. -/
theorem operationsSimulate_within :
    OperationsSimulateUntil Halted (Exceeds limit) (Within limit) where
  stays :=
    { remark := fun _ => .modify fun _ halted => halted
      peek := (simulates_peek_within positive).stays
      bump := (simulates_bump_within positive).stays
      missing := fun symbol => (@Uncounted.simulates _ limit _ (uncounted_missing symbol)).stays
      start := (@Uncounted.simulates _ limit _ uncounted_start).stays
      complete := fun node symbol => (simulates_complete_within positive node symbol).stays
      abandon := fun node => (@Uncounted.simulates _ limit _ (uncounted_abandon node)).stays
      precede := fun node => (@Uncounted.simulates _ limit _ (uncounted_precede node)).stays
      setField := fun node field =>
        (@Uncounted.simulates _ limit _ (uncounted_setField node field)).stays
      setState := fun node state =>
        (@Uncounted.simulates _ limit _ (uncounted_setState node state)).stays
      skipToken := (simulates_skipToken_within positive).stays
      reuse := fun state => (simulates_reuse_within positive state).stays }
  peek := simulates_peek_within positive
  bump := simulates_bump_within positive
  missing symbol := (uncounted_missing symbol).simulates
  start := uncounted_start.simulates
  complete := simulates_complete_within positive
  abandon node := (uncounted_abandon node).simulates
  precede node := (uncounted_precede node).simulates
  setField node field := (uncounted_setField node field).simulates
  setState node state := (uncounted_setState node state).simulates
  skipToken := simulates_skipToken_within positive
  reuse := simulates_reuse_within positive

/-- A whole parse performs no operations beyond those of the grammar and of skipping the rest. If
the parse without a limit stays within a limit, the parse with it gives the same tree. If it
exceeds the limit, the parse with it is halted when the rest is skipped. -/
theorem wholeTree_within {grammar : Parsing Unit}
    (simulates : SimulatesWithin limit grammar grammar) {left right after : Context} {tree : Tree}
    (within : Within limit left right) (run : (wholeTree grammar).run right = .ok (tree, after)) :
    (after.operations ≤ limit → ∃ reached, (wholeTree grammar).run left = .ok (tree, reached)) ∧
      (limit < after.operations → ∀ parsed skipped,
        grammar.run (left.report .began) = .ok ((), parsed) →
          (skipRest parsed.budget).run parsed = .ok ((), skipped) → skipped.isHalted = true) := by
  have operations := operationsSimulate_within positive
  have begun : Within limit (left.report .began) (right.report .began) :=
    ⟨within.unlimited, within.running, within.few, by rw [within.left_eq]; rfl⟩
  rcases run_wholeTree_ok run with ⟨parsed, skipped, items, parse, skip, fold, rfl, rfl⟩
  have counted : (skipped.lastToken.2.report .finished).operations = skipped.operations :=
    Context.operations_lastToken skipped
  rw [counted]
  rcases simulates.goes begun parse with ⟨middle, parses, stays⟩ | ⟨beyond, apart⟩
  · have enough : parsed.budget ≤ middle.budget := stays.budget_le
    rcases (operations.skipRest enough).goes stays skip with ⟨last, skips, stays⟩ | ⟨beyond, apart⟩
    · -- the limit was not in the way, so the last token and the record are the same
      constructor
      · intro _
        have ends := Context.lastToken_limit skipped limit
        rw [← stays.left_eq] at ends
        have folds :
            Event.fold? last.lastToken.2.vocabulary last.lastToken.2.events = .ok items := by
          rw [ends]
          exact fold
        have whole := run_wholeTree_of_ok parses skips folds
        rw [ends] at whole
        exact ⟨_, whole⟩
      · intro more
        have few := stays.few
        omega
    · -- one operation too many was performed when the rest was skipped
      constructor
      · intro few
        unfold Exceeds at beyond
        omega
      · intro _ other reached parsesAgain skips
        obtain rfl : middle = other := by
          rw [parses] at parsesAgain
          cases parsesAgain
          rfl
        exact apart skips
  · -- the grammar performed it, and skipping the rest takes no operation back
    have onward : skipped.Exceeds limit := (operations.skipRest (Nat.le_refl _)).spends skip beyond
    constructor
    · intro few
      unfold Exceeds at onward
      omega
    · intro _ other reached parses skips
      exact operations.stays.skipRest _ skips (apart parses)

end Counted

/-- A program that goes along with itself within every limit halts no parse that has none. -/
theorem running_of_unlimited {program : Parsing α} {context after : Context} {value : α}
    (simulates : ∀ limit, 0 < limit → SimulatesWithin limit program program)
    (unlimited : context.limit = 0) (running : context.isHalted = false)
    (run : program.run context = .ok (value, after)) :
    after.limit = 0 ∧ after.isHalted = false := by
  let limit := context.operations + after.operations + 1
  have few : context.operations ≤ limit := by omega
  have within : Within limit { context with limit } context := ⟨unlimited, running, few, rfl⟩
  rcases (simulates limit (Nat.succ_pos _)).goes within run with ⟨_, _, stays⟩ | ⟨beyond, _⟩
  · exact ⟨stays.unlimited, stays.running⟩
  · have more : limit < after.operations := beyond
    omega

end Parsing

namespace Parser

variable {parser : Parser} {language : Language} {text : Text} {old : Option Document}
  {limit : Nat} {full : Parsed}

/-- The number of operations that a parse performs, if it comes to an end. -/
def operations (parser : Parser) (language : Language) (text : Text) (old : Option Document) :
    Option Nat :=
  let older := parser.reusableTree language old
  let context :=
    Context.new language.vocabulary language.program text parser.included older parser.limit
  match StateT.run (Parsing.wholeTree language.grammar) context with
  | .error _ => none
  | .ok (_, context) => some context.operations

/-- If a parse without a limit stays within one, the parse with it gives the same tree. If it
exceeds the limit, the parse with it is halted when the rest is skipped. -/
theorem parseIn_limited (positive : 0 < limit)
    (simulates : Parsing.SimulatesWithin limit language.grammar language.grammar)
    (unlimited : parser.limit = 0) (run : parser.parseIn language text old = .ok full) :
    ∃ count, parser.operations language text old = some count ∧
      (count ≤ limit → ∃ cut, { parser with limit }.parseIn language text old = .ok cut ∧
        cut.document.tree = full.document.tree) ∧
      (limit < count → ∀ parsed skipped,
        language.grammar.run ({ parser with limit }.begun language text old) = .ok ((), parsed) →
          (Parsing.skipRest parsed.budget).run parsed = .ok ((), skipped) →
            skipped.isHalted = true) := by
  let older := parser.reusableTree language old
  cases whole : StateT.run (Parsing.wholeTree language.grammar)
      (Context.new language.vocabulary language.program text parser.included older
        parser.limit) with
  | error fault =>
      dsimp only [parseIn] at run
      rw [whole] at run
      cases run
  | ok result =>
      rcases result with ⟨tree, after⟩
      dsimp only [parseIn] at run
      rw [whole] at run
      cases run
      have counted : parser.operations language text old = some after.operations := by
        dsimp only [operations]
        rw [whole]
      have within : Context.Within limit
          (Context.new language.vocabulary language.program text parser.included older limit)
          (Context.new language.vocabulary language.program text parser.included older
            parser.limit) :=
        ⟨unlimited, rfl, Nat.zero_le _, rfl⟩
      rcases Parsing.wholeTree_within positive simulates within whole with ⟨enough, beyond⟩
      refine ⟨after.operations, counted, fun few => ?_, beyond⟩
      rcases enough few with ⟨reached, same⟩
      have limited : StateT.run (Parsing.wholeTree language.grammar)
          (Context.new language.vocabulary language.program text { parser with limit }.included
            ({ parser with limit }.reusableTree language old) limit) = .ok (tree, reached) := same
      dsimp only [parseIn]
      rw [limited]
      exact ⟨_, rfl, rfl⟩

end Parser

end Reparse
