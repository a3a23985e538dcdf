import Reparse.Parser
import Reparse.Proofs.Parse.Building
import Reparse.Proofs.Parse.Scans

/-!
# The calls of a whole run

`Calls` follows a grammar from the state it was started in through calls that are made in order, with
the draft that the calls describe and the tokens that were scanned on the way. What the parser does
after the grammar, skipping the rest of the input, continues such a run, and how both end decides
what a parse answers.

Only a few calls move a parse on: the others leave the scanner, the position and the token ahead as
they are (`Context.SameView`).
-/

namespace Reparse

namespace Context

variable {context after next : Context}

/-- A state that differs in its record and its log only, but for a parse that may be halted now. -/
structure SameView (context after : Context) : Prop where
  vocabulary_eq : after.vocabulary = context.vocabulary
  program_eq : after.program = context.program
  older_eq : after.older = context.older
  position_eq : after.position = context.position
  lookahead_eq : after.lookahead = context.lookahead
  limit_eq : after.limit = context.limit
  scanner_eq : ∃ log, after.scanner = { context.scanner with log }
  halts : context.isHalted = true → after.isHalted = true

namespace SameView

theorem refl (context : Context) : context.SameView context :=
  ⟨rfl, rfl, rfl, rfl, rfl, rfl, ⟨_, rfl⟩, id⟩

theorem trans (first : context.SameView after) (second : after.SameView next) :
    context.SameView next where
  vocabulary_eq := second.vocabulary_eq.trans first.vocabulary_eq
  program_eq := second.program_eq.trans first.program_eq
  older_eq := second.older_eq.trans first.older_eq
  position_eq := second.position_eq.trans first.position_eq
  lookahead_eq := second.lookahead_eq.trans first.lookahead_eq
  limit_eq := second.limit_eq.trans first.limit_eq
  scanner_eq := by
    rcases first.scanner_eq with ⟨_, one⟩
    rcases second.scanner_eq with ⟨log, other⟩
    exact ⟨log, by rw [other, one]⟩
  halts halted := second.halts (first.halts halted)

theorem report (context : Context) (notice : Notice) : context.SameView (context.report notice) :=
  ⟨rfl, rfl, rfl, rfl, rfl, rfl, ⟨_, rfl⟩, id⟩

theorem remark (context : Context) (remark : Remark) :
    context.SameView { context with remarks := remark :: context.remarks } :=
  ⟨rfl, rfl, rfl, rfl, rfl, rfl, ⟨_, rfl⟩, id⟩

theorem tick (context : Context) : context.SameView context.tick := by
  dsimp only [Context.tick]
  split
  · exact ⟨rfl, rfl, rfl, rfl, rfl, rfl, ⟨_, rfl⟩, fun _ => rfl⟩
  · exact ⟨rfl, rfl, rfl, rfl, rfl, rfl, ⟨_, rfl⟩, id⟩

theorem withEvents (context : Context) (events : Array Event) :
    context.SameView { context with events } :=
  ⟨rfl, rfl, rfl, rfl, rfl, rfl, ⟨_, rfl⟩, id⟩

theorem unseen (context : Context) :
    ({ context with lookahead := none } : Context).SameView context.unseen := by
  unfold Context.unseen
  split
  · exact SameView.report _ _
  · rename_i unread
    rw [Bool.not_eq_true, Option.isSome_eq_false_iff, Option.isNone_iff_eq_none] at unread
    exact ⟨rfl, rfl, rfl, rfl, unread, rfl, ⟨_, rfl⟩, id⟩

end SameView

end Context

namespace Parsing

open Context (SameView)

variable {context start_ : Context}

theorem sameView_modify {change : Context → Context}
    (keeps : ∀ context : Context, context.SameView (change context)) :
    Preserves context.SameView
      (MonadStateOf.modifyGet fun context => ((), change context) : Parsing Unit) :=
  .modify fun between same => same.trans (keeps between)

theorem sameView_symbolName (symbol : Nat) : Preserves context.SameView (symbolName symbol) :=
  .bind .get fun _ => .pure _

theorem sameView_report (notice : Notice) : Preserves context.SameView (report notice) :=
  sameView_modify fun between => SameView.report between notice

/-- The record of a parse has no influence on what it sees. -/
theorem sameView_record (change : Context → Array Event) :
    Preserves context.SameView
      (MonadStateOf.modifyGet fun context : Context =>
        ((), { context with events := change context }) : Parsing Unit) :=
  sameView_modify fun between => SameView.withEvents between _

theorem sameView_start : Preserves context.SameView start :=
  .bind .get fun _ => .bind (sameView_record _) fun _ => .pure _

theorem sameView_missing (symbol : Nat) : Preserves context.SameView (missing symbol) :=
  .bind (sameView_symbolName _) fun _ => .bind (sameView_report _) fun _ => sameView_record _

theorem sameView_complete (node : OpenNode) (symbol : Nat) :
    Preserves context.SameView (complete node symbol) := by
  refine .bind .get fun _ => ?_
  split
  · exact .bind (sameView_record _) fun _ => .bind (sameView_symbolName _) fun _ =>
      .bind (sameView_report _) fun _ => .bind (sameView_modify SameView.tick) fun _ => .pure _
  · exact .fault _
  · exact .fault _

theorem sameView_abandon (node : OpenNode) : Preserves context.SameView (abandon node) := by
  refine sameView_modify fun between => ?_
  split
  · exact SameView.withEvents between _
  · exact SameView.refl between

theorem sameView_precede (node : CompleteNode) : Preserves context.SameView (precede node) := by
  refine .bind sameView_start fun _ => .bind .get fun _ => ?_
  split
  · exact .bind (sameView_record _) fun _ => .pure _
  · exact .bind (sameView_record _) fun _ => .pure _
  · exact .fault _
  · exact .fault _

theorem sameView_setField (node : CompleteNode) (field : Nat) :
    Preserves context.SameView (setField node field) := by
  refine .bind .get fun _ => ?_
  split
  · exact sameView_record _
  · exact sameView_record _
  · exact .fault _
  · exact .fault _

theorem sameView_setState (node : CompleteNode) (state : Nat) :
    Preserves context.SameView (setState node state) := by
  refine .bind .get fun _ => ?_
  split
  · exact sameView_record _
  · exact .pure _
  · exact .fault _

/-- A program that keeps the view ends in a state of the same view. -/
theorem Preserves.sameView {α : Type} {program : Parsing α}
    (keeps : Preserves context.SameView program) {value : α} {after : Context}
    (run : program.run context = .ok (value, after)) : context.SameView after :=
  keeps run (SameView.refl context)

variable {after : Context}

theorem run_map_ok {α β : Type} {program : Parsing α} {change : α → β} {result : β}
    (run : (change <$> program).run context = .ok (result, after)) :
    ∃ value, program.run context = .ok (value, after) ∧ result = change value := by
  rw [StateT.run_map] at run
  cases inner : program.run context with
  | error fault =>
      rw [inner] at run
      cases run
  | ok produced =>
      rw [inner] at run
      cases run
      exact ⟨produced.1, rfl, rfl⟩

theorem run_discard_ok {α : Type} {program : Parsing α} {result : Unit}
    (run : (discard program).run context = .ok (result, after)) :
    ∃ value, program.run context = .ok (value, after) := by
  change (program >>= fun _ => pure () : Parsing Unit).run context = _ at run
  rcases Parsing.run_bind_ok run with ⟨value, between, first, rest⟩
  cases rest
  exact ⟨value, first⟩

end Parsing

/-! ## Tokens that are consumed -/

variable {context after : Context}

namespace Context

theorem running_of_ahead (more : context.ahead ≠ endSymbol) : context.isHalted = false := by
  unfold ahead at more
  split at more
  · exact absurd rfl more
  · rename_i running
    simpa using running

/-- The parse has looked ahead and consumed the token that it saw, unless that is the end of the
input. -/
def Consumes (context after : Context) : Prop :=
  ∃ filled, context.fill context.budget = some filled ∧
    (filled.ahead = endSymbol ∧ after = filled ∨
      ∃ token seen, filled.ahead ≠ endSymbol ∧ filled.lookahead = some token ∧
        filled.SameView seen ∧ seen.isHalted = false ∧
        (({ seen with lookahead := none } : Context).consume token).SameView after)

end Context

namespace Parsing

open Context (SameView)

theorem consumes_bump (run : bump.run context = .ok ((), after)) : context.Consumes after := by
  cases filling : context.fill context.budget with
  | none =>
      rw [show bump.run context = .error .endless from run_bind_endless filling] at run
      cases run
  | some filled =>
      refine ⟨filled, filling, ?_⟩
      by_cases ends : filled.ahead = endSymbol
      · rw [run_bump_of_end filling ends] at run
        cases run
        exact Or.inl ⟨ends, rfl⟩
      · rcases lookahead_of_ahead ends with ⟨token, ahead⟩
        rw [run_bump_of_token filling ends ahead] at run
        cases run
        exact Or.inr ⟨token, _, ends, ahead, SameView.report _ _, Context.running_of_ahead ends,
          SameView.refl _⟩

theorem consumes_skipToken (run : skipToken.run context = .ok ((), after)) :
    context.Consumes after := by
  rcases run_bind_ok run with ⟨symbol, filled, peek, rest⟩
  cases filling : context.fill context.budget with
  | none =>
      rw [run_peek_endless filling] at peek
      cases peek
  | some reached =>
      rw [run_peek filling] at peek
      cases peek
      refine ⟨filled, filling, ?_⟩
      split at rest
      · rename_i more
        rcases run_bind_ok rest with ⟨_, _, read, rest⟩
        rcases run_bind_ok rest with ⟨_, reported, report, rest⟩
        rcases run_bind_ok rest with ⟨node, opened, start, rest⟩
        rcases run_bind_ok rest with ⟨_, bumped, consumed, rest⟩
        rcases run_discard_ok rest with ⟨_, complete⟩
        cases read
        cases report
        cases start
        rcases lookahead_of_ahead more with ⟨token, ahead⟩
        let opened := (filled.report (.skipped (filled.vocabulary.symbolName filled.ahead))).record
          Event.blank
        have again : opened.fill opened.budget = some opened :=
          fill_of_lookahead (show opened.lookahead = some token from ahead)
        have bumped_eq := run_bump_of_token again more ahead
        rw [show bump.run opened = .ok ((), bumped) from consumed] at bumped_eq
        cases bumped_eq
        have seen : filled.SameView
            (opened.report (.shifted (opened.vocabulary.symbolName token.info.symbol))) :=
          ((SameView.report _ _).trans (SameView.withEvents _ _)).trans (SameView.report _ _)
        exact Or.inr ⟨token, _, more, ahead, seen, Context.running_of_ahead more,
          (sameView_complete _ _).sameView complete⟩
      · rename_i ends
        cases rest
        exact Or.inl ⟨by simpa using ends, rfl⟩

end Parsing

/-! ## Subtrees that are taken over -/

namespace Parsing

open Context (SameView)

theorem sameView_adopt (seen : Context) (tree : Tree) :
    (seen.pass tree).SameView ((seen.pass tree).record (.added tree none 0)).tick :=
  (SameView.withEvents _ _).trans (SameView.tick _)

/-- Either nothing is found, or the parse goes on behind a subtree. -/
theorem run_reuse_ok {state : Nat} {result : Option CompleteNode}
    (run : (reuse state).run context = .ok (result, after)) :
    result = none ∧ after = context ∨
      ∃ tree seen, result = some ⟨context.events.size⟩ ∧ context.reusable state = some tree ∧
        ({ context with lookahead := none } : Context).SameView seen ∧
        (seen.pass tree).SameView after ∧
        after.events = context.events.push (.added tree none 0) := by
  cases found : context.reusable state with
  | none =>
      rw [run_reuse_of_none found] at run
      cases run
      exact Or.inl ⟨rfl, rfl⟩
  | some tree =>
      rw [run_reuse_of_reusable found, run_adopt] at run
      cases run
      have seen := (SameView.unseen context).trans (SameView.report _
        (.reused (context.unseen.vocabulary.symbolName tree.info.symbol)))
      refine Or.inr ⟨tree, _, ?_, rfl, seen, sameView_adopt _ tree, ?_⟩
      · rw [Context.events_unseen]
      · rw [Context.events_tick, ← context.events_unseen]
        rfl

end Parsing

/-! ## Calls -/

namespace Context

/-- The tokens that are scanned until one shows that is no extra, in at most `fuel` scans. -/
def scansAhead (context : Context) : Nat → List Scan
  | 0 => []
  | fuel + 1 =>
    if context.isHalted ∨ context.lookahead.isSome then []
    else
      match context.scanToken, context.scannedSpan with
      | some (token, next), some span =>
        ⟨token, span⟩ ::
          if next.isHalted then []
          else if token.info.extra then (next.consume token).scansAhead fuel
          else []
      | _, _ => []

section ScansAhead

variable {context next : Context} {token : Tree} {span : Span} {fuel : Nat}

theorem scansAhead_still (still : context.isHalted = true ∨ context.lookahead.isSome = true) :
    context.scansAhead (fuel + 1) = [] := by
  rw [scansAhead, if_pos still]

variable (idle : context.Idle) (scanned : context.scanToken = some (token, next))
  (said : context.scannedSpan = some span)

include idle scanned said

theorem scansAhead_halted (halted : next.isHalted = true) :
    context.scansAhead (fuel + 1) = [⟨token, span⟩] := by
  rw [scansAhead, if_neg idle.not_still, scanned, said]
  dsimp only
  rw [if_pos halted]

theorem scansAhead_extra (running : next.isHalted = false) (extra : token.info.extra = true) :
    context.scansAhead (fuel + 1) = ⟨token, span⟩ :: (next.consume token).scansAhead fuel := by
  rw [scansAhead, if_neg idle.not_still, scanned, said]
  dsimp only
  rw [if_neg (by simp [running]), if_pos extra]

theorem scansAhead_solid (running : next.isHalted = false) (solid : token.info.extra = false) :
    context.scansAhead (fuel + 1) = [⟨token, span⟩] := by
  rw [scansAhead, if_neg idle.not_still, scanned, said]
  dsimp only
  rw [if_neg (by simp [running]), if_neg (by simp [solid])]

end ScansAhead

end Context

namespace Call

/-- The tokens that a call scans. -/
def scans (context : Context) : Call → List Scan
  | peek | bump | skipToken => context.scansAhead context.budget
  | _ => []

/-- The call neither scans a token nor takes over a subtree. -/
def IsQuiet : Call → Prop
  | peek | bump | skipToken | reuse _ => False
  | _ => True

theorem sameView {call : Call} {handle : Handle} (quiet : call.IsQuiet)
    (run : call.perform.run context = .ok (handle, after)) : context.SameView after := by
  cases call with
  | start =>
      rcases Parsing.run_map_ok run with ⟨_, inner, _⟩
      exact Parsing.sameView_start.sameView inner
  | complete node symbol =>
      rcases Parsing.run_map_ok run with ⟨_, inner, _⟩
      exact (Parsing.sameView_complete _ _).sameView inner
  | abandon node =>
      rcases Parsing.run_map_ok run with ⟨_, inner, _⟩
      exact (Parsing.sameView_abandon _).sameView inner
  | precede node =>
      rcases Parsing.run_map_ok run with ⟨_, inner, _⟩
      exact (Parsing.sameView_precede _).sameView inner
  | missing symbol =>
      rcases Parsing.run_map_ok run with ⟨_, inner, _⟩
      exact (Parsing.sameView_missing _).sameView inner
  | setField node field =>
      rcases Parsing.run_map_ok run with ⟨_, inner, _⟩
      exact (Parsing.sameView_setField _ _).sameView inner
  | setState node state =>
      rcases Parsing.run_map_ok run with ⟨_, inner, _⟩
      exact (Parsing.sameView_setState _ _).sameView inner
  | peek | bump | skipToken | reuse _ => exact quiet.elim

end Call

/-! ## What a call consumes -/

/-- How a call moves a parse on: the leaves that it adds and the tokens that it scans. -/
inductive Context.Moves (context after : Context) : List Tree → List Scan → Prop where
  | stays (same : context.SameView after) : Moves context after [] []
  | misses (symbol : Nat) (same : context.SameView after) :
      Moves context after [Tree.missing symbol (context.vocabulary.kind symbol)] []
  | looks (filled : context.fill context.budget = some after) :
      Moves context after context.extras (context.scansAhead context.budget)
  | consumes (consumes : context.Consumes after) :
      Moves context after (context.extras ++ context.nextToken.toList)
        (context.scansAhead context.budget)
  | reuses {state : Nat} {tree : Tree} (found : context.reusable state = some tree) :
      Moves context after [tree] []

/-- What a call adds to the draft is what it consumes. -/
theorem Call.moves {call : Call} {handle : Handle} (draft : Draft)
    (run : call.perform.run context = .ok (handle, after)) :
    ∃ added, context.Moves after added (call.scans context) ∧
      (draft.after context call handle).consumed = draft.consumed ++ added := by
  have view (quiet : call.IsQuiet) : context.SameView after := Call.sameView quiet run
  cases call with
  | start =>
      rcases Parsing.run_map_ok run with ⟨node, inner, rfl⟩
      exact ⟨[], .stays (view trivial), (List.append_nil _).symm⟩
  | complete node symbol =>
      rcases Parsing.run_map_ok run with ⟨done, inner, rfl⟩
      refine ⟨[], .stays (view trivial), ?_⟩
      rw [Draft.after, Draft.consumed_hold, Draft.consumed_complete, List.append_nil]
  | abandon node =>
      rcases Parsing.run_map_ok run with ⟨_, inner, rfl⟩
      refine ⟨[], .stays (view trivial), ?_⟩
      rw [Draft.after, Draft.consumed_abandon, List.append_nil]
  | precede node =>
      rcases Parsing.run_map_ok run with ⟨wrapper, inner, rfl⟩
      exact ⟨[], .stays (view trivial), (List.append_nil _).symm⟩
  | peek =>
      rcases Parsing.run_map_ok run with ⟨symbol, inner, rfl⟩
      refine ⟨context.extras, .looks ?_, Draft.consumed_addAll _ _⟩
      cases filling : context.fill context.budget with
      | none =>
          rw [Parsing.run_peek_endless filling] at inner
          cases inner
      | some filled =>
          rw [Parsing.run_peek filling] at inner
          cases inner
          rfl
  | bump =>
      rcases Parsing.run_map_ok run with ⟨_, inner, rfl⟩
      exact ⟨_, .consumes (Parsing.consumes_bump inner), Draft.consumed_addAll _ _⟩
  | missing symbol =>
      rcases Parsing.run_map_ok run with ⟨_, inner, rfl⟩
      exact ⟨_, .misses symbol (view trivial), rfl⟩
  | skipToken =>
      rcases Parsing.run_map_ok run with ⟨_, inner, rfl⟩
      refine ⟨_, .consumes (Parsing.consumes_skipToken inner), ?_⟩
      rw [Draft.after]
      cases context.nextToken with
      | none => rw [Draft.consumed_addAll, Option.toList_none, List.append_nil]
      | some token =>
          simp only [Draft.skip, Draft.consumed_complete, Draft.consumed_add, Draft.consumed_start,
            Draft.consumed_addAll, Option.toList_some, List.append_assoc]
  | reuse state =>
      rcases Parsing.run_map_ok run with ⟨found, inner, rfl⟩
      rcases Parsing.run_reuse_ok inner with ⟨rfl, rfl⟩ | ⟨tree, seen, rfl, reusable, _⟩
      · exact ⟨[], .stays (.refl _), (List.append_nil _).symm⟩
      · refine ⟨[tree], .reuses reusable, ?_⟩
        simp [Draft.after, reusable]
  | setField node field =>
      rcases Parsing.run_map_ok run with ⟨_, inner, rfl⟩
      exact ⟨[], .stays (view trivial), (List.append_nil _).symm⟩
  | setState node state =>
      rcases Parsing.run_map_ok run with ⟨_, inner, rfl⟩
      exact ⟨[], .stays (view trivial), (List.append_nil _).symm⟩

/-- From one state of a parse, calls that are made in order lead to another. The draft is what the
calls describe, and the scans are all tokens that were scanned. -/
inductive Calls (begun : Context) : Context → Draft → List Scan → Prop where
  | begin : Calls begun begun Draft.empty []
  | remark {context : Context} {draft : Draft} {scans : List Scan}
      (calls : Calls begun context draft scans) (remark : Remark) :
      Calls begun { context with remarks := remark :: context.remarks } draft scans
  | call {context after : Context} {draft : Draft} {scans : List Scan} {call : Call}
      {handle : Handle} (calls : Calls begun context draft scans) (allowed : draft.Allows call)
      (run : call.perform.run context = .ok (handle, after)) :
      Calls begun after (draft.after context call handle) (scans ++ call.scans context)

namespace Calls

variable {begun context after : Context} {draft : Draft} {scans : List Scan}

theorem follows (calls : Calls begun context draft scans) (fresh : begun.events = #[]) :
    draft.Follows context := by
  induction calls with
  | begin =>
      rw [Draft.Follows, fresh]
      exact Draft.Records.empty
  | remark _ _ ih => exact ih
  | call _ allowed run ih =>
      rcases ih.call allowed with ⟨handle, after, succeeds, kept⟩ | ⟨_, endless⟩
      · rw [run] at succeeds
        cases succeeds
        exact kept
      · rw [run] at endless
        cases endless

theorem leaves (calls : Calls begun context draft scans) : draft.leaves = draft.consumed := by
  induction calls with
  | begin => rfl
  | remark _ _ ih => exact ih
  | call _ _ _ ih => exact Draft.leaves_after _ _ _ ih

theorem around_addAll (draft : Draft) (name : Nat) (trees : List Tree) :
    (draft.addAll name trees).around = draft.around := by
  induction trees generalizing draft name with
  | nil => rfl
  | cons tree rest ih => exact ih _ _

theorem around_complete {level : Level} {rest : List Level}
    (around : draft.around = level :: rest) (symbol : Nat) :
    (draft.complete symbol).around = rest := by
  simp [Draft.complete, around]

theorem around_peek (draft : Draft) (context : Context) (handle : Handle) :
    (draft.after context .peek handle).around = draft.around := around_addAll _ _ _

theorem around_skipToken (draft : Draft) (context : Context) (handle : Handle) :
    (draft.after context .skipToken handle).around = draft.around := by
  simp only [Draft.after]
  split
  · exact around_addAll _ _ _
  · simp only [Draft.skip, Draft.complete, Draft.start, Draft.add]
    exact around_addAll _ _ _

/-- Skipping the rest of the input goes on with calls in order, and does not end only if the scan of
a token does not. -/
theorem skipRest (calls : Calls begun context draft scans) (fresh : begun.events = #[])
    (turns : Nat) :
    (Parsing.skipRest turns).run context = .error .endless ∨
      ∃ skipped last all, (Parsing.skipRest turns).run context = .ok ((), skipped) ∧
        Calls begun skipped last all ∧ last.around = draft.around ∧
        skipped.ahead = endSymbol := by
  induction turns generalizing context draft scans with
  | zero => exact Or.inl rfl
  | succ turns ih =>
      cases filling : context.fill context.budget with
      | none =>
          left
          rw [Parsing.skipRest, Parsing.atEnd, Parsing.at?, bind_assoc]
          exact Parsing.run_bind_endless filling
      | some filled =>
          have peeked : (Call.perform .peek).run context = .ok (.none, filled) :=
            run_map_of_ok _ (Parsing.run_peek filling)
          have looked := @Calls.call _ _ _ _ _ .peek _ calls trivial peeked
          have ended : Parsing.atEnd.run context =
              .ok (filled.ahead == endSymbol, filled) :=
            (Parsing.run_bind_of_ok (Parsing.run_peek filling)).trans rfl
          rw [Parsing.skipRest, Parsing.run_bind_of_ok ended]
          by_cases final : filled.ahead = endSymbol
          · right
            refine ⟨filled, _, _, ?_, looked, around_peek _ _ _, final⟩
            simp only [final, BEq.rfl, Bool.not_true, Bool.false_eq_true, if_false]
            rfl
          · have more : (!(filled.ahead == endSymbol)) = true := by simpa using final
            rw [if_pos more]
            have seen := looked.follows fresh
            rcases seen.skipToken with ⟨handle, after, run, _⟩ | ⟨_, endless⟩
            · rcases Parsing.run_map_ok run with ⟨_, skips, _⟩
              rw [Parsing.run_bind_of_ok skips]
              have skipped := @Calls.call _ _ _ _ _ .skipToken _ looked trivial run
              rcases ih skipped with endless | ⟨last, draft, all, rest, further, around, final⟩
              · exact Or.inl endless
              · refine Or.inr ⟨last, draft, all, rest, further, ?_, final⟩
                rw [around, around_skipToken, around_peek]
            · left
              have fault : Parsing.skipToken.run filled = .error .endless := by
                rw [Call.perform, StateT.run_map] at endless
                cases inner : Parsing.skipToken.run filled with
                | error fault =>
                    rw [inner] at endless
                    cases endless
                    rfl
                | ok produced =>
                    rw [inner] at endless
                    cases endless
              rw [StateT.run_bind, fault]
              rfl

end Calls

/-! ## Runs of a parser -/

namespace Parser

/-- The state in which the grammar of a language is started on a text. -/
def begun (parser : Parser) (language : Language) (text : Text) (old : Option Document) : Context :=
  (Context.new language.vocabulary language.program text parser.included
    (parser.reusableTree language old) parser.limit).report .began

section Ends

variable {parser : Parser} {language : Language} {text : Text} {old : Option Document}
  {parsed skipped : Context}
  (run : language.grammar.run (parser.begun language text old) = .ok ((), parsed))

include run

theorem parseIn_endless
    (endless : (Parsing.skipRest parsed.budget).run parsed = .error .endless) :
    parser.parseIn language text old = .error .endless := by
  have whole : (Parsing.wholeTree language.grammar).run
      (Context.new language.vocabulary language.program text parser.included
        (parser.reusableTree language old) parser.limit) = .error .endless :=
    Parsing.run_wholeTree_of_skip_error run endless
  unfold parseIn
  dsimp only
  rw [whole]

theorem parseIn_of_ok {items : List (Edge Tree)}
    (skip : (Parsing.skipRest parsed.budget).run parsed = .ok ((), skipped))
    (fold : Event.fold? skipped.lastToken.2.vocabulary skipped.lastToken.2.events = .ok items) :
    parser.parseIn language text old =
      .ok
        { document := Document.new language text
            (Tree.root skipped.lastToken.2.vocabulary (items ++ [⟨0, skipped.lastToken.1⟩]))
            parser.included
          log := (skipped.lastToken.2.report .finished).scanner.log.reverse
          remarks := (skipped.lastToken.2.report .finished).remarks.reverse } := by
  unfold parseIn
  dsimp only
  rw [Parsing.run_wholeTree_of_ok run skip fold]

end Ends

end Parser

end Reparse
