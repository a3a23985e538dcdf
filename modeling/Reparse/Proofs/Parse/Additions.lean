import Reparse.Proofs.Parse.Interspersed

/-!
# Programs that only add to the record

Most operations of the interface do not look at the record of the parse, and change nothing that
stands in it. Whatever was recorded before, they do the same and add the same events
(`Parsing.Adds`), none of which is to be wrapped yet. They may answer with the place of the first
one. So does the parser when it skips what the grammar left and ends the tree.

Hence what comes after the grammar gives the same tree for two records, one of which only has blank
openings between the events of the other one (`Event.Interspersed.tree_eq`).
-/

namespace Reparse

open Event (Interspersed Linked Plain blank closing opening plain_empty plain_singleton)

variable {context after : Context}

namespace Context

/-- A scan does not see the record. -/
theorem scanToken_record (context : Context) (record : Array Event) :
    scanToken { context with events := record } =
      context.scanToken.map fun found => (found.1, { found.2 with events := record }) := by
  cases run : context.program.run (context.scanner.reset context.position).start with
  | none =>
      rw [scanToken_of_none run]
      exact scanToken_of_none run
  | some result =>
      rcases result with ⟨found, scanner⟩
      rcases made : tokenOf context.vocabulary found scanner context.position with ⟨token, reached⟩
      rw [scanToken_of_some run made, Option.map_some, ← tick_record]
      exact scanToken_of_some run made

/-- Looking ahead does not see the record, and adds the extras to it. -/
theorem fill_record (fuel : Nat) (context : Context) :
    (∀ record, fill { context with events := record } fuel = none) ∨
      ∃ filled : Context, ∃ added : Array Event, Plain added ∧
        ∀ record, fill { context with events := record } fuel =
          some { filled with events := record ++ added } := by
  induction fuel generalizing context with
  | zero => exact Or.inl fun _ => rfl
  | succ fuel ih =>
      have stays (filled : Context)
          (fill_eq : ∀ record, fill { context with events := record } (fuel + 1) =
            some { filled with events := record }) :
          ∃ filled : Context, ∃ added : Array Event, Plain added ∧
            ∀ record, fill { context with events := record } (fuel + 1) =
              some { filled with events := record ++ added } :=
        ⟨filled, #[], plain_empty, fun record => by rw [fill_eq record, Array.append_empty]⟩
      by_cases still : context.isHalted = true ∨ context.lookahead.isSome = true
      · exact Or.inr (stays context fun _ => fill_still still)
      · have idle := idle_of_not_still still
        have alsoIdle (record : Array Event) : Idle { context with events := record } :=
          ⟨idle.running, idle.unread⟩
        cases scanned : context.scanToken with
        | none =>
            refine Or.inl fun record => ?_
            rw [fill, if_neg still, scanToken_record, scanned]
            rfl
        | some result =>
            rcases result with ⟨token, next⟩
            have scan (record : Array Event) : scanToken { context with events := record } =
                some (token, { next with events := record }) := by
              rw [scanToken_record, scanned]
              rfl
            by_cases halted : next.isHalted = true
            · exact Or.inr (stays next fun record =>
                fill_halted (alsoIdle record) (scan record) halted)
            · have running : next.isHalted = false := by simpa using halted
              by_cases extra : token.info.extra = true
              · have step (record : Array Event) :=
                  @fill_extra _ _ _ fuel (alsoIdle record) (scan record) running extra
                rcases ih (next.consume token) with hangs | ⟨filled, added, plain, filling⟩
                · exact Or.inl fun record => (step record).trans (hangs _)
                · refine Or.inr ⟨filled, #[.added token none 0] ++ added,
                    (plain_singleton rfl).append plain, fun record => ?_⟩
                  refine (step record).trans ((filling (record.push _)).trans ?_)
                  rw [Array.push_eq_append, Array.append_assoc]
              · have solid : token.info.extra = false := by simpa using extra
                exact Or.inr (stays { next with lookahead := some token } fun record =>
                  fill_solid (alsoIdle record) (scan record) running solid)

end Context

namespace Parsing

/-- Whatever was recorded before, the program does the same, and adds events that are to be wrapped
in nothing. Its answer may depend on the place of the first of them. -/
structure Adds {α : Type} (program : Parsing α) (context : Context) (answer : Nat → α)
    (after : Context) (added : Array Event) : Prop where
  plain : Plain added
  run : ∀ record, program.run { context with events := record } =
    .ok (answer record.size, { after with events := record ++ added })

/-- Whatever was recorded before, the program does not end. -/
def Hangs {α : Type} (program : Parsing α) (context : Context) : Prop :=
  ∀ record, program.run { context with events := record } = .error .endless

/-- The program ends or not, and answers, whatever was recorded before. -/
def Oblivious {α : Type} (program : Parsing α) : Prop :=
  ∀ context, Hangs program context ∨
    ∃ value after added, Adds program context (fun _ => value) after added

section Adds

variable {α β : Type} {program : Parsing α} {next : α → Parsing β} {answer : Nat → α} {value : α}
  {added : Array Event}

theorem Adds.of_record (same : ∀ record, program.run { context with events := record } =
    .ok (answer record.size, { after with events := record })) :
    Adds program context answer after #[] where
  plain := plain_empty
  run record := by rw [same record, Array.append_empty]

/-- The record of the state that is named has no part in it. -/
theorem Adds.of_events (adds : Adds program context answer after added) (record : Array Event) :
    Adds program context answer { after with events := record } added := ⟨adds.plain, adds.run⟩

/-- The run from the record that there is. -/
theorem Adds.run_self (adds : Adds program context answer after added) :
    program.run context =
      .ok (answer context.events.size, { after with events := context.events ++ added }) :=
  adds.run context.events

theorem Adds.map (adds : Adds program context answer after added) (change : α → β) :
    Adds (change <$> program) context (fun size => change (answer size)) after added where
  plain := adds.plain
  run record := run_map_of_ok change (adds.run record)

theorem Adds.bind {between : Context} {more : Array Event} {result : Nat → β}
    (head : Adds program context (fun _ => value) between added)
    (tail : Adds (next value) between result after more) :
    Adds (program >>= next) context (fun size => result (size + added.size)) after
      (added ++ more) where
  plain := head.plain.append tail.plain
  run record := by
    have rest := tail.run (record ++ added)
    rw [Array.size_append, Array.append_assoc] at rest
    exact (run_bind_of_ok (head.run record)).trans rest

theorem Hangs.bind (head : Hangs program context) : Hangs (program >>= next) context := by
  intro record
  rw [StateT.run_bind, head record]
  rfl

theorem Adds.bind_hangs {between : Context}
    (head : Adds program context (fun _ => value) between added)
    (tail : Hangs (next value) between) : Hangs (program >>= next) context :=
  fun record => (run_bind_of_ok (head.run record)).trans (tail _)

theorem Oblivious.pure (value : α) : Oblivious (Pure.pure value : Parsing α) :=
  fun context => Or.inr ⟨value, context, #[], .of_record fun _ => rfl⟩

theorem Oblivious.hang : Oblivious (throw .endless : Parsing α) := fun _ => Or.inl fun _ => rfl

theorem Oblivious.bind (head : Oblivious program) (tail : ∀ value, Oblivious (next value)) :
    Oblivious (program >>= next) := by
  intro context
  rcases head context with hangs | ⟨value, between, added, adds⟩
  · exact Or.inl hangs.bind
  · rcases tail value between with hangs | ⟨result, after, more, rest⟩
    · exact Or.inl (adds.bind_hangs hangs)
    · exact Or.inr ⟨result, after, _, adds.bind rest⟩

theorem Oblivious.ite {condition : Prop} [Decidable condition] {other : Parsing α}
    (positive : Oblivious program) (negative : Oblivious other) :
    Oblivious (if condition then program else other) := by
  split
  · exact positive
  · exact negative

end Adds

/-! ## The operations -/

theorem oblivious_report (notice : Notice) : Oblivious (report notice) :=
  fun context => Or.inr ⟨(), context.report notice, #[], .of_record fun _ => rfl⟩

theorem oblivious_symbolName (symbol : Nat) : Oblivious (symbolName symbol) :=
  fun context =>
    Or.inr ⟨context.vocabulary.symbolName symbol, context, #[], .of_record fun _ => rfl⟩

theorem oblivious_peek : Oblivious peek := by
  intro context
  rcases Context.fill_record context.budget context with hangs | ⟨filled, added, plain, filling⟩
  · exact Or.inl fun record => run_peek_endless (hangs record)
  · exact Or.inr ⟨filled.ahead, filled, added, plain, fun record => run_peek (filling record)⟩

theorem oblivious_atEnd : Oblivious atEnd := oblivious_peek.bind fun _ => .pure _

theorem oblivious_bump : Oblivious bump := by
  intro context
  rcases Context.fill_record context.budget context with hangs | ⟨filled, added, plain, filling⟩
  · exact Or.inl fun record => run_bind_endless (hangs record)
  · right
    by_cases ends : filled.ahead = endSymbol
    · exact ⟨(), filled, added, plain, fun record => run_bump_of_end (filling record) ends⟩
    · rcases lookahead_of_ahead ends with ⟨token, ahead⟩
      refine ⟨(), ({ filled.report (.shifted (filled.vocabulary.symbolName token.info.symbol)) with
        lookahead := none } : Context).consume token, added.push (.added token none 0),
        plain.push rfl, fun record => ?_⟩
      rw [run_bump_of_token (filling record) ends ahead, Array.append_push]
      rfl

theorem oblivious_missing (symbol : Nat) : Oblivious (missing symbol) := by
  refine .bind (oblivious_symbolName _) fun _ => .bind (oblivious_report _) fun _ context => ?_
  let token := Tree.missing symbol (context.vocabulary.kind symbol)
  refine Or.inr ⟨(), context, #[.added token none 0], plain_singleton rfl, fun record => ?_⟩
  rw [← Array.push_eq_append]
  rfl

theorem adds_start (context : Context) :
    Adds start context (fun size => ⟨size⟩) context #[blank] where
  plain := plain_singleton rfl
  run record := by
    rw [← Array.push_eq_append]
    rfl

/-- A node that is opened and completed around what a program adds. -/
theorem Oblivious.node {program : Parsing Unit} (inner : Oblivious program) (symbol : Nat) :
    Oblivious (do
      let node ← start
      program
      discard <| complete node symbol) := by
  intro context
  rcases inner context with hangs | ⟨_, between, added, adds⟩
  · refine Or.inl fun record => ?_
    refine (run_bind_of_ok ((adds_start context).run record)).trans ?_
    exact hangs.bind _
  · refine Or.inr ⟨(), between.completed symbol,
      (#[opening (some symbol) none 0 noState] ++ added).push closing,
      ((plain_singleton rfl).append adds.plain).push rfl, fun record => ?_⟩
    · refine (run_bind_of_ok ((adds_start context).run record)).trans ?_
      refine (run_bind_of_ok (adds.run _)).trans ?_
      have found : (record ++ #[blank] ++ added)[record.size]? =
          some (opening none none 0 noState) := by
        rw [Array.append_assoc, Array.getElem?_append_right (Nat.le_refl _), Nat.sub_self]
        exact Array.getElem?_append_left (by decide)
      have placed : (record ++ #[blank] ++ added).setIfInBounds record.size
          (opening (some symbol) none 0 noState) =
            record ++ (#[opening (some symbol) none 0 noState] ++ added) := by
        rw [Array.append_assoc, Array.setIfInBounds_append_right (Nat.le_refl _), Nat.sub_self,
          Array.setIfInBounds_append_left (by decide)]
        rfl
      have completed := run_discard_of_ok (run_complete_record found between symbol)
      rw [placed, Array.push_append] at completed
      exact completed

theorem oblivious_skipToken : Oblivious skipToken :=
  oblivious_peek.bind fun _ => .ite
    ((oblivious_symbolName _).bind fun _ => (oblivious_report _).bind fun _ =>
      oblivious_bump.node errorSymbol)
    (.pure _)

theorem oblivious_skipRest (turns : Nat) : Oblivious (skipRest turns) := by
  induction turns with
  | zero => exact .hang
  | succ turns ih =>
      rw [skipRest]
      exact oblivious_atEnd.bind fun _ => .ite (oblivious_skipToken.bind fun _ => ih) (.pure _)

theorem adds_adopt (context : Context) (tree : Tree) :
    ∃ after, Adds (adopt tree) context (fun size => some ⟨size⟩) after #[.added tree none 0] := by
  let name := context.vocabulary.symbolName tree.info.symbol
  refine ⟨((context.report (.reused name)).pass tree).tick, plain_singleton rfl, fun record => ?_⟩
  rw [← Array.push_eq_append, ← Context.tick_record]
  exact run_adopt _ tree

/-- A subtree that is taken over is added. -/
theorem adds_reuse (context : Context) (state : Nat) :
    Adds (reuse state) context (fun _ => none) context #[] ∨
      ∃ after tree, Adds (reuse state) context (fun size => some ⟨size⟩) after
        #[.added tree none 0] := by
  cases found : context.reusable state with
  | none => exact Or.inl (.of_record fun _ => run_reuse_of_none found)
  | some tree =>
      rcases adds_adopt context.unseen tree with ⟨after, adopts⟩
      refine Or.inr ⟨after, tree, adopts.plain, fun record => ?_⟩
      rw [run_reuse_of_reusable (show Context.reusable { context with events := record } state = _
        from found), Context.unseen_record, ← adopts.run record]

end Parsing

namespace Context

/-- The token that ends the tree takes in text that was not looked at, whatever was recorded. -/
theorem lastToken_record (context : Context) :
    ∃ added : Array Event, Plain added ∧
      ∀ record, lastToken { context with events := record } =
        (context.lastToken.1, { context.lastToken.2 with events := record ++ added }) := by
  refine ⟨(lastToken { context with events := #[] }).2.events, ?_, fun record => ?_⟩
  · unfold lastToken
    dsimp only
    split
    · exact plain_empty
    · split
      · exact plain_empty.push rfl
      · exact plain_empty
  · unfold lastToken
    dsimp only
    split
    · rw [Array.append_empty]
    · split
      · dsimp only [consume]
        rw [Array.append_push, Array.append_empty]
      · rw [Array.append_empty]

/-- What the parser makes of a parse when the grammar has ended. -/
def tree? (context : Context) : Except Fault Tree :=
  match (Parsing.skipRest context.budget).run context with
  | .error fault => .error fault
  | .ok (_, skipped) =>
    let (last, ended) := skipped.lastToken
    match Event.fold? ended.vocabulary ended.events with
    | .error fault => .error fault
    | .ok items => .ok (Tree.root ended.vocabulary (items ++ [⟨0, last⟩]))

end Context

/-- What a parse answers is what the parser makes of the state in which the grammar ended. -/
theorem Parsing.run_wholeTree_tree {grammar : Parsing Unit} {parsed : Context}
    (parse : grammar.run (context.report .began) = .ok ((), parsed)) :
    ((Parsing.wholeTree grammar).run context).map Prod.fst = parsed.tree? := by
  unfold Context.tree?
  cases skip : (Parsing.skipRest parsed.budget).run parsed with
  | error fault =>
      rw [run_wholeTree_of_skip_error parse skip]
      rfl
  | ok result =>
      rcases result with ⟨_, skipped⟩
      dsimp only
      cases fold : Event.fold? skipped.lastToken.2.vocabulary skipped.lastToken.2.events with
      | error fault =>
          rw [run_wholeTree_of_fold_error parse skip fold]
          rfl
      | ok items =>
          rw [run_wholeTree_of_ok parse skip fold]
          rfl

/-- Blank openings between the events of a record do not show in the tree, and nothing but a scan
that does not end keeps the parser from building it. -/
theorem Event.Interspersed.tree_eq {image : Nat → Nat} {others : Array Event}
    (interspersed : Interspersed image context.events others) (linked : Linked context.events) :
    Context.tree? { context with events := others } = context.tree? ∧
      ∀ fault, context.tree? = .error fault → fault = .endless := by
  rcases Parsing.oblivious_skipRest context.budget context with hangs | ⟨_, skipped, added, adds⟩
  · have endless (record : Array Event) :
        Context.tree? { context with events := record } = .error .endless := by
      unfold Context.tree?
      rw [show (Parsing.skipRest (Context.budget { context with events := record })).run
        { context with events := record } = _ from hangs record]
    have own : context.tree? = .error .endless := endless context.events
    rw [own]
    refine ⟨endless others, fun fault same => ?_⟩
    cases same
    rfl
  · rcases skipped.lastToken_record with ⟨more, plain, last⟩
    rcases ((interspersed.append adds.plain).append plain).exists_fold
      ((linked.append adds.plain).append plain) skipped.lastToken.2.vocabulary with
      ⟨items, fold, otherFold⟩
    have built {record : Array Event} (fold : Event.fold? skipped.lastToken.2.vocabulary
        (record ++ added ++ more) = .ok items) :
        Context.tree? { context with events := record } =
          .ok (Tree.root skipped.lastToken.2.vocabulary
            (items ++ [⟨0, skipped.lastToken.1⟩])) := by
      unfold Context.tree?
      rw [show (Parsing.skipRest (Context.budget { context with events := record })).run
        { context with events := record } = _ from adds.run record]
      dsimp only
      rw [last (record ++ added)]
      dsimp only
      rw [fold]
    have own : context.tree? = _ := built fold
    rw [own]
    refine ⟨built otherFold, fun fault same => ?_⟩
    cases same

end Reparse
