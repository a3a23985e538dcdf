import Reparse.Parser
import Reparse.Proofs.Parse.Folding
import Reparse.Proofs.Parse.Interface
import Reparse.Proofs.Tree.Counted
import Reparse.Proofs.Tree.Reuse
import Reparse.Proofs.Tree.Sound

/-!
# Families that parses stay in

Every tree that a parse holds is in a family of trees: the tokens that it scans are in it, subtrees
taken over come from an older tree that was in it, and nodes are built around trees in it. Whatever
the grammar does within the interface, the tree it ends with is in the family too. So parses build
sound trees, with right counts.
-/

namespace Reparse

open Reparse.Tree (IsFamily IsHereditary Among)

variable {family : Tree → Prop} {program : ScanProgram}

/-- All tokens that a parse with the scan program scans are in the family. -/
def ScanProgram.ScansIn (family : Tree → Prop) (program : ScanProgram) : Prop :=
  ∀ ⦃context after : Context⦄ ⦃token : Tree⦄, context.program = program →
    context.scanToken = some (token, after) → family token

/-- All trees that a list of events adds are in the family. -/
def Event.AllIn (family : Tree → Prop) (events : Array Event) : Prop :=
  ∀ ⦃tree wrapper field⦄, Event.added tree wrapper field ∈ events → family tree

/-- All trees that a parse holds, or may take over, are in the family. -/
structure Context.Holds (family : Tree → Prop) (context : Context) : Prop where
  events : Event.AllIn family context.events
  lookahead : ∀ token, context.lookahead = some token → family token
  older : ∀ tree, context.older = some tree → tree.Lends family

/-- All trees that a parse with the scan program holds are in the family. -/
structure Context.HoldsFor (program : ScanProgram) (family : Tree → Prop) (context : Context) : Prop
    extends context.Holds family where
  program_eq : context.program = program

namespace Event

variable {events : Array Event} {place : Nat}

/-- An opening adds no tree. -/
theorem in_of_opening {symbol wrapper : Option Nat} {field state : Nat} (tree : Tree)
    (other : Option Nat) (otherField : Nat)
    (same : opening symbol wrapper field state = added tree other otherField) : family tree := by
  cases same

theorem AllIn.push (holds : AllIn family events) {event : Event}
    (added : ∀ tree wrapper field, event = .added tree wrapper field → family tree) :
    AllIn family (events.push event) := by
  intro tree wrapper field member
  rcases Array.mem_push.mp member with old | new
  · exact holds old
  · exact added tree wrapper field new.symm

theorem AllIn.set (holds : AllIn family events) {event : Event}
    (added : ∀ tree wrapper field, event = .added tree wrapper field → family tree) :
    AllIn family (events.setIfInBounds place event) := by
  intro tree wrapper field member
  rcases Array.mem_or_eq_of_mem_setIfInBounds member with old | new
  · exact holds old
  · exact added tree wrapper field new.symm

theorem AllIn.pop (holds : AllIn family events) : AllIn family events.pop := by
  intro tree wrapper field member
  rw [Array.mem_def, Array.toList_pop] at member
  exact holds (Array.mem_def.mpr (List.dropLast_subset _ member))

theorem AllIn.tree (holds : AllIn family events) {tree : Tree} {wrapper : Option Nat} {field : Nat}
    (found : events[place]? = some (.added tree wrapper field)) : family tree :=
  holds (Array.mem_of_getElem? found)

/-! ## The fold -/

/-- All trees in a fold are in the family. -/
structure Folding.Holds (family : Tree → Prop) (folding : Folding) : Prop where
  frames : ∀ frame ∈ folding.frames, Among family frame.children
  finished : Among family folding.finished

theorem Folding.Holds.add {folding : Folding} (holds : folding.Holds family) {edge : Edge Tree}
    (edgeIn : family edge.tree) : (folding.add edge).Holds family := by
  rcases holds with ⟨frames, finished⟩
  unfold Folding.add
  split
  · exact ⟨frames, Tree.among_cons.mpr ⟨edgeIn, finished⟩⟩
  · rename_i frame rest same
    rw [same] at frames
    simp only [List.forall_mem_cons] at frames
    refine ⟨?_, finished⟩
    simp only [List.forall_mem_cons]
    exact ⟨Tree.among_cons.mpr ⟨edgeIn, frames.1⟩, frames.2⟩

theorem Folding.Holds.openNode {folding : Folding} (holds : folding.Holds family) (opening : Opening) :
    (folding.openNode opening).Holds family := by
  unfold Folding.openNode
  split
  · exact holds
  · refine ⟨?_, holds.finished⟩
    simp only [List.forall_mem_cons]
    exact ⟨Tree.among_nil, holds.frames⟩

theorem Folding.Holds.openAll {folding : Folding} (holds : folding.Holds family)
    (openings : List Opening) : (openings.foldl Folding.openNode folding).Holds family := by
  induction openings generalizing folding with
  | nil => exact holds
  | cons opening rest ih => exact ih (holds.openNode opening)

theorem Frame.in_close (closed : IsHereditary family) (vocabulary : Vocabulary) {frame : Frame}
    (holds : Among family frame.children) : family (frame.close vocabulary).tree := by
  unfold Frame.close
  split
  · exact closed.error (Tree.among_reverse.mpr holds)
  · exact closed.branch (Tree.among_reverse.mpr holds)

theorem Folding.Holds.closeNode (closed : IsHereditary family) {folding : Folding}
    (holds : folding.Holds family) (vocabulary : Vocabulary) : (folding.closeNode vocabulary).Holds family := by
  unfold Folding.closeNode
  split
  · exact holds
  · rename_i frame rest same
    have frames := holds.frames
    rw [same] at frames
    simp only [List.forall_mem_cons] at frames
    have inner : (Folding.mk rest folding.finished).Holds family := ⟨frames.2, holds.finished⟩
    exact inner.add (Frame.in_close closed vocabulary frames.1)

theorem AllIn.followWrappers {index : Nat} {inner : List Opening} {wrapper : Option Nat}
    {result : Array Event × List Opening} (holds : AllIn family events)
    (followed : followWrappers events index inner wrapper = .ok result) : AllIn family result.1 := by
  intro tree other field member
  rcases mem_of_followWrappers followed member with old | new
  · exact holds old
  · cases new

theorem in_foldFrom (closed : IsHereditary family) {vocabulary : Vocabulary} {index count : Nat}
    {folding result : Folding} (holds : AllIn family events) (foldingHolds : folding.Holds family)
    (folded : foldFrom vocabulary events index folding count = .ok result) : result.Holds family := by
  induction count generalizing events index folding with
  | zero =>
      cases folded
      exact foldingHolds
  | succ count ih =>
      rw [foldFrom] at folded
      split at folded
      · cases folded
        exact foldingHolds
      · exact ih holds (foldingHolds.closeNode closed vocabulary) folded
      · exact ih holds foldingHolds folded
      · split at folded
        · cases folded
        · rename_i followed
          exact ih (holds.followWrappers followed) (foldingHolds.openAll _) folded
      · rename_i found
        split at folded
        · cases folded
        · rename_i followed
          exact ih (holds.followWrappers followed)
            ((foldingHolds.openAll _).add (holds.tree found)) folded

theorem in_fold (closed : IsHereditary family) {vocabulary : Vocabulary} {items : List (Edge Tree)}
    (holds : AllIn family events)
    (folded : fold? vocabulary events = .ok items) : Among family items := by
  have empty : (Folding.mk [] []).Holds family := ⟨by simp, Tree.among_nil⟩
  unfold fold? at folded
  split at folded
  · cases folded
  · rename_i result run
    cases folded
    exact Tree.among_reverse.mpr (in_foldFrom closed holds empty run).finished

end Event

namespace Context

/-! ## Scanning -/

variable {context after : Context}

@[simp] theorem events_tick (context : Context) : context.tick.events = context.events := by
  dsimp only [tick]
  split <;> rfl

@[simp] theorem lookahead_tick (context : Context) :
    context.tick.lookahead = context.lookahead := by
  dsimp only [tick]
  split <;> rfl

@[simp] theorem older_tick (context : Context) : context.tick.older = context.older := by
  dsimp only [tick]
  split <;> rfl

@[simp] theorem program_tick (context : Context) : context.tick.program = context.program := by
  dsimp only [tick]
  split <;> rfl

theorem Holds.of_same (holds : context.Holds family) (events : after.events = context.events)
    (lookahead : after.lookahead = context.lookahead) (older : after.older = context.older) :
    after.Holds family := by
  constructor
  · rw [events]
    exact holds.events
  · rw [lookahead]
    exact holds.lookahead
  · rw [older]
    exact holds.older

theorem HoldsFor.of_same (holds : context.HoldsFor program family)
    (events : after.events = context.events) (lookahead : after.lookahead = context.lookahead)
    (older : after.older = context.older) (same : after.program = context.program) :
    after.HoldsFor program family :=
  ⟨holds.toHolds.of_same events lookahead older, same.trans holds.program_eq⟩

theorem HoldsFor.tick (holds : context.HoldsFor program family) :
    context.tick.HoldsFor program family :=
  holds.of_same (by simp) (by simp) (by simp) (by simp)

theorem HoldsFor.report (holds : context.HoldsFor program family) (notice : Notice) :
    (context.report notice).HoldsFor program family :=
  holds.of_same rfl rfl rfl rfl

theorem Holds.consume (holds : context.Holds family) {token : Tree} (tokenIn : family token) :
    (context.consume token).Holds family := by
  refine ⟨?_, holds.lookahead, holds.older⟩
  apply holds.events.push
  intro tree wrapper field same
  cases same
  exact tokenIn

/-- A scan adds nothing, and what it gives has no children. -/
theorem scanToken_same {token : Tree} (scanned : context.scanToken = some (token, after)) :
    token.children = [] ∧ token.info.CountsNothing ∧ after.events = context.events ∧
      after.lookahead = context.lookahead ∧ after.older = context.older := by
  rcases exists_of_scanToken scanned with ⟨found, scanner, reached, _, made, rfl⟩
  have bare : (tokenOf context.vocabulary found scanner context.position).1.children = [] ∧
      (tokenOf context.vocabulary found scanner context.position).1.info.CountsNothing :=
    tokenOf_cases (motive := fun made => made.1.children = [] ∧ made.1.info.CountsNothing) _ _
      (fun _ => ⟨rfl, rfl, rfl, rfl⟩) (fun _ => ⟨rfl, rfl, rfl, rfl⟩)
      fun _ => ⟨rfl, rfl, rfl, rfl⟩
  rw [made] at bare
  exact ⟨bare.1, bare.2, events_tick _, lookahead_tick _, older_tick _⟩

theorem scanToken_program {token : Tree} (scanned : context.scanToken = some (token, after)) :
    after.program = context.program := by
  rcases exists_of_scanToken scanned with ⟨_, _, _, _, _, rfl⟩
  exact program_tick _

theorem HoldsFor.scanToken (scans : program.ScansIn family) {token : Tree}
    (holds : context.HoldsFor program family)
    (scanned : context.scanToken = some (token, after)) :
    family token ∧ after.HoldsFor program family := by
  rcases scanToken_same scanned with ⟨_, _, events, lookahead, older⟩
  exact ⟨scans holds.program_eq scanned,
    holds.of_same events lookahead older (scanToken_program scanned)⟩

theorem HoldsFor.fill (scans : program.ScansIn family) {fuel : Nat}
    (holds : context.HoldsFor program family) (filled : context.fill fuel = some after) :
    after.HoldsFor program family := by
  replace filled := looksAhead_of_fill filled
  induction filled with
  | still => exact holds
  | halted _ scanned _ => exact (holds.scanToken scans scanned).2
  | extra _ scanned _ _ _ ih =>
      rcases holds.scanToken scans scanned with ⟨tokenIn, next⟩
      exact ih ⟨next.consume tokenIn, next.program_eq⟩
  | solid _ scanned _ _ =>
      rcases holds.scanToken scans scanned with ⟨tokenIn, next⟩
      refine ⟨⟨next.events, ?_, next.older⟩, next.program_eq⟩
      intro other same
      cases same
      exact tokenIn

theorem Holds.lastToken (closed : IsHereditary family) (holds : context.Holds family) :
    family context.lastToken.1 ∧ context.lastToken.2.Holds family := by
  unfold Context.lastToken
  split
  · rename_i token present _
    exact ⟨holds.lookahead token present, ⟨holds.events, nofun, holds.older⟩⟩
  · refine ⟨closed.ending _, ?_⟩
    dsimp only
    split
    · refine Holds.consume ?_ (closed.unexpected _ _ _ _)
      exact ⟨holds.events, nofun, holds.older⟩
    · exact ⟨holds.events, nofun, holds.older⟩

end Context

/-- Scans stay in a family that all leaves without anything special are in, and all leaves that a
parse adds. -/
theorem Tree.IsHereditary.scansIn (closed : IsHereditary family)
    (leaves : ∀ symbol padding size lookahead kind extra,
      family (leaf symbol padding size lookahead kind extra)) (program : ScanProgram) :
    program.ScansIn family := by
  intro context after token same scanned
  rcases Context.exists_of_scanToken scanned with ⟨found, scanner, reached, _, made, _⟩
  have member : family (Context.tokenOf context.vocabulary found scanner context.position).1 :=
    Context.tokenOf_cases (motive := fun made => family made.1) _ _
      (fun _ => leaves _ _ _ _ _ _) (fun _ => leaves _ _ _ _ _ _)
      fun _ => closed.unexpected _ _ _ _
  rwa [made] at member

/-- In a family that all tokens are in, all tokens are that a program scans. -/
theorem Tree.IsFamily.scansIn (closed : IsFamily family) (program : ScanProgram) :
    program.ScansIn family := by
  intro context after token _ scanned
  rcases Context.scanToken_same scanned with ⟨childless, bare, _⟩
  rcases token with ⟨info, children⟩
  simp only [Tree.children_node] at childless
  subst childless
  exact closed.token bare

namespace Parsing

open Context (HoldsFor)

/-! ## Operations -/

theorem preserves_report (notice : Notice) : Preserves (HoldsFor program family) (report notice) :=
  .modify fun _ holds => holds.report notice

theorem preserves_symbolName (symbol : Nat) :
    Preserves (HoldsFor program family) (symbolName symbol) :=
  .bind .get fun _ => .pure _

theorem preserves_tick : Preserves (HoldsFor program family) (modify (·.tick)) :=
  .modify fun _ holds => holds.tick

theorem preserves_peek (scans : program.ScansIn family) :
    Preserves (HoldsFor program family) peek := by
  intro context symbol after run holds
  rcases run_bind_ok run with ⟨read, between, start, rest⟩
  cases start
  split at rest
  · cases rest
  · rename_i filled fills
    cases rest
    exact holds.fill scans fills

theorem preserves_bump (scans : program.ScansIn family) :
    Preserves (HoldsFor program family) bump := by
  refine .bind (preserves_peek scans) fun symbol => ?_
  split
  · intro context value after run holds
    rcases run_bind_ok run with ⟨read, between, start, rest⟩
    cases start
    split at rest
    · cases rest
      exact holds
    · rename_i token present
      have tokenIn := holds.lookahead token present
      refine Preserves.bind (preserves_symbolName _) (fun name => .bind (preserves_report _)
        fun _ => .modify ?_) rest holds
      intro state stateHolds
      refine ⟨Context.Holds.consume ?_ tokenIn, stateHolds.program_eq⟩
      exact ⟨stateHolds.events, nofun, stateHolds.older⟩
  · exact .pure _

theorem preserves_missing (closed : IsHereditary family) (symbol : Nat) :
    Preserves (HoldsFor program family) (missing symbol) := by
  refine .bind (preserves_symbolName symbol) fun name => .bind (preserves_report _) fun _ =>
    .modify fun context holds => ⟨⟨?_, holds.lookahead, holds.older⟩, holds.program_eq⟩
  apply holds.events.push
  intro tree wrapper field same
  cases same
  exact closed.missing _ _

theorem preserves_start : Preserves (HoldsFor program family) start := by
  refine .bind .get fun context => .bind (.modify fun state holds => ?_) fun _ => .pure _
  exact ⟨⟨holds.events.push Event.in_of_opening, holds.lookahead, holds.older⟩,
    holds.program_eq⟩

theorem preserves_complete (node : OpenNode) (symbol : Nat) :
    Preserves (HoldsFor program family) (complete node symbol) := by
  refine .bind .get fun context => ?_
  split
  · refine .bind (.modify fun state holds => ?_) fun _ => .bind (preserves_symbolName _) fun _ =>
      .bind (preserves_report _) fun _ => .bind preserves_tick fun _ => .pure _
    exact ⟨⟨(holds.events.set Event.in_of_opening).push nofun, holds.lookahead, holds.older⟩,
      holds.program_eq⟩
  · exact .fault _
  · exact .fault _

theorem preserves_abandon (node : OpenNode) :
    Preserves (HoldsFor program family) (abandon node) := by
  refine .modify fun context holds => ?_
  split
  · exact ⟨⟨holds.events.pop, holds.lookahead, holds.older⟩, holds.program_eq⟩
  · exact holds

/-- An event is replaced by one that adds the same tree, if it adds one. -/
theorem preserves_replace (place : Nat) {event : Event}
    (added : ∀ tree wrapper field, event = .added tree wrapper field → family tree) :
    Preserves (HoldsFor program family) (modify fun context =>
      { context with events := context.events.setIfInBounds place event }) :=
  .modify fun _ holds =>
    ⟨⟨holds.events.set added, holds.lookahead, holds.older⟩, holds.program_eq⟩

theorem preserves_precede (node : CompleteNode) :
    Preserves (HoldsFor program family) (precede node) := by
  refine .bind preserves_start fun wrapper => ?_
  intro context value after run holds
  rcases run_bind_ok run with ⟨read, between, start, rest⟩
  cases start
  split at rest
  · exact Preserves.bind (preserves_replace _ Event.in_of_opening) (fun _ => .pure _) rest holds
  · rename_i tree other field found
    refine Preserves.bind (preserves_replace _ ?_) (fun _ => .pure _) rest holds
    intro same wrapper field equal
    cases equal
    exact holds.events.tree found
  · cases rest
  · cases rest

theorem preserves_setField (node : CompleteNode) (field : Nat) :
    Preserves (HoldsFor program family) (setField node field) := by
  intro context value after run holds
  rcases run_bind_ok run with ⟨read, between, start, rest⟩
  cases start
  split at rest
  · exact preserves_replace _ Event.in_of_opening rest holds
  · rename_i tree other field found
    refine preserves_replace _ ?_ rest holds
    intro same wrapper field equal
    cases equal
    exact holds.events.tree found
  · cases rest
  · cases rest

theorem preserves_setState (node : CompleteNode) (state : Nat) :
    Preserves (HoldsFor program family) (setState node state) := by
  refine .bind .get fun context => ?_
  split
  · exact preserves_replace _ Event.in_of_opening
  · exact .pure _
  · exact .fault _

theorem preserves_skipToken (scans : program.ScansIn family) :
    Preserves (HoldsFor program family) skipToken := by
  refine .bind (preserves_peek scans) fun symbol => ?_
  split
  · exact .bind (preserves_symbolName _) fun _ => .bind (preserves_report _) fun _ =>
      .bind preserves_start fun node => .bind (preserves_bump scans) fun _ =>
        .bind (preserves_complete node errorSymbol) fun _ => .pure _
  · exact .pure _

theorem preserves_adopt {tree : Tree} (treeIn : family tree) :
    Preserves (HoldsFor program family) (adopt tree) := by
  refine .bind (preserves_symbolName _) fun name => .bind (preserves_report _) fun _ =>
    .bind (.modify fun state holds => holds.of_same rfl rfl rfl rfl) fun _ =>
      .bind .get fun _ => .bind (.modify fun state holds => ?_) fun _ => .pure _
  refine HoldsFor.tick
    ⟨⟨holds.events.push ?_, holds.lookahead, holds.older⟩, holds.program_eq⟩
  intro other wrapper field same
  cases same
  exact treeIn

/-- A subtree that is taken over is in the family. -/
theorem preserves_reuse (state : Nat) :
    Preserves (HoldsFor program family) (reuse state) := by
  intro context value after run holds
  rcases run_bind_ok run with ⟨read, between, start, rest⟩
  cases start
  split at rest
  · cases rest
    exact holds
  · split at rest
    · cases rest
      exact holds
    · rename_i older present
      split at rest
      · cases rest
        exact holds
      · rename_i tree search
        have adopts : Preserves (HoldsFor program family) (adopt tree) :=
          preserves_adopt (holds.older older present search)
        have drop : Preserves (HoldsFor program family)
            (modify fun context => { context with lookahead := none }) :=
          .modify fun _ stateHolds =>
            ⟨⟨stateHolds.events, nofun, stateHolds.older⟩, stateHolds.program_eq⟩
        refine Preserves.ite (drop.bind fun _ => .bind (preserves_report _) fun _ => adopts) adopts
          rest holds

/-- The operations keep the trees of a parse in a family that its scans stay in. -/
theorem operationsPreserve_holdsFor (closed : IsHereditary family)
    (scans : program.ScansIn family) : OperationsPreserve (HoldsFor program family) where
  remark _ := .modify fun _ holds => holds.of_same rfl rfl rfl rfl
  peek := preserves_peek scans
  bump := preserves_bump scans
  missing := preserves_missing closed
  start := preserves_start
  complete := preserves_complete
  abandon := preserves_abandon
  precede := preserves_precede
  setField := preserves_setField
  setState := preserves_setState
  skipToken := preserves_skipToken scans
  reuse := preserves_reuse

/-- What keeps the trees of a parse in a family for every scan program keeps them there. -/
theorem preserves_holds {α : Type} {operation : Parsing α}
    (keeps : ∀ program, Preserves (HoldsFor program family) operation) :
    Preserves (Context.Holds family) operation := by
  intro context value after run holds
  exact (keeps context.program run ⟨holds, rfl⟩).toHolds

/-- The operations keep the trees of a parse in a family that all tokens are in. -/
theorem operationsPreserve_holds (closed : IsFamily family) :
    OperationsPreserve (Context.Holds family) := by
  have keeps (program : ScanProgram) :=
    operationsPreserve_holdsFor closed.isHereditary (closed.scansIn program)
  exact
    { remark := fun remark => preserves_holds fun program => (keeps program).remark remark
      peek := preserves_holds fun program => (keeps program).peek
      bump := preserves_holds fun program => (keeps program).bump
      missing := fun symbol => preserves_holds fun program => (keeps program).missing symbol
      start := preserves_holds fun program => (keeps program).start
      complete := fun node symbol =>
        preserves_holds fun program => (keeps program).complete node symbol
      abandon := fun node => preserves_holds fun program => (keeps program).abandon node
      precede := fun node => preserves_holds fun program => (keeps program).precede node
      setField := fun node field =>
        preserves_holds fun program => (keeps program).setField node field
      setState := fun node state =>
        preserves_holds fun program => (keeps program).setState node state
      skipToken := preserves_holds fun program => (keeps program).skipToken
      reuse := fun state => preserves_holds fun program => (keeps program).reuse state }

/-- A grammar that goes by the interface builds a tree in a family that its scans stay in. -/
theorem in_wholeTree (closed : IsHereditary family) {grammar : Parsing Unit}
    (byInterface : ByInterface grammar) {context after : Context} {tree : Tree}
    (scans : context.program.ScansIn family) (holds : context.Holds family)
    (run : (wholeTree grammar).run context = .ok (tree, after)) : family tree := by
  rcases run_wholeTree_ok run with ⟨parsed, skipped, items, parse, skip, fold, rfl, _⟩
  have keeps := operationsPreserve_holdsFor closed scans
  have begun : (context.report .began).HoldsFor context.program family :=
    HoldsFor.report ⟨holds, rfl⟩ .began
  have skippedHolds := keeps.skipRest _ skip (byInterface.preserves keeps parse begun)
  rcases skippedHolds.toHolds.lastToken closed with ⟨lastIn, endedHolds⟩
  apply closed.root
  simp only [Tree.among_append, Tree.among_cons, Tree.among_nil, and_true]
  exact ⟨Event.in_fold closed endedHolds.events fold, lastIn⟩

end Parsing

namespace Parser

variable {parser : Parser} {language : Language} {text : Text} {old : Option Document}
  {parsed : Parsed}

/-- A subtree can be taken over of the old tree only. -/
theorem lends_of_reusableTree (older : ∀ document, old = some document → document.tree.Lends family)
    (tree : Tree) (present : parser.reusableTree language old = some tree) : tree.Lends family := by
  unfold reusableTree at present
  split at present
  · cases present
  · split at present
    · cases present
      exact older _ rfl
    · cases present

/-- The tree of a parse is what a run of the grammar from the beginning comes to. -/
theorem exists_run_of_parseIn (run : parser.parseIn language text old = .ok parsed) :
    ∃ after, (Parsing.wholeTree language.grammar).run
      (Context.new language.vocabulary language.program text parser.included
        (parser.reusableTree language old) parser.limit) = .ok (parsed.document.tree, after) := by
  dsimp only [parseIn] at run
  split at run
  · cases run
  · rename_i whole
    cases run
    exact ⟨_, whole⟩

/-- A parse that scans tokens of a family, and can take over subtrees in it only, builds a tree in
the family. -/
theorem in_parseIn_of_lends (closed : IsHereditary family)
    (scans : language.program.ScansIn family) (byInterface : Parsing.ByInterface language.grammar)
    (older : ∀ document, old = some document → document.tree.Lends family)
    (run : parser.parseIn language text old = .ok parsed) : family parsed.document.tree := by
  rcases exists_run_of_parseIn run with ⟨after, whole⟩
  refine Parsing.in_wholeTree closed byInterface scans ⟨?_, ?_, lends_of_reusableTree older⟩ whole
  · intro tree wrapper field member
    simp [Context.new] at member
  · intro token present
    cases present

/-- A parse that scans tokens of a family, and takes over subtrees of trees in it only, builds a tree
in the family. -/
theorem in_parseIn_of_scans (closed : IsHereditary family)
    (scans : language.program.ScansIn family) (byInterface : Parsing.ByInterface language.grammar)
    (older : ∀ document, old = some document → family document.tree)
    (run : parser.parseIn language text old = .ok parsed) : family parsed.document.tree :=
  in_parseIn_of_lends closed scans byInterface
    (fun document present => closed.lends (older document present)) run

/-- A parse that takes over subtrees of trees in a family only builds a tree in the family. -/
theorem in_parseIn (closed : IsFamily family) (byInterface : Parsing.ByInterface language.grammar)
    (older : ∀ document, old = some document → family document.tree)
    (run : parser.parseIn language text old = .ok parsed) : family parsed.document.tree :=
  in_parseIn_of_scans closed.isHereditary (closed.scansIn _) byInterface older run

end Parser

end Reparse
