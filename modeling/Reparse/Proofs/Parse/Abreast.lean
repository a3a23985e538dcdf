import Reparse.Proofs.Parse.EventShape
import Reparse.Proofs.Parse.Lexeme

/-!
# Parses that go abreast

Two parses go abreast if the same bytes are still to come in both, though in different texts and
spans, and if what they recorded has the same shape (`Context.Abreast`). From there every operation
of the parsing interface does the same in both, and they stay abreast
(`operationsSimulate_abreast`).

Neither parse may have an older tree, a limit, or a scan program that asks for more than characters:
those could tell one text from the other.
-/

namespace Reparse

open Scanner (Rests)

namespace Context

/-- The parse depends on nothing but the bytes to come. -/
structure Free (text : Text) (spans : List Span) (rest : List UInt8) (context : Context) : Prop
    extends Faces text spans rest context where
  plain : ∀ label, (context.program label).IsPlain
  older_eq : context.older = none
  limit_eq : context.limit = 0
  running : context.isHalted = false

namespace Free

variable {text : Text} {spans : List Span} {rest : List UInt8} {context : Context}

/-- Where a parse stands is not said by its events, its next token and its operations. -/
theorem alter (free : context.Free text spans rest) {scanner : Scanner}
    (settled : ∃ bytes, scanner.Settled text spans bytes) (events : Array Event)
    (lookahead : Option Tree) (operations : Nat) :
    ({ context with scanner, events, lookahead, operations } : Context).Free text spans rest :=
  ⟨⟨settled, free.bytes_eq, free.rests⟩, free.plain, free.older_eq, free.limit_eq, free.running⟩

/-- A token that is taken in leaves the bytes behind it to come. -/
theorem consume (free : context.Free text spans rest) {token : Tree} {lexeme : Lexeme}
    (carries : Carries text spans context.position token lexeme) :
    (context.consume token).Free text spans lexeme.rest :=
  ⟨⟨free.settled, carries.bytes_eq, carries.rests⟩, free.plain, free.older_eq, free.limit_eq,
    free.running⟩

end Free

/-- Two parses of texts in spans have the same bytes to come and the same shape behind them. -/
structure Abreast (text : Text) (spans : List Span) (other : Text) (others : List Span)
    (left right : Context) : Prop where
  free : ∃ rest, left.Free text spans rest ∧ right.Free other others rest
  vocabulary_eq : left.vocabulary = right.vocabulary
  program_eq : left.program = right.program
  events_eq : left.events.map Event.shape = right.events.map Event.shape
  ahead_eq : Option.Rel (fun token image => ∃ lexeme,
      Carries text spans left.position token lexeme ∧
        Carries other others right.position image lexeme)
    left.lookahead right.lookahead

section Abreast

variable {text other : Text} {spans others : List Span} {left right : Context}

namespace Abreast

/-! ## Changes of state -/

theorem alter (abreast : Abreast text spans other others left right) {events images : Array Event}
    (same : events.map Event.shape = images.map Event.shape) {scanner image : Scanner}
    (settled : ∃ bytes, scanner.Settled text spans bytes)
    (imageSettled : ∃ bytes, image.Settled other others bytes) (operations imageOperations : Nat) :
    Abreast text spans other others { left with events, scanner, operations }
      { right with events := images, scanner := image, operations := imageOperations } := by
  rcases abreast with ⟨⟨rest, free, imageFree⟩, vocabulary, program, _, ahead⟩
  have altered := free.alter settled events left.lookahead operations
  have imageAltered := imageFree.alter imageSettled images right.lookahead imageOperations
  exact ⟨⟨rest, altered, imageAltered⟩, vocabulary, program, same, ahead⟩

theorem settled (abreast : Abreast text spans other others left right) :
    (∃ bytes, left.scanner.Settled text spans bytes) ∧
      ∃ bytes, right.scanner.Settled other others bytes := by
  rcases abreast.free with ⟨_, free, imageFree⟩
  exact ⟨free.settled, imageFree.settled⟩

theorem unlimited (abreast : Abreast text spans other others left right) :
    left.limit = 0 ∧ right.limit = 0 := by
  rcases abreast.free with ⟨_, free, imageFree⟩
  exact ⟨free.limit_eq, imageFree.limit_eq⟩

theorem running (abreast : Abreast text spans other others left right) :
    left.isHalted = false ∧ right.isHalted = false := by
  rcases abreast.free with ⟨_, free, imageFree⟩
  exact ⟨free.running, imageFree.running⟩

theorem report (abreast : Abreast text spans other others left right) (notice another : Notice) :
    Abreast text spans other others (left.report notice) (right.report another) := by
  rcases abreast.settled with ⟨⟨bytes, settled⟩, ⟨imageBytes, imageSettled⟩⟩
  exact abreast.alter abreast.events_eq
    ⟨bytes, settled.of_samePlace (Scanner.samePlace_report _ _) rfl⟩
    ⟨imageBytes, imageSettled.of_samePlace (Scanner.samePlace_report _ _) rfl⟩ left.operations
    right.operations

theorem withEvents (abreast : Abreast text spans other others left right)
    {events images : Array Event} (same : events.map Event.shape = images.map Event.shape) :
    Abreast text spans other others { left with events } { right with events := images } :=
  abreast.alter same abreast.settled.1 abreast.settled.2 left.operations right.operations

theorem tick (abreast : Abreast text spans other others left right) :
    Abreast text spans other others left.tick right.tick := by
  rw [tick_of_unlimited abreast.unlimited.1, tick_of_unlimited abreast.unlimited.2]
  exact abreast.alter abreast.events_eq abreast.settled.1 abreast.settled.2 _ _

theorem record (abreast : Abreast text spans other others left right) {event image : Event}
    (same : event.shape = image.shape) :
    Abreast text spans other others (left.record event) (right.record image) :=
  abreast.withEvents (by rw [Array.map_push, Array.map_push, abreast.events_eq, same])

theorem withLookahead (abreast : Abreast text spans other others left right)
    {token image : Option Tree}
    (same : Option.Rel (fun token image => ∃ lexeme,
        Carries text spans left.position token lexeme ∧
          Carries other others right.position image lexeme) token image) :
    Abreast text spans other others { left with lookahead := token }
      { right with lookahead := image } := by
  rcases abreast with ⟨⟨rest, free, imageFree⟩, vocabulary, program, events, _⟩
  have altered := free.alter free.settled left.events token left.operations
  have imageAltered := imageFree.alter imageFree.settled right.events image right.operations
  exact ⟨⟨rest, altered, imageAltered⟩, vocabulary, program, events, same⟩

/-- A lexeme that both take in leads both behind it. -/
theorem consume (abreast : Abreast text spans other others left right)
    (nothing : left.lookahead = none) (imageNothing : right.lookahead = none)
    {token image : Tree} {lexeme : Lexeme} (carries : Carries text spans left.position token lexeme)
    (imageCarries : Carries other others right.position image lexeme) :
    Abreast text spans other others (left.consume token) (right.consume image) := by
  rcases abreast with ⟨⟨rest, free, imageFree⟩, vocabulary, program, events, _⟩
  refine ⟨⟨lexeme.rest, free.consume carries, imageFree.consume imageCarries⟩, vocabulary, program,
    ?_, ?_⟩
  · have same : (Event.added token none 0).shape = (Event.added image none 0).shape := by
      rw [Event.shape, Event.shape, carries.shape_eq, imageCarries.shape_eq]
    simp only [Context.consume, Array.map_push, events, same]
  · simp only [Context.consume, nothing, imageNothing]
    exact .none

/-! ## Scanning -/

/-- Both scan the same lexeme. -/
theorem scanToken (readable : text.Readable spans) (imageReadable : other.Readable others)
    (abreast : Abreast text spans other others left right) :
    Option.Rel (fun scanned image =>
        Abreast text spans other others scanned.2 image.2 ∧
        scanned.2.lookahead = left.lookahead ∧ image.2.lookahead = right.lookahead ∧
        ∃ lexeme, Carries text spans scanned.2.position scanned.1 lexeme ∧
          Carries other others image.2.position image.1 lexeme)
      left.scanToken right.scanToken := by
  rcases abreast.free with ⟨rest, free, imageFree⟩
  have scanned := free.toFaces.scanToken readable free.plain free.limit_eq
  have image := imageFree.toFaces.scanToken imageReadable imageFree.plain imageFree.limit_eq
  have same : right.program.lexeme? right.vocabulary rest =
      left.program.lexeme? left.vocabulary rest := by
    rw [abreast.vocabulary_eq, abreast.program_eq]
  rw [same] at image
  generalize left.scanToken = first at scanned ⊢
  generalize right.scanToken = second at image ⊢
  generalize left.program.lexeme? left.vocabulary rest = lexeme at scanned image
  cases scanned with
  | none =>
      cases image
      exact .none
  | @some found lexeme scanned =>
      rcases found with ⟨token, after⟩
      cases image with
      | @some found _ image =>
          rcases found with ⟨imageToken, imageAfter⟩
          rcases scanned with ⟨carries, scanner, operations, rfl, settled⟩
          rcases image with ⟨imageCarries, imageScanner, imageOperations, rfl, imageSettled⟩
          exact .some ⟨abreast.alter abreast.events_eq settled imageSettled _ _, rfl, rfl, lexeme,
            carries, imageCarries⟩

theorem symbol_eq {token image : Tree} {lexeme : Lexeme} {position imagePosition : Extent}
    (carries : Carries text spans position token lexeme)
    (imageCarries : Carries other others imagePosition image lexeme) :
    token.info.symbol = image.info.symbol ∧ token.info.extra = image.info.extra := by
  have same : token.shape = image.shape := carries.shape_eq.trans imageCarries.shape_eq.symm
  have infos : token.info.shape = image.info.shape := by
    rw [← Tree.info_shape, same, Tree.info_shape]
  have symbols := congrArg Info.symbol infos
  have extras := congrArg Info.extra infos
  exact ⟨symbols, extras⟩

/-- Neither has looked ahead, or both at the same lexeme. -/
theorem lookahead_cases (abreast : Abreast text spans other others left right) :
    left.lookahead = none ∧ right.lookahead = none ∨
      ∃ token image lexeme, left.lookahead = some token ∧ right.lookahead = some image ∧
        Carries text spans left.position token lexeme ∧
        Carries other others right.position image lexeme := by
  have tokens := abreast.ahead_eq
  generalize left.lookahead = first at tokens ⊢
  generalize right.lookahead = second at tokens ⊢
  cases tokens with
  | none => exact Or.inl ⟨rfl, rfl⟩
  | some carried =>
      rcases carried with ⟨lexeme, carries, imageCarries⟩
      exact Or.inr ⟨_, _, lexeme, rfl, rfl, carries, imageCarries⟩

theorem ahead (abreast : Abreast text spans other others left right) :
    left.ahead = right.ahead := by
  unfold Context.ahead
  rw [abreast.running.1, abreast.running.2]
  rcases abreast.lookahead_cases with ⟨empty, imageEmpty⟩ |
    ⟨token, image, lexeme, found, present, carries, imageCarries⟩
  · rw [empty, imageEmpty]
  · rw [found, present]
    exact (symbol_eq carries imageCarries).1

/-- Where the right side scans, the left side scans the same lexeme. -/
theorem exists_scan (readable : text.Readable spans) (imageReadable : other.Readable others)
    (abreast : Abreast text spans other others left right) (idle : right.Idle) {image : Tree}
    {imageNext : Context} (scanned : right.scanToken = some (image, imageNext)) :
    left.Idle ∧ ∃ token next lexeme, left.scanToken = some (token, next) ∧
      Abreast text spans other others next imageNext ∧
      next.lookahead = none ∧ imageNext.lookahead = none ∧
      Carries text spans next.position token lexeme ∧
      Carries other others imageNext.position image lexeme := by
  rcases abreast.lookahead_cases with ⟨empty, imageEmpty⟩ | ⟨_, _, _, _, present, _⟩
  · have found := abreast.scanToken readable imageReadable
    rw [scanned] at found
    generalize made : left.scanToken = first at found
    cases found with
    | @some found _ scanned =>
        rcases found with ⟨token, next⟩
        rcases scanned with ⟨onward, kept, imageKept, lexeme, carries, imageCarries⟩
        exact ⟨⟨abreast.running.1, empty⟩, token, next, lexeme, rfl, onward, kept.trans empty,
          imageKept.trans imageEmpty, carries, imageCarries⟩
  · rw [idle.unread] at present
    cases present

/-- The left side looks as far ahead as the right side, if it is allowed as many scans. -/
theorem fill (readable : text.Readable spans) (imageReadable : other.Readable others)
    (abreast : Abreast text spans other others left right) {fuel scans : Nat}
    (enough : scans ≤ fuel) {after : Context} (filled : right.fill scans = some after) :
    ∃ reached, left.fill fuel = some reached ∧ Abreast text spans other others reached after := by
  replace filled := looksAhead_of_fill filled
  induction filled generalizing left fuel with
  | still still =>
      cases fuel with
      | zero => omega
      | succ fuel =>
          rw [abreast.running.2] at still
          rcases abreast.lookahead_cases with ⟨_, imageEmpty⟩ | ⟨token, _, _, found, _⟩
          · simp [imageEmpty] at still
          · exact ⟨left, fill_still (Or.inr (by rw [found]; rfl)), abreast⟩
  | halted idle scanned halted =>
      rcases abreast.exists_scan readable imageReadable idle scanned with
        ⟨_, _, _, _, _, onward, _⟩
      rw [onward.running.2] at halted
      cases halted
  | extra idle scanned running extra _ ih =>
      cases fuel with
      | zero => omega
      | succ fuel =>
          rcases abreast.exists_scan readable imageReadable idle scanned with
            ⟨idle, token, next, lexeme, scanned, onward, unread, imageUnread, carries, imageCarries⟩
          rw [← (symbol_eq carries imageCarries).2] at extra
          rw [fill_extra idle scanned onward.running.1 extra]
          exact ih (onward.consume unread imageUnread carries imageCarries)
            (Nat.le_of_succ_le_succ enough)
  | solid idle scanned running solid =>
      cases fuel with
      | zero => omega
      | succ fuel =>
          rcases abreast.exists_scan readable imageReadable idle scanned with
            ⟨idle, token, next, lexeme, scanned, onward, _, _, carries, imageCarries⟩
          rw [← (symbol_eq carries imageCarries).2] at solid
          exact ⟨_, fill_solid idle scanned onward.running.1 solid,
            onward.withLookahead (.some ⟨lexeme, carries, imageCarries⟩)⟩

theorem budget_le (abreast : Abreast text spans other others left right)
    (smaller : other.size ≤ text.size) : right.budget ≤ left.budget := by
  rcases abreast.settled with ⟨⟨_, settled⟩, ⟨_, imageSettled⟩⟩
  unfold Context.budget
  rw [settled.faces.text_eq, imageSettled.faces.text_eq, abreast.unlimited.1, abreast.unlimited.2]
  omega

theorem size_eq (abreast : Abreast text spans other others left right) :
    left.events.size = right.events.size := by
  have sizes := congrArg Array.size abreast.events_eq
  rwa [Array.size_map, Array.size_map] at sizes

/-- What stands in a place of the records: nothing, or the same but for the lengths of a tree. -/
theorem events_at (abreast : Abreast text spans other others left right) (place : Nat) :
    left.events[place]? = none ∧ right.events[place]? = none ∨
      left.events[place]? = some .closing ∧ right.events[place]? = some .closing ∨
      (∃ symbol wrapper field state,
        left.events[place]? = some (.opening symbol wrapper field state) ∧
          right.events[place]? = some (.opening symbol wrapper field state)) ∨
      ∃ tree image wrapper field, tree.shape = image.shape ∧
        left.events[place]? = some (.added tree wrapper field) ∧
          right.events[place]? = some (.added image wrapper field) := by
  have shapes : left.events[place]?.map Event.shape = right.events[place]?.map Event.shape := by
    rw [← Array.getElem?_map, abreast.events_eq, Array.getElem?_map]
  generalize left.events[place]? = event at shapes
  generalize right.events[place]? = image at shapes
  cases event with
  | none =>
      cases image with
      | none => exact Or.inl ⟨rfl, rfl⟩
      | some image => cases shapes
  | some event =>
      cases image with
      | none => cases shapes
      | some image =>
          rcases Event.cases_of_shape_eq (Option.some.inj shapes) with
            ⟨rfl, rfl⟩ | ⟨symbol, wrapper, field, state, rfl, rfl⟩ |
              ⟨tree, other, wrapper, field, alike, rfl, rfl⟩
          · exact Or.inr (Or.inl ⟨rfl, rfl⟩)
          · exact Or.inr (Or.inr (Or.inl ⟨symbol, wrapper, field, state, rfl, rfl⟩))
          · exact Or.inr (Or.inr (Or.inr ⟨tree, other, wrapper, field, alike, rfl, rfl⟩))

/-- Both put events of one shape in the same place. -/
theorem set (abreast : Abreast text spans other others left right) (place : Nat)
    {event image : Event} (same : event.shape = image.shape) :
    Abreast text spans other others
      { left with events := left.events.setIfInBounds place event }
      { right with events := right.events.setIfInBounds place image } :=
  abreast.withEvents (by
    rw [Array.map_setIfInBounds, Array.map_setIfInBounds, abreast.events_eq, same])

end Abreast

end Abreast

end Context

/-! ## The operations of the interface -/

section Operations

open Parsing
open Context (Abreast Carries)

variable {text other : Text} {spans others : List Span}

theorem simulates_symbolName (symbol : Nat) :
    Simulates (Abreast text spans other others) (symbolName symbol) (symbolName symbol) := by
  intro left right abreast value after run
  cases run
  rw [← abreast.vocabulary_eq]
  exact ⟨left, rfl, abreast⟩

theorem simulates_report (notice : Notice) :
    Simulates (Abreast text spans other others) (report notice) (report notice) := by
  intro left right abreast value after run
  cases run
  exact ⟨_, rfl, abreast.report _ _⟩

theorem simulates_missing (symbol : Nat) :
    Simulates (Abreast text spans other others) (missing symbol) (missing symbol) := by
  intro left right abreast value after run
  cases run
  refine ⟨_, rfl, (abreast.report _ _).record ?_⟩
  change Event.shape (.added (Tree.missing symbol (left.vocabulary.kind symbol)) none 0) = _
  rw [abreast.vocabulary_eq]
  rfl

theorem simulates_start : Simulates (Abreast text spans other others) start start := by
  intro left right abreast value after run
  cases run
  rw [← abreast.size_eq]
  exact ⟨_, rfl, abreast.record rfl⟩

theorem simulates_complete (node : OpenNode) (symbol : Nat) :
    Simulates (Abreast text spans other others) (complete node symbol)
      (complete node symbol) := by
  intro left right abreast value after run
  rcases run_bind_ok run with ⟨_, _, read, run⟩
  cases read
  rcases abreast.events_at node.place with ⟨_, image⟩ | ⟨_, image⟩ |
    ⟨unnamed, wrapper, field, state, found, image⟩ | ⟨_, _, _, _, _, _, image⟩
  · rw [image] at run
    cases run
  · rw [image] at run
    cases run
  · rw [image] at run
    cases run
    refine ⟨_, (run_bind_of_ok rfl).trans (by rw [found]; rfl), ?_⟩
    exact (((abreast.set node.place rfl).record rfl).report _ _).tick
  · rw [image] at run
    cases run

theorem simulates_abandon (node : OpenNode) :
    Simulates (Abreast text spans other others) (abandon node) (abandon node) := by
  intro left right abreast value after run
  cases run
  refine ⟨_, rfl, ?_⟩
  dsimp only
  rw [abreast.size_eq]
  split
  · exact abreast.withEvents (by rw [Array.map_pop, Array.map_pop, abreast.events_eq])
  · exact abreast

theorem simulates_setState (node : CompleteNode) (state : Nat) :
    Simulates (Abreast text spans other others) (setState node state) (setState node state) := by
  intro left right abreast value after run
  rcases run_bind_ok run with ⟨_, _, read, run⟩
  cases read
  rcases abreast.events_at node.place with ⟨_, image⟩ | ⟨found, image⟩ |
    ⟨_, _, _, _, found, image⟩ | ⟨_, _, _, _, _, found, image⟩
  · rw [image] at run
    cases run
  · rw [image] at run
    cases run
    exact ⟨left, (run_bind_of_ok rfl).trans (by rw [found]; rfl), abreast⟩
  · rw [image] at run
    cases run
    exact ⟨_, (run_bind_of_ok rfl).trans (by rw [found]; rfl), abreast.set node.place rfl⟩
  · rw [image] at run
    cases run
    exact ⟨left, (run_bind_of_ok rfl).trans (by rw [found]; rfl), abreast⟩

theorem simulates_setField (node : CompleteNode) (field : Nat) :
    Simulates (Abreast text spans other others) (setField node field) (setField node field) := by
  intro left right abreast value after run
  rcases run_bind_ok run with ⟨_, _, read, run⟩
  cases read
  rcases abreast.events_at node.place with ⟨_, image⟩ | ⟨_, image⟩ |
    ⟨_, _, _, _, found, image⟩ | ⟨_, _, _, _, alike, found, image⟩
  · rw [image] at run
    cases run
  · rw [image] at run
    cases run
  · rw [image] at run
    cases run
    exact ⟨_, (run_bind_of_ok rfl).trans (by rw [found]; rfl), abreast.set node.place rfl⟩
  · rw [image] at run
    cases run
    refine ⟨_, (run_bind_of_ok rfl).trans (by rw [found]; rfl), abreast.set node.place ?_⟩
    rw [Event.shape, Event.shape, alike]

theorem simulates_precede (node : CompleteNode) :
    Simulates (Abreast text spans other others) (precede node) (precede node) := by
  refine simulates_start.bind fun wrapper => ?_
  intro left right abreast value after run
  rcases run_bind_ok run with ⟨_, _, read, run⟩
  cases read
  rcases abreast.events_at node.place with ⟨_, image⟩ | ⟨_, image⟩ |
    ⟨_, _, _, _, found, image⟩ | ⟨_, _, _, _, alike, found, image⟩
  · rw [image] at run
    cases run
  · rw [image] at run
    cases run
  · rw [image] at run
    cases run
    exact ⟨_, (run_bind_of_ok rfl).trans (by rw [found]; rfl), abreast.set node.place rfl⟩
  · rw [image] at run
    cases run
    refine ⟨_, (run_bind_of_ok rfl).trans (by rw [found]; rfl), abreast.set node.place ?_⟩
    rw [Event.shape, Event.shape, alike]

theorem simulates_reuse (state : Nat) :
    Simulates (Abreast text spans other others) (reuse state) (reuse state) := by
  have nothing {context : Context} (running : context.isHalted = false)
      (none_older : context.older = none) :
      (reuse state).run context = .ok (none, context) := by
    refine (run_bind_of_ok rfl).trans ?_
    rw [running, none_older]
    rfl
  intro left right abreast value after run
  rcases abreast.free with ⟨_, free, imageFree⟩
  rw [nothing imageFree.running imageFree.older_eq] at run
  cases run
  exact ⟨left, nothing free.running free.older_eq, abreast⟩

section Scanning

variable (readable : text.Readable spans) (imageReadable : other.Readable others)
  (smaller : other.size ≤ text.size)

include readable imageReadable smaller

theorem simulates_peek : Simulates (Abreast text spans other others) peek peek := by
  intro left right abreast value after run
  cases filling : right.fill right.budget with
  | none =>
      rw [run_peek_endless filling] at run
      cases run
  | some filled =>
      rw [run_peek filling] at run
      cases run
      rcases abreast.fill readable imageReadable (abreast.budget_le smaller) filling with
        ⟨reached, fill, kept⟩
      rw [← kept.ahead]
      exact ⟨reached, run_peek fill, kept⟩

theorem simulates_bump : Simulates (Abreast text spans other others) bump bump := by
  intro left right abreast value after run
  cases filling : right.fill right.budget with
  | none =>
      have endless : bump.run right = .error .endless := run_bind_endless filling
      rw [endless] at run
      cases run
  | some filled =>
      rcases abreast.fill readable imageReadable (abreast.budget_le smaller) filling with
        ⟨reached, fill, kept⟩
      by_cases ends : filled.ahead = endSymbol
      · rw [run_bump_of_end filling ends] at run
        cases run
        exact ⟨reached, run_bump_of_end fill (kept.ahead.trans ends), kept⟩
      · have more : reached.ahead ≠ endSymbol := kept.ahead.symm ▸ ends
        rcases lookahead_of_ahead ends with ⟨image, present⟩
        rcases kept.lookahead_cases with ⟨_, imageEmpty⟩ |
          ⟨token, _, lexeme, found, same, carries, imageCarries⟩
        · rw [imageEmpty] at present
          cases present
        · obtain rfl := Option.some.inj (present.symm.trans same)
          rw [run_bump_of_token filling ends present] at run
          cases run
          refine ⟨_, run_bump_of_token fill more found, ?_⟩
          exact ((kept.report _ _).withLookahead .none).consume rfl rfl carries imageCarries

theorem simulates_skipToken : Simulates (Abreast text spans other others) skipToken skipToken := by
  refine (simulates_peek readable imageReadable smaller).bind fun symbol => .ite ?_ (.pure _)
  refine (simulates_symbolName symbol).bind fun name => (simulates_report _).bind fun _ => ?_
  refine simulates_start.bind fun node => ?_
  refine (simulates_bump readable imageReadable smaller).bind fun _ => ?_
  exact (simulates_complete node errorSymbol).discard

/-- Parses that are abreast stay abreast. -/
theorem operationsSimulate_abreast : OperationsSimulate (Abreast text spans other others) where
  peek := simulates_peek readable imageReadable smaller
  bump := simulates_bump readable imageReadable smaller
  missing := simulates_missing
  start := simulates_start
  complete := simulates_complete
  abandon := simulates_abandon
  precede := simulates_precede
  setField := simulates_setField
  setState := simulates_setState
  skipToken := simulates_skipToken readable imageReadable smaller
  reuse := simulates_reuse

/-- Where one grammar comes to a tree, so does the other, and to one of the same shape. -/
theorem exists_wholeTree {grammar : Parsing Unit}
    (simulates : Simulates (Abreast text spans other others) grammar grammar)
    {left right : Context} (abreast : Abreast text spans other others left right) {tree : Tree}
    {after : Context} (run : (wholeTree grammar).run right = .ok (tree, after)) :
    ∃ found reached, (wholeTree grammar).run left = .ok (found, reached) ∧
      found.shape = tree.shape := by
  have operations := operationsSimulate_abreast readable imageReadable smaller
  rcases run_wholeTree_ok run with ⟨parsed, skipped, items, parse, skip, fold, rfl, _⟩
  rcases simulates (abreast.report .began .began) parse with ⟨between, parseLeft, middle⟩
  rcases operations.skipRest (middle.budget_le smaller) middle skip with ⟨last, skipLeft, behind⟩
  rcases lookahead_of_skipRest skip behind.running.2 with ⟨image, present⟩
  rcases behind.lookahead_cases with ⟨_, imageEmpty⟩ |
    ⟨token, _, lexeme, found, same, carries, imageCarries⟩
  · rw [imageEmpty] at present
    cases present
  · obtain rfl := Option.some.inj (present.symm.trans same)
    have ends : last.lastToken = (token, { last with lookahead := none }) := by
      rw [Context.lastToken, found, behind.running.1]
    have imageEnds : skipped.lastToken = (image, { skipped with lookahead := none }) := by
      rw [Context.lastToken, present, behind.running.2]
    rw [imageEnds] at fold ⊢
    rcases Event.exists_fold_of_shape behind.events_eq.symm fold with ⟨leftItems, folds, alike⟩
    rw [← behind.vocabulary_eq] at folds
    have whole := run_wholeTree_of_ok parseLeft skipLeft (by rw [ends]; exact folds)
    rw [ends] at whole
    refine ⟨_, _, whole, ?_⟩
    have shapes : Tree.shapeAll (leftItems ++ [⟨0, token⟩]) =
        Tree.shapeAll (items ++ [⟨0, image⟩]) := by
      rw [Tree.shapeAll_append, Tree.shapeAll_append, alike]
      simp [carries.shape_eq, imageCarries.shape_eq]
    dsimp only
    rw [← Tree.shape_root, shapes, Tree.shape_root, behind.vocabulary_eq]

end Scanning

/-- Parses of texts whose spans include the same bytes set out abreast. -/
theorem abreast_new {vocabulary : Vocabulary} {program : ScanProgram} (cut : text.Cut 0 spans)
    (imageCut : other.Cut 0 others) (plain : ∀ label, (program label).IsPlain)
    (same : text.included spans = other.included others) :
    Abreast text spans other others (Context.new vocabulary program text spans none 0)
      (Context.new vocabulary program other others none 0) := by
  have bytes : text.bytesFrom 0 spans = other.bytesFrom 0 others := by
    rw [← Text.toList_included, ← Text.toList_included, same]
  have begins (text : Text) (spans : List Span) (cut : text.Cut 0 spans) :
      (Context.new vocabulary program text spans none 0).Free text spans
        (text.bytesFrom 0 spans) := by
    have rests : Rests text spans Extent.zero :=
      ⟨fun _ _ => Nat.zero_le _, fun _ _ _ _ _ _ => Nat.zero_le _⟩
    exact ⟨⟨⟨_, (Scanner.sentTo_goTo cut rfl rfl Extent.zero).settled⟩, rfl, rests⟩, plain, rfl,
      rfl, rfl⟩
  refine ⟨⟨_, begins text spans cut, ?_⟩, rfl, rfl, rfl, .none⟩
  rw [bytes]
  exact begins other others imageCut

end Operations

end Reparse
