import Reparse.Proofs.Parse.Calls
import Reparse.Proofs.Scanner.Seeks

/-!
# A parse moves forward

If a scan program comes to an end wherever a token is begun and finds no empty tokens
(`ScanProgram.Gains`), then from wherever the scanner is on its course a token can be scanned, and
it has some text unless it ends the input (`Context.exists_scanToken`). Looking ahead therefore comes
to an end (`Context.Steady.exists_fill`), the token that is consumed afterwards moves the parse
forward (`Context.Steady.consumes`), and so does a subtree that is taken over
(`Parsing.lt_of_reuse`). No call of the interface leads back, whatever the spans are and whatever the
older tree is (`Calls.steady`).
-/

namespace Reparse

/-- Wherever a token is begun, the program comes to an end, and a token that it finds is not
empty. -/
def ScanProgram.Gains (program : ScanProgram) : Prop :=
  ∀ ⦃text : Text⦄ ⦃spans : List Span⦄ ⦃reads : Bool⦄ ⦃scanner : Scanner⦄,
    Span.Ordered 0 spans → Scanner.Course text spans reads scanner →
      ∃ found reached, program.run scanner.start = some (found, reached) ∧
        (found = true → ∃ stop, reached.tokenStop = some stop ∧
          reached.tokenStart.bytes < stop.bytes)

/-- A token that was scanned at an offset ends the input, or it takes up some of the text that is
left there. -/
def Tree.Leads (text : Text) (offset : Nat) (token : Tree) : Prop :=
  token.info.symbol = endSymbol ∧ token.info.extra = false ∨
    offset < text.size ∧ 0 < token.info.size.bytes

theorem Tree.bytes_size_le (tree : Tree) : tree.info.size.bytes ≤ tree.total.bytes :=
  Nat.le_add_left _ _

theorem Tree.Leads.of_more {text : Text} {offset : Nat} {token : Tree}
    (leads : token.Leads text offset) (more : token.info.symbol ≠ endSymbol) :
    offset < text.size ∧ 0 < token.info.size.bytes := by
  rcases leads with ⟨ended, _⟩ | further
  · exact absurd ended more
  · exact further

/-- The token has some text unless it ends the input. -/
def Scan.Solid (scan : Scan) : Prop :=
  scan.token.info.symbol ≠ endSymbol → 0 < scan.token.info.size.bytes

namespace Context

open Scanner (Course)

variable {context after filled : Context} {text : Text} {spans : List Span} {scanner : Scanner}
  {token : Tree} {reads : Bool}

/-! ## The three kinds of tokens -/

theorem leads_found {offset stop : Extent} (seeks : scanner.Seeks text spans offset.bytes)
    (marked : scanner.tokenStop = some stop) (longer : scanner.tokenStart.bytes < stop.bytes)
    (vocabulary : Vocabulary) :
    (foundToken vocabulary scanner offset).1.Leads text offset.bytes ∧
      Course text spans true (foundToken vocabulary scanner offset).2 := by
  refine ⟨Or.inr ⟨?_, ?_⟩, seeks.course.finish⟩
  · rcases seeks.begun with ⟨_, same⟩ | ⟨entrance, after, _⟩
    · have behind := seeks.stop_le stop marked
      omega
    · exact Nat.lt_of_le_of_lt after entrance.lt_size
  · have size : (foundToken vocabulary scanner offset).1.info.size =
        scanner.finish.1.tokenEnd - scanner.finish.1.tokenStart := rfl
    have ended : scanner.tokenEnd = stop := by simp [Scanner.tokenEnd, marked]
    rw [size, Scanner.finish_of_marked marked (Nat.le_of_lt longer), ended, Extent.bytes_sub]
    omega

theorem leads_unexpected (ordered : Span.Ordered 0 spans) {offset : Extent}
    (seeks : scanner.Seeks text spans offset.bytes)
    (unfinished : ¬(scanner.atEnd = true ∧ scanner.position.bytes = scanner.tokenStart.bytes)) :
    (unexpectedToken scanner offset scanner.tokenStart).1.Leads text offset.bytes ∧
      Course text spans true (unexpectedToken scanner offset scanner.tokenStart).2 := by
  rcases seeks.begun with ⟨ended, same⟩ | ⟨entrance, low, _⟩
  · exact absurd ⟨ended, same.symm⟩ unfinished
  · rcases seeks.restart ordered entrance unfinished with ⟨course, more, position, start⟩
    have moved := (course.report .unrecognized).advance false
    have stepped := (course.report .unrecognized).steppedFrom_advance ordered more false
    have further : scanner.tokenStart.bytes + 1 ≤
        (((scanner.reset scanner.tokenStart).start.report .unrecognized).advance
          false).tokenBoundary.bytes := by
      rw [← position]
      exact stepped.le_boundary
    rw [unexpectedToken_eq]
    refine ⟨Or.inr ⟨Nat.lt_of_le_of_lt low entrance.lt_size, ?_⟩, moved.markEnd.finish⟩
    change 0 < (_ - scanner.tokenStart : Extent).bytes
    rw [Extent.bytes_sub]
    omega

/-! ## Scans -/

theorem SameView.course (same : context.SameView after)
    (course : Course text spans reads context.scanner) :
    Course text spans reads after.scanner := by
  rcases same.scanner_eq with ⟨log, scanner_eq⟩
  rw [scanner_eq]
  exact course.mark ⟨rfl, rfl, rfl, rfl, rfl⟩ rfl

/-- Wherever the parse is, a token can be scanned. -/
theorem exists_scanToken (ordered : Span.Ordered 0 spans) (gains : context.program.Gains)
    (course : Course text spans reads context.scanner) :
    ∃ token after, context.scanToken = some (token, after) ∧
      token.Leads text context.position.bytes ∧ after.program = context.program ∧
      after.position = context.position ∧ ∃ reads, Course text spans reads after.scanner := by
  rcases course.reset context.position with ⟨placed, resetCourse⟩
  rcases gains ordered resetCourse with ⟨found, scanner, run, marked⟩
  have low := course.le_reset ordered context.position
  have seeks := (Scanner.stable_seeks ordered).runFrom (resetCourse.seeks ordered low).1 run
  have spec : (tokenOf context.vocabulary found scanner context.position).1.Leads text
        context.position.bytes ∧
      Course text spans true (tokenOf context.vocabulary found scanner context.position).2 := by
    refine tokenOf_cases (motive := fun made => made.1.Leads text context.position.bytes ∧
      Course text spans true made.2) _ _ (fun accepted => ?_) (fun _ => ?_) fun unfinished => ?_
    · rcases marked accepted with ⟨stop, stopped, longer⟩
      exact leads_found seeks stopped longer context.vocabulary
    · exact ⟨Or.inl ⟨rfl, rfl⟩, seeks.course.finish⟩
    · exact leads_unexpected ordered seeks unfinished
  rcases made : tokenOf context.vocabulary found scanner context.position with ⟨token, ended⟩
  rw [made] at spec
  rcases spec with ⟨leads, endCourse⟩
  rcases endCourse.reset (context.position + token.total) with ⟨last, lastCourse⟩
  exact ⟨token, _, scanToken_of_some run made, leads, (same_tick _).1, (same_tick _).2, last,
    (SameView.tick _).course (lastCourse.report _)⟩

/-! ## Looking ahead -/

/-- The parse is under way in a text and spans, with a program that gains. -/
structure Steady (text : Text) (spans : List Span) (context : Context) : Prop where
  ordered : Span.Ordered 0 spans
  gains : context.program.Gains
  course : ∃ reads, Course text spans reads context.scanner
  leads : ∀ token, context.lookahead = some token → token.Leads text context.position.bytes

namespace Steady

theorem of_sameView (steady : context.Steady text spans) (same : context.SameView after) :
    after.Steady text spans where
  ordered := steady.ordered
  gains := same.program_eq ▸ steady.gains
  course := by
    rcases steady.course with ⟨reads, course⟩
    exact ⟨reads, same.course course⟩
  leads := by
    rw [same.lookahead_eq, same.position_eq]
    exact steady.leads

theorem exists_scan (steady : context.Steady text spans) :
    ∃ token next, context.scanToken = some (token, next) ∧
      token.Leads text context.position.bytes ∧ next.Steady text spans ∧
      next.position = context.position ∧ next.lookahead = context.lookahead := by
  rcases steady.course with ⟨reads, course⟩
  rcases exists_scanToken steady.ordered steady.gains course with
    ⟨token, next, scanned, leads, program, position, nextCourse⟩
  have lookahead := (scanToken_same scanned).2.2.2.1
  refine ⟨token, next, scanned, leads, ⟨steady.ordered, program ▸ steady.gains, nextCourse, ?_⟩,
    position, lookahead⟩
  rw [lookahead, position]
  exact steady.leads

theorem consume (steady : context.Steady text spans) (empty : context.lookahead = none)
    (token : Tree) : (context.consume token).Steady text spans where
  ordered := steady.ordered
  gains := steady.gains
  course := steady.course
  leads other same := by
    rw [show (context.consume token).lookahead = none from empty] at same
    cases same

/-- Looking ahead comes to an end if there are more turns than bytes left. -/
theorem exists_fill (steady : context.Steady text spans) {fuel : Nat}
    (enough : text.size - context.position.bytes < fuel) :
    ∃ filled, context.fill fuel = some filled ∧ filled.Steady text spans ∧
      context.position.bytes ≤ filled.position.bytes := by
  induction fuel generalizing context with
  | zero => omega
  | succ fuel ih =>
      by_cases still : context.isHalted = true ∨ context.lookahead.isSome = true
      · exact ⟨context, fill_still still, steady, Nat.le_refl _⟩
      · have idle := idle_of_not_still still
        rcases steady.exists_scan with ⟨token, next, scanned, leads, onward, position, same⟩
        cases halted : next.isHalted with
        | true => exact ⟨next, fill_halted idle scanned halted, onward, by rw [position]⟩
        | false =>
            cases extra : token.info.extra with
            | true =>
                -- an extra is not the end of the input
                rcases leads with ⟨_, plain⟩ | ⟨inside, positive⟩
                · rw [extra] at plain
                  cases plain
                · have longer := token.bytes_size_le
                  have further : (next.consume token).position.bytes =
                      context.position.bytes + token.total.bytes := by
                    rw [← position]
                    rfl
                  rcases ih (onward.consume (same.trans idle.unread) token) (by omega) with
                    ⟨filled, filling, reached, later⟩
                  rw [fill_extra idle scanned halted extra]
                  exact ⟨filled, filling, reached, by omega⟩
            | false =>
                refine ⟨_, fill_solid idle scanned halted extra,
                  ⟨onward.ordered, onward.gains, onward.course, ?_⟩, by rw [position]⟩
                intro other ahead
                obtain rfl : token = other := Option.some.inj ahead
                rw [position]
                exact leads

/-- A parse has more turns to look ahead than there are bytes. -/
theorem exists_filled (steady : context.Steady text spans) :
    ∃ filled, context.fill context.budget = some filled ∧ filled.Steady text spans ∧
      context.position.bytes ≤ filled.position.bytes := by
  apply steady.exists_fill
  rcases steady.course with ⟨reads, course⟩
  rw [budget, (course.located steady.ordered).text_eq]
  omega

end Steady

theorem mem_scansAhead_succ {fuel : Nat} {next : Context} {scan : Scan}
    (scanned : context.scanToken = some (token, next))
    (member : scan ∈ context.scansAhead (fuel + 1)) :
    scan.token = token ∨ context.lookahead = none ∧ scan ∈ (next.consume token).scansAhead fuel := by
  rw [scansAhead] at member
  split at member
  · cases member
  · rename_i moving
    rw [scanned] at member
    cases said : context.scannedSpan with
    | none =>
        rw [said] at member
        cases member
    | some span =>
        rw [said] at member
        dsimp only at member
        rcases List.mem_cons.mp member with rfl | later
        · exact Or.inl rfl
        · refine Or.inr ⟨by simpa using (not_or.mp moving).2, ?_⟩
          split at later
          · cases later
          · split at later
            · exact later
            · cases later

/-- Every token that is scanned when looking ahead has some text unless it ends the input. -/
theorem Steady.solid_scansAhead (steady : context.Steady text spans) (fuel : Nat) :
    ∀ scan ∈ context.scansAhead fuel, scan.Solid := by
  induction fuel generalizing context with
  | zero => exact fun scan member => by cases member
  | succ fuel ih =>
      intro scan member
      rcases steady.exists_scan with ⟨token, next, scanned, leads, onward, position, same⟩
      rcases mem_scansAhead_succ scanned member with rfl | ⟨empty, later⟩
      · exact fun more => (leads.of_more more).2
      · exact ih (onward.consume (same.trans empty) token) scan later

end Context

/-! ## Subtrees that are taken over -/

namespace Parsing

variable {context after : Context}

/-- A subtree is taken over only if it is not empty and ends in the text. -/
theorem size_of_reusable {state : Nat} {tree : Tree} (found : context.reusable state = some tree) :
    0 < tree.total.bytes ∧
      context.position.bytes + tree.total.bytes ≤ context.scanner.text.size := by
  rcases exists_of_reusable found with ⟨_, older, _, search⟩
  rcases Tree.at_of_findReusable search with ⟨_, _, suits⟩
  exact ⟨Nat.lt_of_lt_of_le suits.wide tree.bytes_size_le, suits.inside⟩

/-- What is taken over moves the parse forward. -/
theorem lt_of_reuse {state : Nat} {node : CompleteNode}
    (run : (reuse state).run context = .ok (some node, after)) :
    context.position.bytes < context.scanner.text.size ∧
      context.position.bytes < after.position.bytes := by
  rcases run_reuse_ok run with ⟨missing, _⟩ | ⟨tree, seen, _, found, same, adopted, _⟩
  · cases missing
  rcases size_of_reusable found with ⟨positive, inside⟩
  have reached : after.position.bytes = context.position.bytes + tree.total.bytes := by
    rw [adopted.position_eq]
    exact congrArg (fun place : Extent => (place + tree.total).bytes) same.position_eq
  omega

end Parsing

/-! ## Calls -/

namespace Context

open Scanner (Course)

variable {context after filled : Context} {text : Text} {spans : List Span}

/-- Nothing lies ahead but the end of the input, or the parse is halted. -/
def Ended (context : Context) : Prop :=
  context.isHalted = true ∨ ∃ token, context.lookahead = some token ∧
    token.info.symbol = endSymbol

theorem Ended.ahead_eq (ended : context.Ended) : context.ahead = endSymbol := by
  rcases ended with halted | ⟨token, ahead, symbol⟩
  · simp [Context.ahead, halted]
  · simp [Context.ahead, ahead, symbol]

theorem Ended.fill_eq (ended : context.Ended) : context.fill context.budget = some context := by
  rcases ended with halted | ⟨token, ahead, _⟩
  · exact Parsing.fill_of_still (Or.inl halted)
  · exact Parsing.fill_of_lookahead ahead

theorem symbol_of_ahead {token : Tree} (running : context.isHalted = false)
    (ahead : context.lookahead = some token) : context.ahead = token.info.symbol := by
  simp [Context.ahead, running, ahead]

theorem ended_of_fill {fuel : Nat} (filling : context.fill fuel = some filled)
    (ends : filled.ahead = endSymbol) : filled.Ended := by
  cases halted : filled.isHalted with
  | true => exact Or.inl halted
  | false =>
      rcases Parsing.lookahead_of_fill filling halted with ⟨token, ahead⟩
      exact Or.inr ⟨token, ahead, (symbol_of_ahead halted ahead).symm.trans ends⟩

namespace Steady

theorem text_eq (steady : context.Steady text spans) : context.scanner.text = text := by
  rcases steady.course with ⟨reads, course⟩
  exact (course.located steady.ordered).text_eq

/-- A token that lies ahead and does not end the input moves the parse forward. -/
theorem shift (steady : context.Steady text spans) {token : Tree}
    (ahead : context.lookahead = some token) (more : token.info.symbol ≠ endSymbol) :
    (({ context with lookahead := none } : Context).consume token).Steady text spans ∧
      context.position.bytes < text.size ∧ context.position.bytes <
        (({ context with lookahead := none } : Context).consume token).position.bytes := by
  have dropped : ({ context with lookahead := none } : Context).Steady text spans :=
    ⟨steady.ordered, steady.gains, steady.course, fun _ same => by cases same⟩
  rcases (steady.leads token ahead).of_more more with ⟨inside, positive⟩
  have longer := token.bytes_size_le
  refine ⟨dropped.consume rfl token, inside, ?_⟩
  rw [show (({ context with lookahead := none } : Context).consume token).position =
    context.position + token.total from rfl, Extent.bytes_add]
  omega

/-- What consumes a token leads to the end of the input or moves the parse forward. -/
theorem consumes (steady : context.Steady text spans) (consumes : context.Consumes after) :
    after.Steady text spans ∧ context.position.bytes ≤ after.position.bytes ∧
      (after.Ended ∨ context.position.bytes < text.size ∧
        context.position.bytes < after.position.bytes) := by
  rcases consumes with ⟨filled, filling, reached⟩
  rcases steady.exists_filled with ⟨other, again, onward, later⟩
  rw [filling, Option.some.injEq] at again
  subst again
  rcases reached with ⟨ends, rfl⟩ | ⟨token, seen, more, ahead, same, running, reached⟩
  · exact ⟨onward, later, Or.inl (ended_of_fill filling ends)⟩
  · have symbol : token.info.symbol ≠ endSymbol := by
      rw [← symbol_of_ahead (running_of_ahead more) ahead]
      exact more
    rcases (onward.of_sameView same).shift (same.lookahead_eq.trans ahead) symbol with
      ⟨shifted, inside, further⟩
    rw [← reached.position_eq, same.position_eq] at further
    rw [same.position_eq] at inside
    exact ⟨shifted.of_sameView reached, by omega, Or.inr ⟨by omega, by omega⟩⟩

/-- What lies ahead and does not end the input lies in the text. -/
theorem exists_ahead (steady : context.Steady text spans) (more : context.ahead ≠ endSymbol) :
    ∃ token, context.lookahead = some token ∧ token.info.symbol ≠ endSymbol ∧
      context.position.bytes < text.size := by
  rcases Parsing.lookahead_of_ahead more with ⟨token, ahead⟩
  rw [symbol_of_ahead (running_of_ahead more) ahead] at more
  exact ⟨token, ahead, more, ((steady.leads token ahead).of_more more).1⟩

theorem further_of_bump (steady : context.Steady text spans) (more : context.ahead ≠ endSymbol)
    (run : Parsing.bump.run context = .ok ((), after)) :
    context.position.bytes < text.size ∧ context.position.bytes < after.position.bytes := by
  rcases steady.exists_ahead more with ⟨token, ahead, symbol, _⟩
  rw [Parsing.run_bump_of_token (Parsing.fill_of_lookahead ahead) more ahead] at run
  cases run
  exact (steady.shift ahead symbol).2

theorem reuse (steady : context.Steady text spans) {state : Nat} {result : Option CompleteNode}
    (run : (Parsing.reuse state).run context = .ok (result, after)) :
    after.Steady text spans ∧ context.position.bytes ≤ after.position.bytes := by
  rcases Parsing.run_reuse_ok run with ⟨_, rfl⟩ | ⟨tree, seen, rfl, _, same, adopted, _⟩
  · exact ⟨steady, Nat.le_refl _⟩
  · refine ⟨?_, Nat.le_of_lt (Parsing.lt_of_reuse run).2⟩
    rcases steady.course with ⟨reads, course⟩
    have seenCourse : Course text spans reads seen.scanner := same.course course
    have empty : (seen.pass tree).lookahead = none := same.lookahead_eq
    refine Steady.of_sameView ⟨steady.ordered, ?_, seenCourse.reset _, ?_⟩ adopted
    · have program : seen.program = context.program := same.program_eq
      exact program ▸ steady.gains
    · intro token ahead
      rw [empty] at ahead
      cases ahead

/-- Every call leaves a parse under way, and not further back. -/
theorem call (steady : context.Steady text spans) {call : Call} {handle : Handle}
    (run : call.perform.run context = .ok (handle, after)) :
    after.Steady text spans ∧ context.position.bytes ≤ after.position.bytes ∧
      ∀ scan ∈ call.scans context, scan.Solid := by
  have view : call.IsQuiet → context.SameView after := fun quiet => Call.sameView quiet run
  have still (same : context.SameView after) :
      after.Steady text spans ∧ context.position.bytes ≤ after.position.bytes :=
    ⟨steady.of_sameView same, Nat.le_of_eq (congrArg Extent.bytes same.position_eq.symm)⟩
  have scans : ∀ scan ∈ call.scans context, scan.Solid := by
    cases call with
    | peek | bump | skipToken => exact steady.solid_scansAhead context.budget
    | _ => exact fun scan member => by cases member
  refine and_assoc.mp ⟨?_, scans⟩
  cases call with
  | peek =>
      rcases Parsing.run_map_ok run with ⟨symbol, inner, _⟩
      rcases steady.exists_filled with ⟨filled, filling, onward, later⟩
      rw [Parsing.run_peek filling] at inner
      cases inner
      exact ⟨onward, later⟩
  | bump =>
      rcases Parsing.run_map_ok run with ⟨_, inner, _⟩
      have reached := steady.consumes (Parsing.consumes_bump inner)
      exact ⟨reached.1, reached.2.1⟩
  | skipToken =>
      rcases Parsing.run_map_ok run with ⟨_, inner, _⟩
      have reached := steady.consumes (Parsing.consumes_skipToken inner)
      exact ⟨reached.1, reached.2.1⟩
  | reuse state =>
      rcases Parsing.run_map_ok run with ⟨found, inner, _⟩
      exact steady.reuse inner
  | _ => exact still (view trivial)

end Steady

end Context

/-- Calls that are made in order leave a parse under way, and whatever they scan has some text. -/
theorem Calls.steady {begun context : Context} {text : Text} {spans : List Span} {draft : Draft}
    {scans : List Scan} (calls : Calls begun context draft scans)
    (start : begun.Steady text spans) :
    context.Steady text spans ∧ ∀ scan ∈ scans, scan.Solid := by
  induction calls with
  | begin => exact ⟨start, fun scan member => by cases member⟩
  | remark _ _ ih =>
      exact ⟨ih.1.of_sameView (.remark _ _), ih.2⟩
  | call _ _ run ih =>
      rcases ih.1.call run with ⟨steady, _, solid⟩
      exact ⟨steady, List.forall_mem_append.mpr ⟨ih.2, solid⟩⟩

end Reparse
