import Reparse.Proofs.Parse.Handles

/-!
# What is consumed along a run

A run that keeps to its handles keeps the record of the parse balanced, and what was consumed measured
by the text, with the token ahead behind it (`Handled.tracked`). The calls that consume nothing leave
both as they are but for the nodes in the record. A subtree may be taken over if the older tree lends
only what the text measures (`Tree.LendsOver`). At the end the token that ends the tree takes in what a
parse that was halted has not looked at (`Context.Tracked.lastToken`).
-/

namespace Reparse

open Reparse.Tree (MeasuredAmong measuredAmong_append measuredAmong_cons measuredAmong_nil widthOf
  widthOf_append)

/-- A token that fills a stretch of a text is measured there. -/
theorem Scan.Fills.measured {text : Text} {first last : Nat} {scan : Scan}
    (fills : scan.Fills text first last) :
    scan.token.Measured text first ∧ first + scan.token.total.bytes = last := by
  rcases fills.covers with ⟨place, covers, _⟩
  have forward := covers.le
  rcases scan with ⟨⟨info, children⟩, span⟩
  obtain rfl : children = [] := fills.childless
  constructor
  · refine Tree.measured_node.mpr ⟨Info.measured_of_widths (place - first) (last - place)
      covers.padding_eq ?_, measuredAmong_nil⟩
    rw [Nat.add_sub_cancel' covers.begun]
    exact covers.size_eq
  · rw [covers.total_eq, Text.bytes_width]
    omega

namespace Tree

/-- Whatever a parse of the text can take over of the tree at its position is measured there. -/
def LendsOver (text : Text) (tree : Tree) : Prop :=
  ∀ ⦃position state : Nat⦄ ⦃found : Tree⦄,
    tree.findReusable text.size position state = some found → found.Measured text position

end Tree

namespace Context

open Event (trees trees_push)

variable {context after : Context} {text : Text} {handles : Handles}

/-- What was consumed is measured by the text up to the position, and so is the token ahead behind
it. -/
structure Measured (text : Text) (context : Context) : Prop where
  lends : ∀ tree, context.older = some tree → tree.LendsOver text
  placed : ∃ here, context.scanner.Placed text here
  reached : ∃ offset, offset ≤ text.size ∧ context.position = text.place offset ∧
    MeasuredAmong text 0 (trees context.events) ∧ widthOf (trees context.events) = offset ∧
    (context.isHalted = false → ∀ token, context.lookahead = some token →
      token.Measured text offset ∧ offset + token.total.bytes ≤ text.size)

/-- The record fits the handles, and what was consumed is measured. -/
structure Tracked (text : Text) (handles : Handles) (context : Context) : Prop where
  fit : handles.Fit context.events
  measured : context.Measured text

theorem Measured.of_sameView (measured : context.Measured text) (same : context.SameView after)
    (trees_eq : trees after.events = trees context.events) : after.Measured text where
  lends tree present := measured.lends tree (same.older_eq.symm.trans present)
  placed := by
    rcases measured.placed with ⟨here, placed⟩
    rcases same.scanner_eq with ⟨log, scanner⟩
    rw [scanner]
    exact ⟨here, placed_log placed log⟩
  reached := by
    rcases measured.reached with ⟨offset, inside, position, among, width, ahead⟩
    refine ⟨offset, inside, same.position_eq.trans position, trees_eq ▸ among,
      trees_eq ▸ width, ?_⟩
    intro running token present
    refine ahead ?_ token (same.lookahead_eq ▸ present)
    cases halted : context.isHalted with
    | false => rfl
    | true =>
        rw [same.halts halted] at running
        cases running

namespace Tracked

open Parsing (run_bind_ok)

theorem start (tracked : context.Tracked text handles) {node : OpenNode}
    (run : Parsing.start.run context = .ok (node, after)) :
    after.Tracked text (handles.gain (.opened node)) := by
  have same := Parsing.sameView_start.sameView run
  cases run
  refine ⟨tracked.fit.start, tracked.measured.of_sameView same ?_⟩
  exact trees_push.trans (List.append_nil _)

theorem complete (tracked : context.Tracked text handles) {node : OpenNode} {symbol : Nat}
    {done : CompleteNode} (held : node ∈ handles.opened)
    (run : (Parsing.complete node symbol).run context = .ok (done, after)) :
    after.Tracked text ((handles.spend (.complete node symbol)).gain (.completed done)) := by
  have same := (Parsing.sameView_complete node symbol).sameView run
  rcases tracked.fit.opened node held with ⟨wrapper, field, state, found⟩
  rw [show (Parsing.complete node symbol).run context = _ from
    Parsing.run_complete_record found context symbol] at run
  cases run
  refine ⟨tracked.fit.completed found symbol, tracked.measured.of_sameView same ?_⟩
  refine trees_push.trans ((List.append_nil _).trans ?_)
  exact Event.treesFrom_set found rfl

/-- What is given up was an opening, and no tree. -/
theorem abandon (tracked : context.Tracked text handles) {node : OpenNode}
    (held : node ∈ handles.opened)
    (run : (Parsing.abandon node).run context = .ok ((), after)) :
    after.Tracked text (handles.spend (.abandon node)) := by
  have same := (Parsing.sameView_abandon node).sameView run
  rcases tracked.fit.opened node held with ⟨wrapper, field, state, found⟩
  have events_eq : after.events =
      if node.place + 1 = context.events.size then context.events.pop else context.events := by
    rw [show (Parsing.abandon node).run context = _ from
      Parsing.run_abandon_record context context.events node.place] at run
    cases run
    rfl
  have fit := tracked.fit.abandon held
  rw [← events_eq] at fit
  refine ⟨fit, tracked.measured.of_sameView same ?_⟩
  rw [events_eq]
  split
  · rename_i last
    have final : context.events[context.events.size - 1]? =
        some (.opening none wrapper field state) := by
      rw [← last]
      exact found
    rcases Event.exists_push_of_last final with ⟨front, whole⟩
    rw [whole, Array.pop_push]
    rw [whole, Array.size_push, Nat.add_sub_cancel, Array.getElem?_push_size,
      Option.some.injEq] at final
    rw [final]
    exact (trees_push.trans (List.append_nil _)).symm
  · rfl

/-- The tags of a complete node are changed. -/
theorem retag (tracked : context.Tracked text handles) {place : Nat} {event other : Event}
    (found : context.events[place]? = some event) (alike : event.Alike other)
    (onward : ∀ distance, other.wrapper? = some distance → 0 < distance) :
    Tracked text handles
      { context with events := context.events.setIfInBounds place other } := by
  have view := SameView.withEvents context (context.events.setIfInBounds place other)
  refine ⟨tracked.fit.set found alike onward, tracked.measured.of_sameView view ?_⟩
  exact Event.treesFrom_set found alike.tree_eq

theorem precede (tracked : context.Tracked text handles) {node : CompleteNode}
    {wrapper : OpenNode} (held : node ∈ handles.complete)
    (run : (Parsing.precede node).run context = .ok (wrapper, after)) :
    after.Tracked text (handles.gain (.opened wrapper)) := by
  rcases tracked.fit.complete node held with ⟨event, there, complete⟩
  have inside := (Array.getElem?_eq_some_iff.mp there).1
  rw [show (Parsing.precede node).run context = _ from
    Parsing.run_precede_record there complete.ne_closing context] at run
  cases run
  have opened : (context.record Event.blank).Tracked text
      (handles.gain (.opened ⟨context.events.size⟩)) := tracked.start rfl
  refine opened.retag (Event.found_push there) (Event.alike_withWrapper _ _) fun distance same => ?_
  rw [Event.wrapper_withWrapper complete.ne_closing, Option.some.injEq] at same
  omega

theorem setField (tracked : context.Tracked text handles) {node : CompleteNode} {field : Nat}
    (held : node ∈ handles.complete)
    (run : (Parsing.setField node field).run context = .ok ((), after)) :
    after.Tracked text handles := by
  rcases tracked.fit.complete node held with ⟨event, found, complete⟩
  have onward := tracked.fit.balanced.onward event (Array.mem_of_getElem? found)
  rw [show (Parsing.setField node field).run context = _ from
    Parsing.run_setField_record found complete.ne_closing context field] at run
  cases run
  rw [← Event.wrapper_withField event field] at onward
  exact tracked.retag found (Event.alike_withField event field) onward

theorem setState (tracked : context.Tracked text handles) {node : CompleteNode} {state : Nat}
    (held : node ∈ handles.complete)
    (run : (Parsing.setState node state).run context = .ok ((), after)) :
    after.Tracked text handles := by
  rcases tracked.fit.complete node held with ⟨event, found, _⟩
  have onward := tracked.fit.balanced.onward event (Array.mem_of_getElem? found)
  rw [show (Parsing.setState node state).run context = _ from
    Parsing.run_setState_record found context state] at run
  cases run
  rw [← Event.wrapper_withState event state] at onward
  exact tracked.retag found (Event.alike_withState event state) onward

/-- A change of what is not seen and not recorded. -/
theorem of_sameView (tracked : context.Tracked text handles) (same : context.SameView after)
    (events_eq : after.events = context.events) : after.Tracked text handles :=
  ⟨events_eq ▸ tracked.fit, tracked.measured.of_sameView same (by rw [events_eq])⟩

theorem report (tracked : context.Tracked text handles) (notice : Notice) :
    (context.report notice).Tracked text handles :=
  tracked.of_sameView (SameView.report context notice) rfl

theorem tick (tracked : context.Tracked text handles) : context.tick.Tracked text handles :=
  tracked.of_sameView (SameView.tick context) (events_tick context)

/-- A tree that stands at the position is added, and the position moves behind it. -/
theorem consume (tracked : context.Tracked text handles) {tree : Tree} {offset : Nat}
    (position : context.position = text.place offset) (own : tree.Measured text offset)
    (inside : offset + tree.total.bytes ≤ text.size)
    (ahead : tree.total.bytes = 0 ∨ context.lookahead = none) :
    (context.consume tree).Tracked text handles where
  fit := tracked.fit.push (Int.le_refl 0) rfl
  measured := by
    rcases tracked.measured with ⟨older, placed, here, _, there, among, width, lookahead⟩
    obtain rfl := Text.place_injective (there.symm.trans position)
    have trees_eq : trees (context.consume tree).events =
        trees context.events ++ [⟨0, tree⟩] := trees_push
    refine ⟨older, placed, here + tree.total.bytes, inside, ?_, ?_, ?_, ?_⟩
    · have moved : context.position + tree.total = text.place (here + tree.total.bytes) := by
        rw [position]
        exact own.info.place_total
      exact moved
    · rw [trees_eq, measuredAmong_append, width, Nat.zero_add]
      exact ⟨among, measuredAmong_cons.mpr ⟨own, measuredAmong_nil⟩⟩
    · rw [trees_eq, widthOf_append, width]
      rfl
    · intro running token present
      rcases ahead with empty | none
      · rw [empty]
        exact lookahead running token present
      · rw [show (context.consume tree).lookahead = Option.none from none] at present
        cases present

/-- A missing token stands at the position. -/
theorem missing (tracked : context.Tracked text handles) {symbol : Nat}
    (run : (Parsing.missing symbol).run context = .ok ((), after)) :
    after.Tracked text handles := by
  rcases run_bind_ok run with ⟨_, _, named, rest⟩
  rcases run_bind_ok rest with ⟨_, reported, report, rest⟩
  cases named
  cases report
  cases rest
  let reported := context.report (.inserted (context.vocabulary.symbolName symbol))
  let token := Tree.missing symbol (context.vocabulary.kind symbol)
  rcases tracked.measured.reached with ⟨offset, inside, position, _⟩
  have own : token.Measured text offset :=
    Tree.measured_node.mpr ⟨⟨rfl, rfl⟩, measuredAmong_nil⟩
  have added : (reported.consume token).Tracked text handles :=
    (tracked.report _).consume position own inside (Or.inl rfl)
  have same : reported.consume token = reported.record (.added token none 0) := by
    unfold Context.consume Context.record
    congr 1
  rw [same] at added
  exact added

theorem unread (tracked : context.Tracked text handles) :
    Tracked text handles { context with lookahead := none } where
  fit := tracked.fit
  measured := by
    rcases tracked.measured with ⟨older, placed, offset, inside, position, among, width, _⟩
    exact ⟨older, placed, offset, inside, position, among, width, nofun⟩

/-- A token that fits the text lies ahead at the position. -/
theorem withLookahead {token : Tree} {offset : Nat} (tracked : context.Tracked text handles)
    (position : context.position = text.place offset) (own : token.Measured text offset)
    (fits : offset + token.total.bytes ≤ text.size) :
    Tracked text handles { context with lookahead := some token } where
  fit := tracked.fit
  measured := by
    rcases tracked.measured with ⟨older, placed, here, inside, stands, among, width, _⟩
    obtain rfl := Text.place_injective (stands.symm.trans position)
    refine ⟨older, placed, here, inside, stands, among, width, fun _ other present => ?_⟩
    cases present
    exact ⟨own, fits⟩

/-- A scan finds a token that fits the text at the position. -/
theorem scanned (short : text.size < maxOffset) {token : Tree} {next : Context}
    (tracked : context.Tracked text handles) (idle : context.Idle)
    (scanned : context.scanToken = some (token, next)) :
    next.Tracked text handles ∧ ∃ offset, next.position = text.place offset ∧
      next.lookahead = none ∧ token.Measured text offset ∧
      offset + token.total.bytes ≤ text.size := by
  rcases tracked.measured with ⟨older, ⟨here, placed⟩, offset, inside, position, among, width, _⟩
  rcases exists_filling_scan short placed position inside scanned with
    ⟨span, last, _, fills, _, there, _, still⟩
  rcases scanToken_same scanned with ⟨_, _, events, lookahead, olderSame⟩
  have unread : next.lookahead = none := lookahead.trans idle.unread
  have fits : offset + token.total.bytes ≤ text.size :=
    Nat.le_trans (Nat.le_of_eq fills.measured.2) fills.inside
  refine ⟨?_, offset, still.trans position, unread, fills.measured.1, fits⟩
  have lends (tree : Tree) (present : next.older = some tree) : tree.LendsOver text :=
    older tree (olderSame.symm.trans present)
  refine ⟨events ▸ tracked.fit, lends, ⟨_, there⟩, offset, inside,
    still.trans position, events ▸ among, events ▸ width, fun _ token present => ?_⟩
  rw [unread] at present
  cases present

/-- Looking ahead consumes the extras. -/
theorem fill (short : text.size < maxOffset) {fuel : Nat} (tracked : context.Tracked text handles)
    (filled : context.fill fuel = some after) : after.Tracked text handles := by
  replace filled := looksAhead_of_fill filled
  induction filled with
  | still => exact tracked
  | halted idle scanned _ => exact (tracked.scanned short idle scanned).1
  | extra idle scanned _ _ _ ih =>
      rcases tracked.scanned short idle scanned with ⟨onward, offset, position, unread, own, fits⟩
      exact ih (onward.consume position own fits (Or.inr unread))
  | solid idle scanned _ _ =>
      rcases tracked.scanned short idle scanned with ⟨onward, offset, position, _, own, fits⟩
      exact onward.withLookahead position own fits

theorem peek (short : text.size < maxOffset) (tracked : context.Tracked text handles)
    {symbol : Nat} (run : Parsing.peek.run context = .ok (symbol, after)) :
    after.Tracked text handles := by
  cases filling : context.fill context.budget with
  | none =>
      rw [Parsing.run_peek_endless filling] at run
      cases run
  | some filled =>
      rw [Parsing.run_peek filling] at run
      cases run
      exact tracked.fill short filling

/-- The token ahead is consumed where it was scanned. -/
theorem bump (short : text.size < maxOffset) (tracked : context.Tracked text handles)
    (run : Parsing.bump.run context = .ok ((), after)) : after.Tracked text handles := by
  cases filling : context.fill context.budget with
  | none =>
      rw [show Parsing.bump.run context = .error .endless from
        Parsing.run_bind_endless filling] at run
      cases run
  | some filled =>
      have seen := tracked.fill short filling
      by_cases ends : filled.ahead = endSymbol
      · rw [Parsing.run_bump_of_end filling ends] at run
        cases run
        exact seen
      · rcases Parsing.lookahead_of_ahead ends with ⟨token, ahead⟩
        rw [Parsing.run_bump_of_token filling ends ahead] at run
        cases run
        rcases seen.measured.reached with ⟨offset, _, position, _, _, waiting⟩
        rcases waiting (running_of_ahead ends) token ahead with ⟨own, fits⟩
        exact (seen.report _).unread.consume position own fits (Or.inr rfl)

/-- Handles that are not used again may be forgotten. -/
theorem forget (tracked : context.Tracked text handles) {fewer : Handles}
    (opened : fewer.opened.Sublist handles.opened)
    (complete : fewer.complete ⊆ handles.complete) : context.Tracked text fewer where
  fit :=
    { balanced := tracked.fit.balanced
      opened := fun node member => tracked.fit.opened node (opened.subset member)
      apart := tracked.fit.apart.sublist opened
      complete := fun node member => tracked.fit.complete node (complete member) }
  measured := tracked.measured

theorem skipToken (short : text.size < maxOffset) (tracked : context.Tracked text handles)
    (run : Parsing.skipToken.run context = .ok ((), after)) : after.Tracked text handles := by
  rcases run_bind_ok run with ⟨symbol, peeked, peek, rest⟩
  have seen := tracked.peek short peek
  split at rest
  · rcases run_bind_ok rest with ⟨_, _, named, rest⟩
    rcases run_bind_ok rest with ⟨_, _, reported, rest⟩
    rcases run_bind_ok rest with ⟨node, opened, start, rest⟩
    rcases run_bind_ok rest with ⟨_, bumped, bump, rest⟩
    rcases Parsing.run_discard_ok rest with ⟨done, complete⟩
    cases named
    cases reported
    have closed := (((seen.report _).start start).bump short bump).complete
      List.mem_cons_self complete
    refine closed.forget ?_ (List.subset_cons_self _ _)
    simp [Handles.spend, Handles.gain]
  · cases rest
    exact seen

/-- A subtree that is taken over stands at the position, and the parse goes on behind it. -/
theorem reuse (short : text.size < maxOffset) (tracked : context.Tracked text handles) {state : Nat}
    {found : Option CompleteNode} (run : (Parsing.reuse state).run context = .ok (found, after)) :
    after.Tracked text (handles.gain (found.elim .none .completed)) := by
  rcases Parsing.run_reuse_ok run with ⟨rfl, rfl⟩ | ⟨tree, seen, rfl, reusable, unseen, passed, events⟩
  · exact tracked
  · rcases Parsing.exists_of_reusable reusable with ⟨_, older, present, search⟩
    rcases tracked.measured with ⟨lends, ⟨here, placed⟩, offset, _, position, _⟩
    rw [placed.standing.text_eq, position, Text.bytes_place] at search
    have own := lends older present search
    rcases Tree.at_of_findReusable search with ⟨_, _, suits⟩
    have inside := suits.inside
    have behind : seen.position + tree.total = text.place (offset + tree.total.bytes) := by
      rw [unseen.position_eq, position]
      exact own.info.place_total
    -- the record and the position are those behind any other tree; the scanner is moved there
    have consumed := (tracked.unread.consume position own inside (Or.inr rfl)).measured
    rcases consumed.reached with ⟨last, within, there, among, width, _⟩
    constructor
    · rw [events]
      exact tracked.fit.added tree
    · refine ⟨fun other same => lends other ?_, ?_, last, within, ?_, ?_, ?_, ?_⟩
      · rw [← same, passed.older_eq]
        exact unseen.older_eq.symm
      · rcases unseen.scanner_eq with ⟨log, scanner⟩
        rcases passed.scanner_eq with ⟨later, moved⟩
        have start : seen.scanner.Placed text here := by
          rw [scanner]
          exact placed_log placed log
        have reset := start.reset short inside
        rw [← behind] at reset
        rw [moved]
        exact ⟨_, placed_log reset later⟩
      · rw [passed.position_eq, ← there]
        exact congrArg (· + tree.total) unseen.position_eq
      · rw [events]
        exact among
      · rw [events]
        exact width
      · intro _ token ahead
        rw [passed.lookahead_eq, show (seen.pass tree).lookahead = none from unseen.lookahead_eq]
          at ahead
        cases ahead

/-- Whatever call is made on nodes that were given, the record stays balanced and measured. -/
theorem call (short : text.size < maxOffset) (tracked : context.Tracked text handles) {call : Call}
    {handle : Handle} (allowed : handles.Allows call)
    (run : call.perform.run context = .ok (handle, after)) :
    after.Tracked text ((handles.spend call).gain handle) := by
  cases call with
  | start =>
      rcases Parsing.run_map_ok run with ⟨node, inner, rfl⟩
      exact tracked.start inner
  | complete node symbol =>
      rcases Parsing.run_map_ok run with ⟨done, inner, rfl⟩
      exact tracked.complete allowed inner
  | abandon node =>
      rcases Parsing.run_map_ok run with ⟨_, inner, rfl⟩
      exact tracked.abandon allowed inner
  | precede node =>
      rcases Parsing.run_map_ok run with ⟨wrapper, inner, rfl⟩
      exact tracked.precede allowed inner
  | peek =>
      rcases Parsing.run_map_ok run with ⟨_, inner, rfl⟩
      exact tracked.peek short inner
  | bump =>
      rcases Parsing.run_map_ok run with ⟨_, inner, rfl⟩
      exact tracked.bump short inner
  | missing symbol =>
      rcases Parsing.run_map_ok run with ⟨_, inner, rfl⟩
      exact tracked.missing inner
  | skipToken =>
      rcases Parsing.run_map_ok run with ⟨_, inner, rfl⟩
      exact tracked.skipToken short inner
  | reuse state =>
      rcases Parsing.run_map_ok run with ⟨found, inner, rfl⟩
      exact tracked.reuse short inner
  | setField node field =>
      rcases Parsing.run_map_ok run with ⟨_, inner, rfl⟩
      exact tracked.setField allowed inner
  | setState node state =>
      rcases Parsing.run_map_ok run with ⟨_, inner, rfl⟩
      exact tracked.setState allowed inner

/-- Skipping the rest of the input keeps to handles of its own. -/
theorem skipRest (short : text.size < maxOffset) {turns : Nat}
    (tracked : context.Tracked text handles)
    (run : (Parsing.skipRest turns).run context = .ok ((), after)) :
    after.Tracked text handles := by
  induction turns generalizing context with
  | zero => cases run
  | succ turns ih =>
      rw [Parsing.skipRest] at run
      rcases run_bind_ok run with ⟨ended, looked, look, rest⟩
      rcases run_bind_ok look with ⟨_, peeked, peek, answer⟩
      cases answer
      have seen := tracked.peek short peek
      split at rest
      · rcases run_bind_ok rest with ⟨_, skipped, skip, rest⟩
        exact ih (seen.skipToken short skip) rest
      · cases rest
        exact seen

/-- The token that ends the tree stands behind what was consumed, which takes in what a halted parse
has not looked at. -/
theorem lastToken (short : text.size < maxOffset) (tracked : context.Tracked text handles) :
    Event.Balanced context.lastToken.2.events ∧
      MeasuredAmong text 0 (trees context.lastToken.2.events ++ [⟨0, context.lastToken.1⟩]) ∧
      widthOf (trees context.lastToken.2.events ++ [⟨0, context.lastToken.1⟩]) ≤ text.size := by
  rcases tracked.measured.reached with ⟨offset, inside, position, among, width, waiting⟩
  unfold Context.lastToken
  split
  · rename_i token ahead running
    rcases waiting running token ahead with ⟨own, fits⟩
    refine ⟨tracked.fit.balanced, measuredAmong_append.mpr ⟨among, ?_⟩, ?_⟩
    · rw [width, Nat.zero_add]
      exact measuredAmong_cons.mpr ⟨own, measuredAmong_nil⟩
    · rw [widthOf_append, width]
      exact fits
  · have final (here : Nat) : MeasuredAmong text here [⟨0, Tree.leaf endSymbol Extent.zero
        Extent.zero 0 (context.vocabulary.kind endSymbol) false⟩] :=
      measuredAmong_cons.mpr
        ⟨Tree.measured_node.mpr ⟨⟨rfl, rfl⟩, measuredAmong_nil⟩, measuredAmong_nil⟩
    rcases tracked.measured.placed with ⟨here, placed⟩
    have reached := skipToEnd_of_placed short placed position inside
    dsimp only
    rw [reached, position, Text.bytes_place, Text.bytes_place]
    split
    · let rest := Tree.unexpected none Extent.zero (text.place text.size - text.place offset) 0
      have own : rest.Measured text offset := by
        refine Tree.measured_node.mpr ⟨Info.measured_of_widths 0 (text.size - offset) rfl ?_,
          measuredAmong_nil⟩
        exact Text.place_sub inside
      have added : trees (context.events.push (.added rest none 0)) =
          trees context.events ++ [⟨0, rest⟩] := trees_push
      have taken : MeasuredAmong text 0 (trees (context.events.push (.added rest none 0))) ∧
          widthOf (trees (context.events.push (.added rest none 0))) = text.size := by
        rw [added, widthOf_append, measuredAmong_append, width, Nat.zero_add]
        refine ⟨⟨among, measuredAmong_cons.mpr ⟨own, measuredAmong_nil⟩⟩, ?_⟩
        have size : rest.total.bytes = text.size - offset := by
          change 0 + ((text.place text.size).bytes - (text.place offset).bytes) = _
          rw [Text.bytes_place, Text.bytes_place, Nat.zero_add]
        rw [Tree.widthOf_cons, Tree.widthOf_nil, size]
        omega
      exact ⟨tracked.fit.balanced.push (Int.le_refl 0) rfl,
        measuredAmong_append.mpr ⟨taken.1, final _⟩, by
          rw [widthOf_append]
          exact Nat.le_of_eq taken.2⟩
    · refine ⟨tracked.fit.balanced, measuredAmong_append.mpr ⟨among, final _⟩, ?_⟩
      rw [widthOf_append, width]
      exact inside

end Tracked

end Context

variable {begun context : Context} {handles : Handles} {text : Text}

/-- A run that keeps to its handles keeps the record balanced and measured. -/
theorem Handled.tracked (short : text.size < maxOffset) (handled : Handled begun context handles)
    (start : begun.Tracked text Handles.empty) : context.Tracked text handles := by
  induction handled with
  | begin => exact start
  | remark _ _ ih => exact ih.of_sameView (.remark _ _) rfl
  | call _ allowed run ih => exact ih.call short allowed run

end Reparse
