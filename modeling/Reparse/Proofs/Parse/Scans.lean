import Reparse.Proofs.Parse.Families
import Reparse.Proofs.Scanner.Marks

/-!
# Scans of a parse

A parse keeps tokens as relative sizes, while the scanner says in absolute positions where a token
starts and ends. `Context.scannedSpan` is what the scanner says about the token that is scanned next,
and `Context.exists_scan` that the token takes up the text from the position of the parse on, its
content just over what the scanner said.
-/

namespace Reparse

/-- A tree takes up a text from `first` to `last`: the padding reaches up to `place`, the content
follows. -/
structure Tree.Covers (text : Text) (first place last : Nat) (tree : Tree) : Prop where
  begun : first ≤ place
  ended : place ≤ last
  padding_eq : tree.info.padding = text.width first (place - first)
  size_eq : tree.info.size = text.width place (last - place)

namespace Tree.Covers

variable {text : Text} {first place last : Nat} {tree : Tree}

theorem le (covers : tree.Covers text first place last) : first ≤ last :=
  Nat.le_trans covers.begun covers.ended

theorem total_eq (covers : tree.Covers text first place last) :
    tree.total = text.width first (last - first) := by
  rw [Tree.total, Info.total, covers.padding_eq, covers.size_eq,
    Text.width_between covers.begun covers.ended]

theorem place_add (covers : tree.Covers text first place last) :
    text.place first + tree.total = text.place last := by
  rw [covers.total_eq, Text.place_between covers.le]

end Tree.Covers

/-- A token that was scanned and what the scanner said that it spans. -/
structure Scan where
  token : Tree
  span : Span

/-- The token takes up a text from `first` to `last`, its content just what the scanner said, and its
scan depended on more. The end of the input stands at the end of the text. -/
structure Scan.TakesUp (text : Text) (first last : Nat) (scan : Scan) : Prop where
  inside : last ≤ text.size
  childless : scan.token.children = []
  looks : 0 < scan.token.info.lookahead
  covers : ∃ place, scan.token.Covers text first place last ∧
    scan.span = ⟨text.place place, text.place last⟩
  final : scan.token.info.symbol = endSymbol → last = text.size

/-- The token takes up a text from `first` to `last`, its content just what the scanner said, and its
scan depended on more. -/
structure Scan.Fills (text : Text) (first last : Nat) (scan : Scan) : Prop where
  inside : last ≤ text.size
  childless : scan.token.children = []
  looks : 0 < scan.token.info.lookahead
  covers : ∃ place, scan.token.Covers text first place last ∧
    scan.span = ⟨text.place place, text.place last⟩

theorem Scan.Fills.takesUp {text : Text} {first last : Nat} {scan : Scan}
    (fills : scan.Fills text first last)
    (final : scan.token.info.symbol = endSymbol → last = text.size) :
    scan.TakesUp text first last :=
  ⟨fills.inside, fills.childless, fills.looks, fills.covers, final⟩

theorem Scan.TakesUp.fills {text : Text} {first last : Nat} {scan : Scan}
    (takes : scan.TakesUp text first last) : scan.Fills text first last :=
  ⟨takes.inside, takes.childless, takes.looks, takes.covers⟩

/-- The program never finds a token with the symbol that is kept for the end of the input. -/
def ScanProgram.SparesEnd (program : ScanProgram) : Prop :=
  ∀ scanner reached : Scanner, program.run scanner.start = some (true, reached) →
    reached.symbol ≠ endSymbol

/-- Every way through a block to a token accepts a symbol other than that of the end; `named` says
whether one was accepted before. -/
def Block.Names (named : Prop) : Block → Prop
  | .stop found => found = true → named
  | .jump _ => True
  | .look next => ∀ char atEnd, (next char atEnd).Names named
  | .column next => ∀ column, (next column).Names named
  | .atSpanStart next => ∀ atStart, (next atStart).Names named
  | .advance _ next => next.Names named
  | .markEnd next => next.Names named
  | .accept symbol next => next.Names (symbol ≠ endSymbol)

theorem Block.Names.ite {condition : Prop} [Decidable condition] {named : Prop}
    {positive negative : Block} (left : positive.Names named) (right : negative.Names named) :
    (if condition then positive else negative).Names named := by
  split
  · exact left
  · exact right

theorem Block.names_fail (named : Prop) : (Block.stop false).Names named := nofun

theorem Block.Names.symbol_run {block : Block} {named : Prop} {scanner reached : Scanner}
    (names : block.Names named) (given : named → scanner.symbol ≠ endSymbol)
    (run : block.run scanner = (.stopped true, reached)) : reached.symbol ≠ endSymbol := by
  induction block generalizing named scanner with
  | stop found =>
      rw [Block.run, Prod.mk.injEq, BlockEnd.stopped.injEq] at run
      exact run.2 ▸ given (names run.1)
  | jump label => cases run
  | look next ih => exact ih _ _ (names _ _) given run
  | column next ih => exact ih _ (names _) given run
  | atSpanStart next ih => exact ih _ (names _) given run
  | advance skip next ih =>
      refine ih names (fun holds => ?_) run
      rw [Scanner.symbol_advance]
      exact given holds
  | markEnd next ih => exact @ih named scanner.markEnd names given run
  | accept symbol next ih => exact @ih _ (scanner.accept symbol) names id run

/-- A program whose blocks name what they find spares the symbol of the end. -/
theorem ScanProgram.sparesEnd_of_names {program : ScanProgram}
    (names : ∀ label, (program label).Names False) : program.SparesEnd := by
  have along (label : Nat) (scanner reached : Scanner)
      (run : program.runFrom label scanner = some (true, reached)) :
      reached.symbol ≠ endSymbol := by
    induction label, scanner using ScanProgram.runFrom.induct program with
    | case1 label scanner found last stopped =>
        rw [ScanProgram.runFrom, stopped] at run
        cases run
        exact (names label).symbol_run False.elim stopped
    | case2 label scanner next further jumped onward ih =>
        rw [ScanProgram.runFrom, jumped] at run
        dsimp only at run
        rw [if_pos onward] at run
        exact ih run
    | case3 label scanner next further jumped still =>
        rw [ScanProgram.runFrom, jumped] at run
        dsimp only at run
        rw [if_neg still] at run
        cases run
  intro scanner reached run
  exact along 0 scanner.start reached run

namespace Context

open Scanner (entry)

variable {context after : Context} {text : Text} {scanner : Scanner} {token : Tree}
  {base least offset : Nat}

/-- What the scanner says the next token spans. The end of the input is where the scanner has
skipped to. -/
def scannedSpan (context : Context) : Option Span :=
  match context.program.run (context.scanner.reset context.position).start with
  | none => none
  | some (found, scanner) =>
    if found then some (foundToken context.vocabulary scanner context.position).2.tokenSpan
    else if scanner.atEnd ∧ scanner.position.bytes = scanner.tokenStart.bytes then
      some ⟨scanner.tokenStart, scanner.tokenStart⟩
    else some (unexpectedToken scanner context.position scanner.tokenStart).2.tokenSpan

/-! ## The three kinds of tokens -/

theorem fills_found (short : text.size < maxOffset) (works : scanner.Works text least offset)
    (after : base ≤ least) (vocabulary : Vocabulary) :
    ∃ last,
      Scan.Fills text base last
        ⟨(foundToken vocabulary scanner (text.place base)).1,
          (foundToken vocabulary scanner (text.place base)).2.tokenSpan⟩ ∧
      (foundToken vocabulary scanner (text.place base)).1.info.symbol = scanner.symbol ∧
      (foundToken vocabulary scanner (text.place base)).2.Placed text offset := by
  rcases works.finish short with ⟨first, last, least_le, forward, last_le, span, reads, beyond⟩
  have start : scanner.finish.1.tokenStart = text.place first := congrArg Span.start span
  have stop : scanner.finish.1.tokenEnd = text.place last := congrArg Span.stop span
  have begun : base ≤ first := Nat.le_trans after least_le
  have same : (foundToken vocabulary scanner (text.place base)).1 =
      Tree.leaf scanner.symbol (text.width base (first - base)) (text.width first (last - first))
        (scanner.finish.2 - last) (vocabulary.kind scanner.symbol)
        (vocabulary.isExtra scanner.symbol) := by
    have unfolded : (foundToken vocabulary scanner (text.place base)).1 =
        Tree.leaf scanner.finish.1.symbol (scanner.finish.1.tokenStart - text.place base)
          (scanner.finish.1.tokenEnd - scanner.finish.1.tokenStart)
          (scanner.finish.2 - scanner.finish.1.tokenEnd.bytes)
          (vocabulary.kind scanner.finish.1.symbol)
          (vocabulary.isExtra scanner.finish.1.symbol) := rfl
    rw [unfolded, start, stop, Scanner.symbol_finish, Text.place_sub begun,
      Text.place_sub forward, Text.bytes_place]
  refine ⟨last, ⟨Nat.le_trans last_le works.inside, ?_, ?_, ⟨first, ?_, span⟩⟩, ?_,
    Or.inl reads⟩
  · rw [same]
    rfl
  · rw [same]
    exact Nat.sub_pos_of_lt beyond
  · rw [same]
    exact ⟨begun, forward, rfl, rfl⟩
  · rw [same]
    rfl

theorem takesUp_end (short : text.size < maxOffset) (works : scanner.Works text least offset)
    (after : base ≤ least) (vocabulary : Vocabulary) (ended : scanner.atEnd = true)
    (skipped : scanner.tokenStart = text.place offset) :
    offset = text.size ∧
      Scan.TakesUp text base text.size
        ⟨(endToken vocabulary scanner (text.place base) scanner.tokenStart).1,
          ⟨scanner.tokenStart, scanner.tokenStart⟩⟩ ∧
      (endToken vocabulary scanner (text.place base) scanner.tokenStart).2.Placed text offset := by
  have final : offset = text.size := by
    rw [works.atEnd, Option.isNone_iff_eq_none, Utf8.next_eq_none_iff] at ended
    exact Nat.le_antisymm works.inside ended
  subst final
  rcases works.finish short with ⟨_, _, _, _, _, _, reads, _⟩
  have begun := Nat.le_trans after works.le
  have seen := scanner.le_finish
  rw [works.bytes_position] at seen
  have same : (endToken vocabulary scanner (text.place base) scanner.tokenStart).1 =
      Tree.leaf endSymbol (text.width base (text.size - base)) Extent.zero
        (scanner.finish.2 - text.size) (vocabulary.kind endSymbol) false := by
    have unfolded : (endToken vocabulary scanner (text.place base) scanner.tokenStart).1 =
        Tree.leaf endSymbol (scanner.tokenStart - text.place base) Extent.zero
          (scanner.finish.2 - scanner.tokenStart.bytes) (vocabulary.kind endSymbol) false := rfl
    rw [unfolded, skipped, Text.place_sub begun, Text.bytes_place]
  refine ⟨rfl, ⟨Nat.le_refl _, ?_, ?_, ⟨text.size, ?_, ?_⟩, fun _ => rfl⟩, Or.inl reads⟩
  · rw [same]
    rfl
  · rw [same]
    exact Nat.sub_pos_of_lt (by omega)
  · rw [same]
    refine ⟨begun, Nat.le_refl _, rfl, ?_⟩
    rw [Nat.sub_self]
    rfl
  · rw [skipped]

theorem takesUp_unexpected (short : text.size < maxOffset) (placed : scanner.Placed text offset)
    {place : Nat} {decoded : Utf8.Decoded} (after : base ≤ place)
    (read : Utf8.next? text place = some decoded) (entered : entry text place = place) :
    Scan.TakesUp text base (place + decoded.size)
      ⟨(unexpectedToken scanner (text.place base) (text.place place)).1,
        (unexpectedToken scanner (text.place base) (text.place place)).2.tokenSpan⟩ ∧
    (unexpectedToken scanner (text.place base) (text.place place)).2.Placed text
      (place + decoded.size) := by
  rcases Utf8.next_spec read with ⟨_, inside, _⟩
  have starts : (scanner.reset (text.place place)).start.Scans text place place := by
    have moved := (placed.reset short (Nat.le_of_add_right_le inside)).start short
    rwa [entered] at moved
  rw [unexpectedToken_eq]
  dsimp only
  generalize (scanner.reset (text.place place)).start = begun at starts ⊢
  have reported : (begun.report .unrecognized).Scans text place place :=
    ⟨starts.toReads.report _, starts.tokenStart_eq, starts.tokenStop_eq⟩
  have advanced := reported.advance short read
  generalize (begun.report .unrecognized).advance false = passed at advanced ⊢
  rcases advanced.markEnd with ⟨reads, start, stop⟩
  have spans : passed.markEnd.finish.1.tokenSpan =
      ⟨text.place place, text.place (place + decoded.size)⟩ := by
    rw [Scanner.tokenSpan_finish, stop, start, Option.getD_some, if_neg]
    rw [Text.bytes_place, Text.bytes_place]
    exact Nat.not_lt.mpr (Nat.le_add_right _ _)
  have seen := passed.markEnd.le_finish
  rw [reads.bytes_position] at seen
  rw [advanced.tokenBoundary, spans, Text.place_sub after,
    Text.place_sub (Nat.le_add_right place decoded.size), Text.bytes_place]
  refine ⟨⟨inside, rfl, Nat.sub_pos_of_lt (by omega), ⟨place, ?_, rfl⟩, ?_⟩, Or.inl ?_⟩
  · exact ⟨after, Nat.le_add_right _ _, rfl, rfl⟩
  · intro ended
    have other : errorSymbol ≠ endSymbol := by decide
    exact absurd ended other
  · exact reads.of_samePlace (Scanner.samePlace_finish _) (Scanner.loaded_finish _)

/-! ## Every scan -/

/-- A new scanner of a whole text stands at its beginning. -/
theorem placed_new_scanner (short : text.size < maxOffset) :
    (Scanner.new text [Span.whole]).Placed text 0 :=
  @Scanner.placed_goTo text 0
    { text, spans := [Span.whole], previous := none, ahead := [Span.whole],
      position := Extent.zero, tokenStart := Extent.zero, tokenStop := none, loaded := none,
      malformed := false, symbol := 0, log := [] } short rfl rfl (Nat.zero_le _)

/-- The scanner of a parse of a whole text that has not begun stands in it. -/
theorem placed_new {vocabulary : Vocabulary} {program : ScanProgram} {older : Option Tree}
    {limit : Nat} (short : text.size < maxOffset) :
    ∃ here, ((Context.new vocabulary program text [Span.whole] older limit).report
      .began).scanner.Placed text here :=
  ⟨0, (placed_new_scanner short).report _⟩

theorem entry_of_entry_le {place : Nat} (entered : entry text offset ≤ place) :
    entry text place = place := by
  unfold entry
  split
  · rfl
  · rename_i decoded read
    split
    · rename_i mark
      -- the mark at the beginning of the text was passed
      rcases mark with ⟨rfl, char⟩
      have first : offset = 0 := by
        have := @Scanner.le_entry text offset
        omega
      subst first
      have := (Utf8.next_spec read).1
      simp only [entry, read, char, and_self, if_true] at entered
      omega
    · rfl

theorem same_tick (context : Context) :
    context.tick.program = context.program ∧ context.tick.position = context.position := by
  dsimp only [tick]
  split <;> exact ⟨rfl, rfl⟩

theorem placed_tick (placed : context.scanner.Placed text offset) :
    context.tick.scanner.Placed text offset := by
  dsimp only [tick]
  split
  · exact placed.report _
  · exact placed

/-- From wherever the parse stands, its scanner can be moved to the end of the text. -/
theorem skipToEnd_of_placed (short : text.size < maxOffset) {here : Nat}
    (placed : context.scanner.Placed text here) (position : context.position = text.place offset)
    (inside : offset ≤ text.size) :
    ((context.scanner.reset context.position).skipToEnd).position = text.place text.size := by
  rw [position]
  exact (placed.reset short inside).skipToEnd short

/-- The token that is made of a scan takes up the text from the position on, its content just over
what the scanner said. -/
theorem fills_tokenOf (short : text.size < maxOffset) {found : Bool} {reached : Nat}
    (position : context.position = text.place offset)
    (run : context.program.run (context.scanner.reset context.position).start =
      some (found, scanner))
    (works : scanner.Works text (entry text offset) reached) :
    ∃ span last there, context.scannedSpan = some span ∧
      Scan.Fills text offset last
        ⟨(tokenOf context.vocabulary found scanner context.position).1, span⟩ ∧
      (context.program.SparesEnd →
        (tokenOf context.vocabulary found scanner context.position).1.info.symbol = endSymbol →
          last = text.size) ∧
      (tokenOf context.vocabulary found scanner context.position).2.Placed text there := by
  rcases works.starts with ⟨place, entered, within, started⟩
  have after_ : offset ≤ entry text offset := Scanner.le_entry offset
  simp only [scannedSpan, run, tokenOf]
  cases found with
  | true =>
      rcases fills_found short works after_ context.vocabulary with ⟨last, fills, symbol, there⟩
      rw [← position] at fills symbol there
      refine ⟨_, last, _, rfl, fills, fun spares ended => ?_, there⟩
      exact absurd (symbol.symm.trans ended) (spares _ _ run)
  | false =>
      simp only [Bool.false_eq_true, if_false]
      split
      · rename_i ended
        have skipped : scanner.tokenStart = text.place reached := by
          rw [started, Text.bytes_place, works.bytes_position] at ended
          rw [started, ended.2]
        rcases takesUp_end short works after_ context.vocabulary ended.1 skipped with
          ⟨_, takes, there⟩
        rw [← position] at takes there
        exact ⟨_, _, _, rfl, takes.fills, fun _ => takes.final, there⟩
      · rename_i unfinished
        have more : ∃ decoded, Utf8.next? text place = some decoded := by
          rw [← Option.isSome_iff_exists, Option.isSome_iff_ne_none]
          intro none
          have last := Utf8.next_eq_none_iff.mp none
          have bound := works.inside
          apply unfinished
          rw [started, works.atEnd, works.bytes_position, Text.bytes_place,
            Option.isNone_iff_eq_none, Utf8.next_eq_none_iff]
          omega
        rcases more with ⟨decoded, read⟩
        rw [started]
        rcases takesUp_unexpected short (Or.inl works.toReads) (Nat.le_trans after_ entered) read
          (entry_of_entry_le entered) with ⟨takes, there⟩
        rw [← position] at takes there
        exact ⟨_, _, _, rfl, takes.fills, fun _ => takes.final, there⟩

/-- The token that is scanned takes up the text from the position on, its content just over what the
scanner said. -/
theorem exists_filling_scan (short : text.size < maxOffset) {here : Nat}
    (placed : context.scanner.Placed text here) (position : context.position = text.place offset)
    (inside : offset ≤ text.size) (scanned : context.scanToken = some (token, after)) :
    ∃ span last, context.scannedSpan = some span ∧
      Scan.Fills text offset last ⟨token, span⟩ ∧
      (context.program.SparesEnd → token.info.symbol = endSymbol → last = text.size) ∧
      after.scanner.Placed text last ∧
      after.program = context.program ∧ after.position = context.position := by
  rcases exists_of_scanToken scanned with ⟨found, scanner, ended, run, made, rfl⟩
  have begun : ((context.scanner.reset context.position).start).Works text
      (entry text offset) (entry text offset) := by
    rw [position]
    exact ((placed.reset short inside).start short).works (Nat.le_refl _)
  rcases begun.runFrom short run with ⟨reached, works⟩
  rcases fills_tokenOf short position run works with ⟨span, last, there, said, fills, final, there_⟩
  rw [made] at fills final there_
  refine ⟨span, last, said, fills, final, ?_, (same_tick _).1, (same_tick _).2⟩
  rcases fills.covers with ⟨_, covers, _⟩
  rw [position, covers.place_add]
  exact placed_tick ((there_.reset short fills.inside).report _)

/-- With a program that spares the symbol of the end, only the end of the input has it. -/
theorem exists_scan (short : text.size < maxOffset) (spares : context.program.SparesEnd)
    {here : Nat} (placed : context.scanner.Placed text here)
    (position : context.position = text.place offset) (inside : offset ≤ text.size)
    (scanned : context.scanToken = some (token, after)) :
    ∃ span last, context.scannedSpan = some span ∧
      Scan.TakesUp text offset last ⟨token, span⟩ ∧ after.scanner.Placed text last ∧
      after.program = context.program ∧ after.position = context.position := by
  rcases exists_filling_scan short placed position inside scanned with
    ⟨span, last, said, fills, final, there, program, still⟩
  exact ⟨span, last, said, fills.takesUp (final spares), there, program, still⟩

end Context

end Reparse
