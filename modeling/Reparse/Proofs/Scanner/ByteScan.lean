import Reparse.Proofs.Scanner.Faces

/-!
# Scans of bytes alone

A scan program that asks neither for the column nor for the start of a span (`Block.IsPlain`) sees a
scanner only through the bytes that are still to come. `ByteScan` is a scan of a list of bytes: it
knows no positions and no spans, and stands for the places where the token begins and ends by the
bytes that are still to come there.

Scanning text in spans comes to the same as scanning the included bytes: every operation of a
scanner does what the operation of the byte scan does (`Scanner.Shows.advance`,
`Scanner.Shows.markEnd`), and so does a whole program (`Scanner.Shows.runFrom`).
-/

namespace Reparse

/-- A scan of a token in bytes. -/
structure ByteScan where
  /-- The bytes still to come. -/
  rest : List UInt8
  /-- The bytes to come where the token begins. -/
  start : List UInt8
  /-- The bytes to come where the token ends. -/
  stop : Option (List UInt8)
  symbol : Nat

namespace ByteScan

def begin (rest : List UInt8) : ByteScan := ⟨rest, rest, none, 0⟩

/-- The next character, NUL at the end. -/
def lookahead (scan : ByteScan) : Char :=
  match Utf8.next? scan.rest.toArray 0 with
  | some decoded => decoded.char
  | none => '\x00'

def advance (scan : ByteScan) (skip : Bool) : ByteScan :=
  match Utf8.next? scan.rest.toArray 0 with
  | some decoded =>
    let rest := scan.rest.drop decoded.size
    { scan with rest, start := if skip then rest else scan.start }
  | none => scan

def markEnd (scan : ByteScan) : ByteScan := { scan with stop := some scan.rest }

def accept (scan : ByteScan) (symbol : Nat) : ByteScan := { scan with symbol }.markEnd

/-- Where the token ends, the place reached if that was not said. -/
def tokenEnd (scan : ByteScan) : List UInt8 := scan.stop.getD scan.rest

end ByteScan

namespace Block

/-- The block asks neither for the column nor for the start of a span. -/
def IsPlain : Block → Prop
  | stop _ => True
  | jump _ => True
  | look next => ∀ char ended, (next char ended).IsPlain
  | column _ => False
  | atSpanStart _ => False
  | advance _ next => next.IsPlain
  | markEnd next => next.IsPlain
  | accept _ next => next.IsPlain

/-- Runs a plain block on bytes. There is no answer to the other questions. -/
def runBytes (scan : ByteScan) : Block → BlockEnd × ByteScan
  | stop found => (.stopped found, scan)
  | jump label => (.jumped label, scan)
  | look next => (next scan.lookahead scan.rest.isEmpty).runBytes scan
  | column next => (next 0).runBytes scan
  | atSpanStart next => (next false).runBytes scan
  | advance skip next => next.runBytes (scan.advance skip)
  | markEnd next => next.runBytes scan.markEnd
  | accept symbol next => next.runBytes (scan.accept symbol)

end Block

/-- Runs a program of plain blocks on bytes. -/
def ScanProgram.runBytes (program : ScanProgram) (label : Nat) (scan : ByteScan) :
    Option (Bool × ByteScan) :=
  match (program label).runBytes scan with
  | (.stopped found, reached) => some (found, reached)
  | (.jumped label, reached) =>
    if reached.rest.length < scan.rest.length then program.runBytes label reached else none
termination_by scan.rest.length

namespace Scanner

variable {text : Text} {spans : List Span} {rest : List UInt8} {scanner : Scanner}

/-! ## Stepping -/

theorem bytes_past (position : Extent) (char : Char) (size : Nat) :
    (past position char size).bytes = position.bytes + size := by
  unfold past
  split <;> rfl

theorem remaining_lt {before : Scanner} (same : scanner.text = before.text)
    (less : scanner.ahead.length < before.ahead.length ∨
      scanner.ahead.length = before.ahead.length ∧
        before.position.bytes < scanner.position.bytes ∧
          before.position.bytes < before.text.size) :
    scanner.remaining < before.remaining := by
  unfold remaining
  rw [same]
  rcases less with shorter | ⟨same, later, inside⟩
  · have scaled : (scanner.ahead.length + 1) * (before.text.size + 1) ≤
        before.ahead.length * (before.text.size + 1) := Nat.mul_le_mul_right _ shorter
    rw [Nat.succ_mul] at scaled
    omega
  · rw [same]
    omega

/-- Reading at the position changes nothing but what is known of the bytes to come. -/
theorem load_spec (scanner : Scanner) :
    scanner.load.position = scanner.position ∧ scanner.load.tokenStart = scanner.tokenStart ∧
      scanner.load.tokenStop = scanner.tokenStop ∧ scanner.load.symbol = scanner.symbol ∧
      scanner.load.text = scanner.text ∧
      (scanner.load.ahead = [] ∨
        scanner.load.ahead = scanner.ahead ∧ scanner.load.previous = scanner.previous) := by
  unfold load
  split
  · exact ⟨rfl, rfl, rfl, rfl, rfl, Or.inr ⟨rfl, rfl⟩⟩
  · exact ⟨rfl, rfl, rfl, rfl, rfl, Or.inl rfl⟩

theorem load_remaining_le (scanner : Scanner) : scanner.load.remaining ≤ scanner.remaining := by
  rcases scanner.load_spec with ⟨position, _, _, _, sees, ahead⟩
  unfold remaining
  rw [position, sees]
  rcases ahead with ended | ⟨ahead, _⟩
  · rw [ended, List.length_nil, Nat.zero_mul, Nat.zero_add]
    exact Nat.le_add_left _ _
  · rw [ahead]

theorem load_tokenBoundary_le {floor : Nat} (low : floor ≤ scanner.position.bytes)
    (high : floor ≤ scanner.tokenBoundary.bytes) : floor ≤ scanner.load.tokenBoundary.bytes := by
  rcases scanner.load_spec with ⟨position, _, _, _, _, ended | ⟨ahead, previous⟩⟩
  · rw [tokenBoundary_eq, ended, boundary_nil, position]
    exact low
  · rw [tokenBoundary_eq, ahead, previous, position]
    exact high

theorem step_eq {char : Char} {size : Nat} {position : Extent} {previous : Option Span}
    {ahead : List Span} (loaded : scanner.loaded = some (char, size))
    (settles : settle (past scanner.position char size) scanner.previous scanner.ahead =
      (position, previous, ahead)) (skip : Bool) :
    scanner.step skip =
      if ahead.isEmpty then
        { scanner with
          position, previous, ahead
          tokenStart := if skip then position else scanner.tokenStart
          loaded := none
          malformed := false }
      else
        ({ scanner with
          position, previous, ahead
          tokenStart := if skip then position else scanner.tokenStart } : Scanner).load := by
  simp only [step, loaded, settles]

/-- A step past a character has led a scanner on, not to a place before the end of the character. -/
structure SteppedFrom (before : Scanner) (skip : Bool) (size : Nat) (scanner : Scanner) : Prop where
  le_boundary : before.position.bytes + size ≤ scanner.tokenBoundary.bytes
  remaining_lt : scanner.remaining < before.remaining
  tokenStart_eq : scanner.tokenStart = if skip then scanner.position else before.tokenStart
  tokenStop_eq : scanner.tokenStop = before.tokenStop
  symbol_eq : scanner.symbol = before.symbol

/-- Reading at the place reached does not take back the step. -/
theorem SteppedFrom.load {before : Scanner} {skip : Bool} {size : Nat}
    (stepped : SteppedFrom before skip size scanner)
    (boundary_le : scanner.tokenBoundary.bytes ≤ scanner.position.bytes) :
    SteppedFrom before skip size scanner.load := by
  rcases scanner.load_spec with ⟨stands, start, stop, symbol, _⟩
  refine ⟨?_, Nat.lt_of_le_of_lt scanner.load_remaining_le stepped.remaining_lt, ?_, ?_, ?_⟩
  · exact load_tokenBoundary_le (Nat.le_trans stepped.le_boundary boundary_le) stepped.le_boundary
  · rw [start, stands]
    exact stepped.tokenStart_eq
  · exact stop.trans stepped.tokenStop_eq
  · exact symbol.trans stepped.symbol_eq

/-- Behind the character to come the scanner settles where the bytes after it are to come. -/
theorem Views.settle_past (cut : text.Cut 0 spans) (views : scanner.Views text spans rest)
    {decoded : Utf8.Decoded} (read : Utf8.next? rest.toArray 0 = some decoded) :
    ∃ position previous ahead,
      settle (past scanner.position decoded.char decoded.size) scanner.previous scanner.ahead =
        (position, previous, ahead) ∧
      text.bytesFrom position.bytes spans = rest.drop decoded.size ∧
      (ahead = [] ∧ rest.drop decoded.size = [] ∨ Inside spans position.bytes previous ahead) ∧
      scanner.position.bytes + decoded.size ≤ (boundary position previous ahead).bytes ∧
      (∀ last, spans.getLast? = some last → position.bytes ≤ last.stop.bytes) ∧
      (ahead.length < scanner.ahead.length ∨ ahead.length = scanner.ahead.length ∧
        scanner.position.bytes < position.bytes ∧ scanner.position.bytes < text.size) := by
  have more : scanner.ahead ≠ [] := by
    intro ended
    rw [next?_eq_none_iff.mpr (views.ended_iff.mp ended)] at read
    cases read
  have found := (views.toFaces.next_eq cut more).trans read
  rcases views.place with ⟨ended, _⟩ | ⟨before, span, after, split, ahead, previous, begun, inside⟩
  · exact absurd ended more
  · rcases Utf8.next_spec found with ⟨positive, within, _⟩
    have bytes := bytes_past scanner.position decoded.char decoded.size
    generalize past scanner.position decoded.char decoded.size = reached at bytes ⊢
    have short : reached.bytes ≤ span.stop.bytes := by
      rw [bytes]
      exact (split ▸ cut).size_le begun inside found
    have dropped : text.bytesFrom reached.bytes spans = rest.drop decoded.size := by
      rw [bytes, ← views.bytes_eq]
      subst split
      exact cut.bytesFrom_add begun (bytes ▸ short) within
    rcases @settle_spec text spans cut before after span reached reached.bytes split (by omega)
      short (Nat.le_refl _) (by omega) with
      ⟨position, last, later, settles, same, place, high, final, shrinks⟩
    rw [dropped] at same place
    rw [ahead, previous]
    refine ⟨position, last, later, settles, same, place, by omega, final, ?_⟩
    rcases shrinks with ⟨rfl, rfl⟩ | shorter
    · exact Or.inr ⟨rfl, by omega, by omega⟩
    · exact Or.inl shorter

/-- A step drops the bytes of the character it passes. -/
theorem Views.step (cut : text.Cut 0 spans) (views : scanner.Views text spans rest)
    {decoded : Utf8.Decoded} (read : Utf8.next? rest.toArray 0 = some decoded) (skip : Bool) :
    (scanner.step skip).Views text spans (rest.drop decoded.size) ∧
      SteppedFrom scanner skip decoded.size (scanner.step skip) := by
  rcases views.settle_past cut read with
    ⟨position, previous, ahead, settles, same, place, high, final, less⟩
  rcases views with ⟨⟨text_eq, spans_eq, _, _, _⟩, loaded_eq, _⟩
  rw [read, Option.map_some] at loaded_eq
  rw [← text_eq] at less
  rw [step_eq loaded_eq settles]
  split
  · rename_i empty
    obtain rfl : ahead = [] := List.isEmpty_iff.mp empty
    have nothing : rest.drop decoded.size = [] := by
      rcases place with ⟨_, nothing⟩ | ⟨_, _, _, _, impossible, _⟩
      · exact nothing
      · cases impossible
    rw [nothing] at same ⊢
    exact ⟨⟨⟨text_eq, spans_eq, same, Or.inl ⟨rfl, rfl⟩, final⟩, rfl, by simp⟩, high,
      remaining_lt rfl less, rfl, rfl, rfl⟩
  · rename_i nonempty
    generalize movedEq : ({ scanner with
      position, previous, ahead
      tokenStart := if skip then position else scanner.tokenStart } : Scanner) = moved
    have faces : moved.Faces text spans (rest.drop decoded.size) := by
      subst movedEq
      exact ⟨text_eq, spans_eq, same, place, final⟩
    have left : moved.ahead ≠ [] := by
      subst movedEq
      exact fun ended => nonempty (List.isEmpty_iff.mpr ended)
    have stepped : SteppedFrom scanner skip decoded.size moved := by
      subst movedEq
      exact ⟨high, remaining_lt rfl less, rfl, rfl, rfl⟩
    exact ⟨faces.load cut left, stepped.load (faces.tokenBoundary_le cut)⟩

/-! ## Scanners and byte scans -/

/-- The scanner shows what the byte scan has before it, and has not fallen back behind `floor`. -/
structure Shows (text : Text) (spans : List Span) (floor : Nat) (scan : ByteScan)
    (scanner : Scanner) : Prop extends Views text spans scan.rest scanner where
  symbol_eq : scanner.symbol = scan.symbol
  start_eq : text.bytesFrom scanner.tokenStart.bytes spans = scan.start
  stop_eq : (scanner.tokenStop.map fun stop => text.bytesFrom stop.bytes spans) = scan.stop
  floor_le : floor ≤ scanner.tokenBoundary.bytes
  floor_le_start : floor ≤ scanner.tokenStart.bytes
  stop_spec : ∀ stop, scanner.tokenStop = some stop → floor ≤ stop.bytes ∧ Rests text spans stop
  /-- The token is not empty once something was read that was not skipped. -/
  begun : scanner.tokenStart.bytes = scanner.position.bytes ∨ scan.rest.length < scan.start.length

variable {floor : Nat} {scan : ByteScan}

/-- Both have moved on, or neither has. -/
def MovedOn (scanner reached : Scanner) (scan reachedScan : ByteScan) : Prop :=
  reached.remaining = scanner.remaining ∧ reachedScan.rest = scan.rest ∨
    reached.remaining < scanner.remaining ∧ reachedScan.rest.length < scan.rest.length

theorem MovedOn.refl (scanner : Scanner) (scan : ByteScan) : MovedOn scanner scanner scan scan :=
  Or.inl ⟨rfl, rfl⟩

theorem MovedOn.trans {between reached : Scanner} {betweenScan reachedScan : ByteScan}
    (first : MovedOn scanner between scan betweenScan)
    (second : MovedOn between reached betweenScan reachedScan) :
    MovedOn scanner reached scan reachedScan := by
  rcases first with ⟨same, bytes⟩ | ⟨less, shorter⟩
  · rcases second with ⟨sameAgain, bytesAgain⟩ | ⟨less, shorter⟩
    · exact Or.inl ⟨sameAgain.trans same, bytesAgain.trans bytes⟩
    · rw [same] at less
      rw [bytes] at shorter
      exact Or.inr ⟨less, shorter⟩
  · rcases second with ⟨same, bytes⟩ | ⟨lessAgain, shorterAgain⟩
    · rw [← same] at less
      rw [← bytes] at shorter
      exact Or.inr ⟨less, shorter⟩
    · exact Or.inr ⟨Nat.lt_trans lessAgain less, Nat.lt_trans shorterAgain shorter⟩

theorem Views.lookahead (views : scanner.Views text spans scan.rest) :
    scanner.lookahead = scan.lookahead := by
  unfold Scanner.lookahead ByteScan.lookahead
  rw [views.loaded_eq]
  cases Utf8.next? scan.rest.toArray 0 <;> rfl

theorem Views.atEnd (views : scanner.Views text spans rest) : scanner.atEnd = rest.isEmpty := by
  rw [Bool.eq_iff_iff]
  unfold Scanner.atEnd
  rw [List.isEmpty_iff, List.isEmpty_iff]
  exact views.ended_iff

theorem Views.report (views : scanner.Views text spans rest) (notice : Notice) :
    (scanner.report notice).Views text spans rest :=
  views.of_samePlace (samePlace_report _ _) rfl

namespace Shows

theorem advance (cut : text.Cut 0 spans) (shows : scanner.Shows text spans floor scan)
    (skip : Bool) :
    (scanner.advance skip).Shows text spans floor (scan.advance skip) ∧
      MovedOn scanner (scanner.advance skip) scan (scan.advance skip) ∧
      (scan.rest ≠ [] →
        scanner.position.bytes ≤ (scanner.advance skip).tokenBoundary.bytes) := by
  unfold Scanner.advance ByteScan.advance
  rw [shows.atEnd]
  cases read : Utf8.next? scan.rest.toArray 0 with
  | none =>
      have ended := next?_eq_none_iff.mp read
      rw [if_pos (List.isEmpty_iff.mpr ended)]
      exact ⟨shows, MovedOn.refl _ _, fun more => absurd ended more⟩
  | some decoded =>
      have positive := (Utf8.next_spec read).1
      have long := (Utf8.next_spec read).2.1
      have shorter : (scan.rest.drop decoded.size).length < scan.rest.length := by
        rw [List.size_toArray] at long
        rw [List.length_drop]
        omega
      have more : scan.rest.isEmpty = false := by
        rw [List.isEmpty_eq_false_iff]
        intro ended
        rw [ended] at shorter
        cases shorter
      rw [if_neg (by simp [more])]
      rcases (shows.toViews.report (.passed skip scanner.lookahead)).step cut read skip with
        ⟨views, stepped⟩
      generalize (scanner.report (.passed skip scanner.lookahead)).step skip = reached at *
      rcases stepped with ⟨boundary, less, start, stop, symbol⟩
      have behind := shows.toFaces.tokenBoundary_le cut
      have ahead := views.toFaces.tokenBoundary_le cut
      change scanner.position.bytes + _ ≤ _ at boundary
      have floor_le : floor ≤ reached.tokenBoundary.bytes := by
        have low := shows.floor_le
        omega
      refine ⟨⟨views, symbol.trans shows.symbol_eq, ?_, ?_, floor_le, ?_, ?_, ?_⟩,
        Or.inr ⟨less, shorter⟩, fun _ => by omega⟩
      · rw [start]
        cases skip with
        | true => exact views.bytes_eq
        | false => exact shows.start_eq
      · rw [stop]
        exact shows.stop_eq
      · rw [start]
        cases skip with
        | true => exact Nat.le_trans floor_le ahead
        | false => exact shows.floor_le_start
      · rw [stop]
        exact shows.stop_spec
      · rw [start]
        cases skip with
        | true => exact Or.inl rfl
        | false =>
            right
            change _ < scan.start.length
            rcases shows.begun with same | less
            · rw [← shows.start_eq, same, shows.bytes_eq]
              exact shorter
            · exact Nat.lt_trans shorter less

theorem markEnd (cut : text.Cut 0 spans) (shows : scanner.Shows text spans floor scan) :
    scanner.markEnd.Shows text spans floor scan.markEnd := by
  refine ⟨shows.toViews.of_samePlace (samePlace_markEnd _) rfl, shows.symbol_eq, shows.start_eq, ?_,
    shows.floor_le, shows.floor_le_start, ?_, shows.begun⟩
  · exact congrArg some (shows.toFaces.bytesFrom_tokenBoundary cut)
  · intro stop found
    obtain rfl : scanner.tokenBoundary = stop := Option.some.inj found
    exact ⟨shows.floor_le, shows.toFaces.rests cut⟩

theorem accept (cut : text.Cut 0 spans) (shows : scanner.Shows text spans floor scan)
    (symbol : Nat) : (scanner.accept symbol).Shows text spans floor (scan.accept symbol) := by
  have views : ({ scanner with symbol } : Scanner).Views text spans scan.rest :=
    shows.toViews.of_samePlace ⟨rfl, rfl, rfl, rfl, rfl⟩ rfl
  have named : ({ scanner with symbol } : Scanner).Shows text spans floor { scan with symbol } :=
    ⟨views, rfl, shows.start_eq, shows.stop_eq, shows.floor_le, shows.floor_le_start,
      shows.stop_spec, shows.begun⟩
  exact named.markEnd cut

theorem report (shows : scanner.Shows text spans floor scan) (notice : Notice) :
    (scanner.report notice).Shows text spans floor scan :=
  ⟨shows.toViews.report notice, shows.symbol_eq, shows.start_eq, shows.stop_eq, shows.floor_le,
    shows.floor_le_start, shows.stop_spec, shows.begun⟩

/-- A plain block does with a scanner what it does with the bytes that the scanner shows. -/
theorem run (cut : text.Cut 0 spans) {block : Block} (plain : block.IsPlain)
    (shows : scanner.Shows text spans floor scan) :
    (block.run scanner).1 = (block.runBytes scan).1 ∧
      (block.run scanner).2.Shows text spans floor (block.runBytes scan).2 ∧
      MovedOn scanner (block.run scanner).2 scan (block.runBytes scan).2 := by
  induction block generalizing scanner scan with
  | stop found => exact ⟨rfl, shows, MovedOn.refl _ _⟩
  | jump label => exact ⟨rfl, shows, MovedOn.refl _ _⟩
  | look next ih =>
      rw [Block.run, Block.runBytes, shows.toViews.lookahead, shows.toViews.atEnd]
      exact ih _ _ (plain _ _) shows
  | column next => exact plain.elim
  | atSpanStart next => exact plain.elim
  | advance skip next ih =>
      rcases shows.advance cut skip with ⟨advanced, moved, _⟩
      rcases ih plain advanced with ⟨same, reached, further⟩
      exact ⟨same, reached, moved.trans further⟩
  | markEnd next ih =>
      rcases ih plain (shows.markEnd cut) with ⟨same, reached, further⟩
      exact ⟨same, reached, MovedOn.trans (Or.inl ⟨rfl, rfl⟩) further⟩
  | accept symbol next ih =>
      rcases ih plain (shows.accept cut symbol) with ⟨same, reached, further⟩
      exact ⟨same, reached, MovedOn.trans (Or.inl ⟨rfl, rfl⟩) further⟩

/-- So does a program of plain blocks. -/
theorem runFrom (cut : text.Cut 0 spans) {program : ScanProgram}
    (plain : ∀ label, (program label).IsPlain) (label : Nat)
    (shows : scanner.Shows text spans floor scan) :
    Option.Rel (fun scanned read => scanned.1 = read.1 ∧
        scanned.2.Shows text spans floor read.2)
      (program.runFrom label scanner) (program.runBytes label scan) := by
  induction length : scan.rest.length using Nat.strongRecOn generalizing label scanner scan with
  | ind length ih =>
      rcases shows.run cut (plain label) with ⟨same, reached, moved⟩
      rw [ScanProgram.runFrom, ScanProgram.runBytes]
      cases scanned : (program label).run scanner with
      | mk ending reachedScanner =>
          cases read : (program label).runBytes scan with
          | mk other reachedScan =>
              rw [scanned, read] at same reached moved
              obtain rfl : ending = other := same
              cases ending with
              | stopped found => exact .some ⟨rfl, reached⟩
              | jumped next =>
                  dsimp only at reached moved ⊢
                  rcases moved with ⟨stands, bytes⟩ | ⟨less, shorter⟩
                  · rw [if_neg (by omega), if_neg (by rw [bytes]; omega)]
                    exact .none
                  · rw [if_pos less, if_pos shorter]
                    exact ih _ (length ▸ shorter) next reached rfl

end Shows

/-! ## Beginning a token -/

/-- The text does not begin with a byte order mark. -/
def Unmarked (text : Text) : Prop :=
  ∀ decoded, Utf8.next? text 0 = some decoded → decoded.char ≠ byteOrderMark

theorem Views.lookahead_ne_mark (unmarked : Unmarked (text.included spans))
    (views : scanner.Views text spans rest) (first : scanner.position.bytes = 0) :
    scanner.lookahead ≠ byteOrderMark := by
  have all : rest = (text.included spans).toList := by
    rw [Text.toList_included, ← views.bytes_eq, first]
  have shown : scanner.lookahead = (ByteScan.begin rest).lookahead := views.lookahead
  rw [shown, ByteScan.lookahead, ByteScan.begin, all, Array.toArray_toList]
  cases read : Utf8.next? (text.included spans) 0 with
  | none => decide
  | some decoded => exact unmarked decoded read

theorem Keeps.load (keeps : scanner.Keeps rest floor) : scanner.load.Keeps rest floor := by
  refine ⟨?_, fun more => load_tokenBoundary_le keeps.1 (keeps.2 more)⟩
  rw [scanner.load_spec.1]
  exact keeps.1

theorem Views.shows (views : scanner.Views text spans rest) (keeps : scanner.Keeps rest floor)
    (start : scanner.tokenStart = scanner.position) (stop : scanner.tokenStop = none)
    (symbol : scanner.symbol = 0) :
    scanner.Shows text spans floor (ByteScan.begin rest) := by
  refine ⟨views, symbol, ?_, ?_, ?_, ?_, ?_, Or.inl (congrArg _ start)⟩
  · rw [start]
    exact views.bytes_eq
  · rw [stop]
    rfl
  · by_cases more : rest = []
    · rw [tokenBoundary_eq, views.ended_iff.mpr more, boundary_nil]
      exact keeps.1
    · exact keeps.2 more
  · rw [start]
    exact keeps.1
  · intro place found
    rw [stop] at found
    cases found

theorem Keeps.primed (keeps : scanner.Keeps rest floor) : scanner.primed.Keeps rest floor := by
  unfold Scanner.primed
  split
  · exact keeps
  · exact keeps.load

/-- At the end nothing is loaded. -/
theorem Settled.unloaded (settled : scanner.Settled text spans rest) (ended : scanner.ahead = []) :
    scanner.loaded = none := by
  rcases settled with views | ⟨_, empty⟩
  · rw [views.loaded_eq, views.ended_iff.mp ended]
    rfl
  · exact empty

/-- What stands at the position is read, unless that was done before. -/
theorem Settled.primed (cut : text.Cut 0 spans) (settled : scanner.Settled text spans rest) :
    scanner.primed.Views text spans rest := by
  unfold Scanner.primed
  rcases settled with views | ⟨faces, empty⟩
  · split
    · exact views
    · rename_i unread
      have more : scanner.ahead ≠ [] := fun ended => unread (by rw [atEnd_eq_true.mpr ended]; rfl)
      exact views.toFaces.load cut more
  · rw [empty, Option.isSome_none, Bool.or_false]
    split
    · rename_i ended
      have finished := atEnd_eq_true.mp ended
      have nothing : rest = [] := by
        rcases faces.place with ⟨_, nothing⟩ | ⟨_, _, _, _, ahead, _⟩
        · exact nothing
        · rw [finished] at ahead
          cases ahead
      subst nothing
      exact ⟨faces, empty, by simp [finished]⟩
    · rename_i more
      exact faces.load cut fun finished => more (atEnd_eq_true.mpr finished)

/-- A scanner begins a token with the bytes to come, unless a byte order mark stands at the
beginning of the included bytes. -/
theorem Settled.start (cut : text.Cut 0 spans) (unmarked : Unmarked (text.included spans))
    (settled : scanner.Settled text spans rest) (keeps : scanner.Keeps rest floor) :
    scanner.start.Shows text spans floor (ByteScan.begin rest) ∧
      scanner.start.position = scanner.position := by
  have again : scanner.fresh.Settled text spans rest :=
    settled.of_samePlace (samePlace_fresh scanner) rfl
  have views := again.primed cut
  have kept : scanner.fresh.primed.Keeps rest floor := Keeps.primed keeps
  have position : scanner.fresh.primed.position = scanner.position := position_primed _
  have start : scanner.fresh.primed.tokenStart = scanner.position := tokenStart_primed _
  rw [start_eq settled.unloaded,
    if_neg fun marked => views.lookahead_ne_mark unmarked marked.1 marked.2]
  exact ⟨views.shows kept (start.trans position.symm) (tokenStop_primed _)
    (symbol_primed scanner.fresh), position⟩

end Scanner

end Reparse
