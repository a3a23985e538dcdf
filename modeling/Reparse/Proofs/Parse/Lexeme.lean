import Reparse.Proofs.Parse.Interface
import Reparse.Proofs.Scanner.ByteScan
import Reparse.Proofs.Tree.Shape

/-!
# What a parse sees of its text

Up to the lengths in it, the token that a parse scans is determined by the bytes that are still to
come (`Lexeme`), and so are the bytes to come behind it. A parse whose scan program is made of plain
blocks scans these lexemes, whatever spans its text is divided into
(`Context.Faces.scanToken`).
-/

namespace Reparse

open Scanner (Rests Unmarked)

/-- A token without lengths, and the bytes to come behind it. -/
structure Lexeme where
  token : Tree
  rest : List UInt8

/-- The token that a scan of bytes comes to. -/
def ByteScan.lexeme (vocabulary : Vocabulary) (found : Bool) (scan : ByteScan) : Lexeme :=
  if found then
    ⟨Tree.leaf scan.symbol Extent.zero Extent.zero 0 (vocabulary.kind scan.symbol)
      (vocabulary.isExtra scan.symbol), scan.tokenEnd⟩
  else if scan.rest = [] ∧ scan.start = [] then
    ⟨Tree.leaf endSymbol Extent.zero Extent.zero 0 (vocabulary.kind endSymbol) false, []⟩
  else
    let single := ByteScan.begin scan.start
    ⟨(Tree.unexpected (some single.lookahead) Extent.zero Extent.zero 0).shape,
      (single.advance false).rest⟩

/-- The next token of some bytes, if its scan ends. -/
def ScanProgram.lexeme? (program : ScanProgram) (vocabulary : Vocabulary) (rest : List UInt8) :
    Option Lexeme :=
  (program.runBytes 0 (ByteScan.begin rest)).map fun scanned =>
    scanned.2.lexeme vocabulary scanned.1

/-- A text with spans that cut it between characters, at the beginning of which is no mark. -/
structure Text.Readable (text : Text) (spans : List Span) : Prop where
  cut : text.Cut 0 spans
  unmarked : Unmarked (text.included spans)

section Tokens

variable {text : Text} {spans : List Span} {rest : List UInt8} {scanner : Scanner}

namespace Scanner

theorem Settled.finish (settled : scanner.Settled text spans rest) :
    scanner.finish.1.Settled text spans rest :=
  settled.of_samePlace (samePlace_finish scanner) (loaded_finish scanner)

theorem Shows.finish {floor : Nat} {scan : ByteScan} (cut : text.Cut 0 spans)
    (shows : scanner.Shows text spans floor scan) :
    text.bytesFrom scanner.finish.1.tokenEnd.bytes spans = scan.tokenEnd ∧
      Rests text spans scanner.finish.1.tokenEnd ∧
      floor ≤ scanner.finish.1.tokenStart.bytes := by
  rcases scanner.finish_spec with ⟨stop, start, _⟩
  have ends : text.bytesFrom scanner.finish.1.tokenEnd.bytes spans = scan.tokenEnd ∧
      Rests text spans scanner.finish.1.tokenEnd ∧ floor ≤ scanner.finish.1.tokenEnd.bytes := by
    rw [stop, ByteScan.tokenEnd, ← shows.stop_eq]
    cases marked : scanner.tokenStop with
    | none =>
        exact ⟨shows.toFaces.bytesFrom_tokenBoundary cut, shows.toFaces.rests cut, shows.floor_le⟩
    | some place =>
        rcases shows.stop_spec place marked with ⟨low, rests⟩
        exact ⟨rfl, rests, low⟩
  refine ⟨ends.1, ends.2.1, ?_⟩
  rcases start with same | same
  · rw [same]
    exact shows.floor_le_start
  · rw [same]
    exact ends.2.2

end Scanner

namespace Context

open Scanner

/-- A token at a position is the lexeme there. -/
structure Carries (text : Text) (spans : List Span) (position : Extent) (token : Tree)
    (lexeme : Lexeme) : Prop where
  shape_eq : token.shape = lexeme.token
  bytes_eq : text.bytesFrom (position + token.total).bytes spans = lexeme.rest
  rests : Rests text spans (position + token.total)

variable {vocabulary : Vocabulary} {start : Extent} {scan : ByteScan}

theorem carries_foundToken (cut : text.Cut 0 spans)
    (shows : scanner.Shows text spans start.bytes scan) :
    Carries text spans start (foundToken vocabulary scanner start).1
        (scan.lexeme vocabulary true) ∧
      (foundToken vocabulary scanner start).2.Settled text spans scan.rest := by
  rcases shows.finish cut with ⟨bytes, rests, low⟩
  rcases scanner.finish_spec with ⟨_, _, ordered, symbol⟩
  have reached : (start + (foundToken vocabulary scanner start).1.total).bytes =
      scanner.finish.1.tokenEnd.bytes := by
    change start.bytes + ((scanner.finish.1.tokenStart.bytes - start.bytes) +
      (scanner.finish.1.tokenEnd.bytes - scanner.finish.1.tokenStart.bytes)) = _
    omega
  refine ⟨⟨?_, ?_, rests.congr reached.symm⟩, Settled.finish (Or.inl shows.toViews)⟩
  · rw [foundToken, Tree.shape_leaf, symbol, shows.symbol_eq]
    rfl
  · rw [reached, bytes]
    rfl

theorem carries_endToken (shows : scanner.Shows text spans start.bytes scan)
    (ended : scan.rest = [] ∧ scan.start = []) :
    Carries text spans start (endToken vocabulary scanner start scanner.tokenStart).1
        (scan.lexeme vocabulary false) ∧
      (endToken vocabulary scanner start scanner.tokenStart).2.Settled text spans scan.rest := by
  have low := shows.floor_le_start
  have reached : (start + (endToken vocabulary scanner start scanner.tokenStart).1.total).bytes =
      scanner.tokenStart.bytes := by
    change start.bytes + ((scanner.tokenStart.bytes - start.bytes) + 0) = _
    omega
  have last : scanner.tokenStart.bytes = scanner.position.bytes := by
    rcases shows.begun with same | shorter
    · exact same
    · rw [ended.2] at shorter
      cases shorter
  have faces : scanner.Faces text spans [] := ended.1 ▸ shows.toFaces
  rw [ByteScan.lexeme, if_neg Bool.false_ne_true, if_pos ended]
  refine ⟨⟨Tree.shape_leaf _ _ _ _ _ _, ?_, faces.rests_of_ended (reached.trans last)⟩,
    Settled.finish (Or.inl shows.toViews)⟩
  rw [reached, shows.start_eq]
  exact ended.2

theorem carries_unexpectedToken (readable : text.Readable spans)
    (shows : scanner.Shows text spans start.bytes scan)
    (more : ¬(scan.rest = [] ∧ scan.start = [])) :
    Carries text spans start (unexpectedToken scanner start scanner.tokenStart).1
        (scan.lexeme vocabulary false) ∧
      ∃ bytes, (unexpectedToken scanner start scanner.tokenStart).2.Settled text spans bytes := by
  have left : scan.start ≠ [] := by
    intro none_left
    refine more ⟨?_, none_left⟩
    rcases shows.begun with same | shorter
    · rw [← shows.bytes_eq, ← same, shows.start_eq]
      exact none_left
    · rw [none_left] at shorter
      cases shorter
  have placed := Settled.reset readable.cut (Or.inl shows.toViews) scanner.tokenStart
  have settled := placed.settled
  rw [shows.start_eq] at settled
  rcases settled.start readable.cut readable.unmarked (show Keeps scan.start 0 _ from
    ⟨Nat.zero_le _, fun _ => Nat.zero_le _⟩) with ⟨again, stands⟩
  have onward := placed.le_position (by rw [shows.start_eq]; exact left)
  rw [← stands] at onward
  have char := again.toViews.lookahead
  rw [unexpectedToken_eq]
  dsimp only
  generalize (scanner.reset scanner.tokenStart).start = started at again onward char ⊢
  rcases (again.report .unrecognized).advance readable.cut false with ⟨advanced, _, beyond⟩
  have far : scanner.tokenStart.bytes ≤
      ((started.report .unrecognized).advance false).tokenBoundary.bytes :=
    Nat.le_trans onward (beyond left)
  generalize (started.report .unrecognized).advance false = passed at advanced far ⊢
  have low := shows.floor_le_start
  have reached : (start + (Tree.unexpected (some started.lookahead) (scanner.tokenStart - start)
      (passed.tokenBoundary - scanner.tokenStart)
      (passed.markEnd.finish.2 - passed.tokenBoundary.bytes)).total).bytes =
      passed.tokenBoundary.bytes := by
    change start.bytes + ((scanner.tokenStart.bytes - start.bytes) +
      (passed.tokenBoundary.bytes - scanner.tokenStart.bytes)) = _
    omega
  rw [ByteScan.lexeme, if_neg Bool.false_ne_true, if_neg more]
  refine ⟨⟨?_, ?_, (advanced.toFaces.rests readable.cut).congr reached.symm⟩, _,
    Settled.finish (Or.inl (advanced.markEnd readable.cut).toViews)⟩
  · rw [char, Tree.shape_unexpected]
  · rw [reached]
    exact advanced.toFaces.bytesFrom_tokenBoundary readable.cut

/-! ## Scanning -/

/-- The parse stands where the bytes `rest` are still to come. -/
structure Faces (text : Text) (spans : List Span) (rest : List UInt8) (context : Context) :
    Prop where
  settled : ∃ bytes, context.scanner.Settled text spans bytes
  bytes_eq : text.bytesFrom context.position.bytes spans = rest
  rests : Rests text spans context.position

theorem carries_token (readable : text.Readable spans) (found : Bool)
    (shows : scanner.Shows text spans start.bytes scan) :
    Carries text spans start (tokenOf vocabulary found scanner start).1
        (scan.lexeme vocabulary found) ∧
      ∃ bytes, (tokenOf vocabulary found scanner start).2.Settled text spans bytes := by
  have ended : scanner.atEnd ∧ scanner.position.bytes = scanner.tokenStart.bytes ↔
      scan.rest = [] ∧ scan.start = [] := by
    rw [shows.toViews.atEnd, List.isEmpty_iff]
    constructor
    · rintro ⟨finished, same⟩
      refine ⟨finished, ?_⟩
      rw [← shows.start_eq, ← same, shows.bytes_eq, finished]
    · rintro ⟨finished, none_left⟩
      refine ⟨finished, ?_⟩
      rcases shows.begun with same | shorter
      · exact same.symm
      · rw [none_left] at shorter
        cases shorter
  unfold tokenOf
  cases found with
  | true =>
      rcases carries_foundToken readable.cut shows with ⟨carries, settled⟩
      exact ⟨carries, _, settled⟩
  | false =>
      rw [if_neg Bool.false_ne_true]
      by_cases finished : scan.rest = [] ∧ scan.start = []
      · rw [if_pos (ended.mpr finished)]
        rcases carries_endToken shows finished with ⟨carries, settled⟩
        exact ⟨carries, _, settled⟩
      · rw [if_neg fun stands => finished (ended.mp stands)]
        exact carries_unexpectedToken readable shows finished

/-- A parse whose blocks are plain scans the next token of the bytes to come, and nothing else of it
changes but the scanner and the count of operations. -/
theorem Faces.scanToken {context : Context} (readable : text.Readable spans)
    (plain : ∀ label, (context.program label).IsPlain) (unlimited : context.limit = 0)
    (faces : context.Faces text spans rest) :
    Option.Rel (fun scanned lexeme =>
        Carries text spans context.position scanned.1 lexeme ∧
        ∃ scanner operations, scanned.2 = { context with scanner, operations } ∧
          ∃ bytes, scanner.Settled text spans bytes)
      context.scanToken (context.program.lexeme? context.vocabulary rest) := by
  rcases faces with ⟨⟨before, settled⟩, bytes_eq, rests⟩
  rcases settled.reset readable.cut context.position with ⟨placed, _, keeps⟩
  rw [bytes_eq] at placed keeps
  have shows := (placed.start readable.cut readable.unmarked (keeps rests)).1
  have scanned := shows.runFrom readable.cut plain 0
  unfold ScanProgram.lexeme?
  generalize runEq : context.program.runFrom 0 (context.scanner.reset context.position).start = run
    at scanned
  generalize context.program.runBytes 0 (ByteScan.begin rest) = read at scanned ⊢
  cases scanned with
  | none =>
      rw [scanToken_of_none runEq]
      exact .none
  | @some run read reached =>
      rcases run with ⟨found, scanner⟩
      rcases read with ⟨other, scan⟩
      rcases reached with ⟨same, shows⟩
      obtain rfl : found = other := same
      rcases @carries_token text spans scanner context.vocabulary context.position scan readable
        found shows with ⟨carries, bytes, settled⟩
      rcases made : tokenOf context.vocabulary found scanner context.position with ⟨token, after⟩
      rw [made] at carries settled
      rw [scanToken_of_some runEq made]
      have after := (settled.reset readable.cut (context.position + token.total)).settled
      exact .some ⟨carries, _, _, tick_of_unlimited unlimited, _,
        after.of_samePlace (samePlace_report _ _) rfl⟩

end Context

end Tokens

end Reparse
