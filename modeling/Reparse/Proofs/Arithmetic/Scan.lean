import Reparse.Parse.Context
import Reparse.Proofs.Arithmetic.Token
import Reparse.Proofs.Scanner.Runs

/-!
# The scan program finds the tokens

What the scan program of the arithmetic language comes to is told by the bytes alone: from every
offset it skips what is blank and then accepts the lexeme that stands there, if one does
(`Arithmetic.exists_outcome`). Hence the parser scans at every offset the token that
`Arithmetic.Scanned` describes (`Arithmetic.Stands.scanToken`).
-/

namespace Reparse

namespace Scanner

variable {text : Text} {offset further : Nat} {scanner reached : Scanner}

/-- The scanner has accepted a token from `start` up to where it stands. -/
structure Accepts (text : Text) (start symbol stop : Nat) (scanner : Scanner) : Prop
    extends Reads text stop scanner where
  tokenStart_eq : scanner.tokenStart = text.place start
  tokenStop_eq : scanner.tokenStop = some (text.place stop)
  symbol_eq : scanner.symbol = symbol

theorem Scans.accept {start : Nat} (scans : scanner.Scans text start offset) (symbol : Nat) :
    (scanner.accept symbol).Accepts text start symbol offset := by
  have again : ({ scanner with symbol } : Scanner).Scans text start offset :=
    ⟨scans.toReads.of_samePlace ⟨rfl, rfl, rfl, rfl, rfl⟩ rfl, scans.tokenStart_eq,
      scans.tokenStop_eq⟩
  rcases again.markEnd with ⟨reads, start, stop⟩
  exact ⟨reads, start, stop, rfl⟩

end Scanner

namespace Arithmetic

open Utf8 (next? Decoded)

variable {text : Text} {start offset : Nat} {scanner : Scanner}

/-! ## Loops -/

theorem run_loopBlock (member : Char → Bool → Bool) (label symbol : Nat) :
    (loopBlock member label symbol).run scanner =
      if member scanner.lookahead scanner.atEnd then (.jumped label, scanner.advance false)
      else (.stopped true, scanner.accept symbol) := by
  simp only [loopBlock, Block.run]
  split <;> rfl

/-- The characters that a loop of the program passes are those made of bytes that go on with the
token. -/
structure Passes (member : Char → Bool → Bool) (symbol : Nat) : Prop where
  plain : ∀ byte < 0x80, member (asChar byte) false = continues symbol byte
  foreign : ∀ char byte, Utf8.Foreign char → 0x80 ≤ byte →
    member char false = continues symbol byte
  ended : member '\x00' true = false

/-- All bytes of a character go on with the token, or none of them does. -/
theorem Passes.alike {member : Char → Bool → Bool} {symbol : Nat} (passes : Passes member symbol)
    {decoded : Decoded} (read : next? text offset = some decoded) :
    ∀ index < decoded.size, ∃ byte, text[offset + index]? = some byte ∧
      continues symbol byte = member decoded.char false := by
  intro index inside
  rcases Utf8.next_spec read with ⟨_, _, ⟨byte, found, ascii, rfl⟩ | ⟨other, bytes⟩⟩
  · obtain rfl : index = 0 := by
      change index < 1 at inside
      omega
    exact ⟨byte, found, (passes.plain byte ascii).symm⟩
  · rcases bytes index inside with ⟨byte, found, high⟩
    exact ⟨byte, found, (passes.foreign _ _ other high).symm⟩

/-- What a loop of the program comes to: it reaches the end of a run and accepts the token there. -/
def Accepted (text : Text) (start symbol offset label : Nat) (scanner : Scanner) : Prop :=
  ∃ stop reached, Run text symbol offset stop ∧
    program.runFrom label scanner = some (true, reached) ∧
    reached.Accepts text start symbol stop

/-- A loop that refuses the character it is at accepts the token there. -/
theorem accepted_of_refused {label symbol : Nat} (scans : scanner.Scans text start offset)
    (refused : (program label).run scanner = (.stopped true, scanner.accept symbol))
    (final : ∀ byte, text[offset]? = some byte → continues symbol byte = false) :
    Accepted text start symbol offset label scanner :=
  ⟨offset, _, .empty final, ScanProgram.runFrom_of_stopped refused, scans.accept symbol⟩

theorem Passes.accepted {member : Char → Bool → Bool} {label symbol : Nat}
    (passes : Passes member symbol) (block : program label = loopBlock member label symbol)
    (short : text.size < maxOffset) (scans : scanner.Scans text start offset) :
    Accepted text start symbol offset label scanner := by
  induction left : text.size - offset using Nat.strongRecOn generalizing offset scanner with
  | ind left ih =>
      have step := @run_loopBlock scanner member label symbol
      rw [scans.lookahead, scans.atEnd, ← block] at step
      cases read : next? text offset with
      | none =>
          simp only [read, Option.map_none, Option.getD_none, Option.isNone_none, passes.ended,
            Bool.false_eq_true, if_false] at step
          apply accepted_of_refused scans step
          intro byte found
          rw [Array.getElem?_eq_none (Utf8.next_eq_none_iff.mp read)] at found
          cases found
      | some decoded =>
          simp only [read, Option.map_some, Option.getD_some, Option.isNone_some] at step
          have alike := passes.alike read
          rcases Utf8.next_spec read with ⟨positive, within, _⟩
          by_cases goes : member decoded.char false = true
          · rw [if_pos goes] at step
            rw [goes] at alike
            have next := scans.advance short read
            have further := scans.toReads.remaining_lt next.toReads (by simp [read]) (by omega)
            rcases ih _ (by omega) next rfl with ⟨stop, reached, run, ran, accepts⟩
            refine ⟨stop, reached, run.sooner alike, ?_, accepts⟩
            rw [ScanProgram.runFrom_of_jumped step further]
            exact ran
          · rw [if_neg goes] at step
            apply accepted_of_refused scans step
            intro byte found
            rcases alike 0 positive with ⟨first, there, same⟩
            rw [Nat.add_zero, found, Option.some.injEq] at there
            subst there
            simpa [same] using goes

theorem passes_digits : Passes (fun char _ => isDigit char) number where
  plain _ _ := rfl
  foreign char byte foreign high := by
    have other : isDigit (asChar byte) = false := isDigit_of_foreign (Utf8.foreign_ofNat high)
    simp only [isDigit_of_foreign foreign, continues, if_true, other]
  ended := rfl

theorem passes_wordParts : Passes (fun char _ => isWordPart char) variableName where
  plain _ _ := rfl
  foreign char byte foreign high := by
    have other : isWordPart (asChar byte) = false :=
      isWordPart_of_foreign (Utf8.foreign_ofNat high)
    simp only [isWordPart_of_foreign foreign, continues, variableName, number, Nat.reduceEqDiff,
      if_false, if_true, other]
  ended := rfl

theorem passes_line : Passes (fun char atEnd => !atEnd && char != '\n') comment where
  plain := by
    have checked : ∀ value < 128, (!false && asChar (UInt8.ofNat value) != '\n') =
        continues comment (UInt8.ofNat value) := by decide +kernel
    intro byte ascii
    have here := checked byte.toNat ascii
    rw [UInt8.ofNat_toNat] at here
    exact here
  foreign char byte foreign high := by
    have line : (char != '\n') = true := by
      simpa using ne_of_foreign foreign '\n' (by decide) (by decide)
    have other : (byte != 10) = true := by
      rw [bne_iff_ne]
      rintro rfl
      exact absurd high (by decide)
    simp only [continues, comment, variableName, number, Nat.reduceEqDiff, if_false, if_true, line,
      other, Bool.not_false, Bool.and_self]
  ended := rfl

theorem accepted_numberLoop (short : text.size < maxOffset)
    (scans : scanner.Scans text start offset) :
    Accepted text start number offset numberLoop scanner :=
  passes_digits.accepted rfl short scans

theorem accepted_wordLoop (short : text.size < maxOffset)
    (scans : scanner.Scans text start offset) :
    Accepted text start variableName offset wordLoop scanner :=
  passes_wordParts.accepted rfl short scans

theorem accepted_commentLoop (short : text.size < maxOffset)
    (scans : scanner.Scans text start offset) :
    Accepted text start comment offset commentLoop scanner :=
  passes_line.accepted rfl short scans

/-! ## One scan -/

/-- What a scan comes to that has skipped everything up to `start`. -/
inductive Outcome (text : Text) (start : Nat) : Bool → Scanner → Prop where
  | found {symbol stop : Nat} {reached : Scanner} (lexeme : Lexeme text start symbol stop)
      (accepts : reached.Accepts text start symbol stop) : Outcome text start true reached
  | ended {reached : Scanner} (ended : next? text start = none)
      (scans : reached.Scans text start start) : Outcome text start false reached
  | unknown {stop : Nat} {reached : Scanner} {decoded : Decoded}
      (read : next? text start = some decoded)
      (unknown : ∀ symbol stop, ¬Lexeme text start symbol stop)
      (scans : reached.Scans text start stop) (differs : reached.atEnd = true → stop ≠ start) :
      Outcome text start false reached

/-- The block for the rest of a token whose first character is known. -/
def restBlock (symbol : Nat) : Block :=
  if symbol = number then .advance false (.jump numberLoop)
  else if symbol = variableName then .advance false (.jump wordLoop)
  else if symbol = comment then
    .advance false <| .look fun next _ =>
      if next = '/' then .advance false (.jump commentLoop) else .stop false
  else single symbol

theorem tokenBlock_eq (char : Char) :
    tokenBlock char = match begins char with
      | none => .stop false
      | some symbol => restBlock symbol := by
  unfold tokenBlock begins
  split
  · rfl
  split
  · rfl
  split
  · rfl
  split
  · rfl
  split
  · rfl
  split <;> rfl

/-- A character that begins a token is a byte. -/
theorem byte_of_begins {decoded : Decoded} {symbol : Nat}
    (read : next? text offset = some decoded) (begun : begins decoded.char = some symbol) :
    decoded.size = 1 ∧
      ∃ byte, text[offset]? = some byte ∧ begins (asChar byte) = some symbol := by
  rcases Utf8.next_spec read with ⟨_, _, ⟨byte, found, _, rfl⟩ | ⟨foreign, _⟩⟩
  · exact ⟨rfl, byte, found, begun⟩
  · rw [begins_of_foreign foreign] at begun
    cases begun

/-- The scanner sees a slash where the text has one. -/
theorem lookahead_eq_slash (reads : scanner.Reads text offset) :
    scanner.lookahead = '/' ↔ text[offset]? = some 47 := by
  rw [reads.lookahead]
  constructor
  · intro seen
    cases read : next? text offset with
    | none =>
        rw [read] at seen
        exact absurd seen (by decide)
    | some decoded =>
        simp only [read, Option.map_some, Option.getD_some] at seen
        rcases Utf8.next_spec read with ⟨_, _, ⟨byte, found, ascii, rfl⟩ | ⟨foreign, _⟩⟩
        · have small : byte.toNat < 0x80 := ascii
          have value := congrArg Char.toNat seen
          dsimp only at value
          rw [Utf8.toNat_ofNat_of_small small] at value
          rw [found, Option.some.injEq]
          exact UInt8.toNat_inj.mp value
        · exact absurd seen (ne_of_foreign foreign '/' (by decide) (by decide))
  · intro found
    rw [Utf8.next_of_ascii found (by decide)]
    rfl

section Begun

variable {symbol : Nat}

/-- The first character of a token has been read, and what the scan does with the rest is known. -/
structure BegunWith (text : Text) (start symbol : Nat) (scanner : Scanner) : Prop where
  begun : ∃ byte, text[start]? = some byte ∧ begins (asChar byte) = some symbol
  run_eq : (program 0).run scanner = (restBlock symbol).run scanner
  next : (scanner.advance false).Scans text start (start + 1)
  further : (scanner.advance false).remaining < scanner.remaining

/-- A number or a word goes on as far as the loop behind its first character reads. -/
theorem BegunWith.outcome_of_loop {loop : Nat} (begun : BegunWith text start symbol scanner)
    (other : symbol ≠ comment) (block : restBlock symbol = .advance false (.jump loop))
    (read : Accepted text start symbol (start + 1) loop (scanner.advance false)) :
    ∃ found reached, program.runFrom 0 scanner = some (found, reached) ∧
      Outcome text start found reached := by
  rcases read with ⟨stop, reached, run, ran, accepts⟩
  have jumped := begun.run_eq
  rw [block] at jumped
  have one : opening symbol = 1 := if_neg other
  have lexeme : Lexeme text start symbol stop :=
    ⟨begun.begun, fun same => absurd same other, one.symm ▸ run⟩
  refine ⟨true, reached, ?_, .found lexeme accepts⟩
  rw [ScanProgram.runFrom_of_jumped jumped begun.further]
  exact ran

/-- A comment needs a second slash and goes on to the end of the line. -/
theorem BegunWith.outcome_of_comment (short : text.size < maxOffset) {decoded : Decoded}
    (read : next? text start = some decoded) (begun : BegunWith text start comment scanner) :
    ∃ found reached, program.runFrom 0 scanner = some (found, reached) ∧
      Outcome text start found reached := by
  have first := begun.run_eq
  have sees := lookahead_eq_slash begun.next.toReads
  by_cases second : text[start + 1]? = some 47
  · have nextSlash := Utf8.next_of_ascii second (by decide)
    have after := begun.next.advance short nextSlash
    rcases accepted_commentLoop short after with ⟨stop, reached, run, ran, accepts⟩
    refine ⟨true, reached, ?_, .found ⟨begun.begun, fun _ => second, run⟩ accepts⟩
    have jumped : (program 0).run scanner =
        (.jumped commentLoop, (scanner.advance false).advance false) := by
      rw [first]
      simp [restBlock, comment, number, variableName, Block.run, sees.mpr second]
    have last := begun.next.toReads.remaining_lt after.toReads (by simp [nextSlash]) (by simp)
    rw [ScanProgram.runFrom_of_jumped jumped (Nat.lt_trans last begun.further)]
    exact ran
  · have stopped : (program 0).run scanner = (.stopped false, scanner.advance false) := by
      rw [first]
      simp [restBlock, comment, number, variableName, Block.run, mt sees.mp second]
    refine ⟨false, _, ScanProgram.runFrom_of_stopped stopped,
      .unknown read (fun symbol stop lexeme => ?_) begun.next (fun _ => by omega)⟩
    have same : symbol = comment := by
      rcases lexeme.begun with ⟨other, there, begunOther⟩
      rcases begun.begun with ⟨byte, found, begunByte⟩
      rw [found, Option.some.injEq] at there
      rw [← there, begunByte, Option.some.injEq] at begunOther
      exact begunOther.symm
    exact second (lexeme.twice same)

/-- Of any other token the first character is all. -/
theorem BegunWith.outcome_of_single (begun : BegunWith text start symbol scanner)
    (isNumber : symbol ≠ number) (isVariable : symbol ≠ variableName)
    (isComment : symbol ≠ comment) :
    ∃ found reached, program.runFrom 0 scanner = some (found, reached) ∧
      Outcome text start found reached := by
  have accepted : (program 0).run scanner =
      (.stopped true, (scanner.advance false).accept symbol) := by
    rw [begun.run_eq]
    simp [restBlock, isNumber, isVariable, isComment, single, Block.run]
  have one : opening symbol = 1 := if_neg isComment
  have run : Run text symbol (start + 1) (start + 1) :=
    .empty fun other _ => by simp [continues, isNumber, isVariable, isComment]
  exact ⟨true, _, ScanProgram.runFrom_of_stopped accepted,
    .found ⟨begun.begun, fun same => absurd same isComment, one.symm ▸ run⟩
      (begun.next.accept symbol)⟩

end Begun

/-- The scan at a character that is not blank. -/
theorem exists_outcome_of_solid {decoded : Decoded} (short : text.size < maxOffset)
    (scans : scanner.Scans text start start) (read : next? text start = some decoded)
    (solid : isBlank decoded.char = false) :
    ∃ found reached, program.runFrom 0 scanner = some (found, reached) ∧
      Outcome text start found reached := by
  have within : scanner.atEnd = false := by simp [scans.atEnd, read]
  have first : (program 0).run scanner = (tokenBlock decoded.char).run scanner := by
    simp [program, Block.run, within, scans.lookahead, read, solid]
  rw [tokenBlock_eq] at first
  cases found : begins decoded.char with
  | none =>
      rw [found] at first
      refine ⟨false, scanner, ScanProgram.runFrom_of_stopped first, ?_⟩
      refine .unknown read (fun symbol stop lexeme => ?_) scans (by simp [within])
      rcases lexeme.next with ⟨again, readAgain, begunAgain⟩
      rw [read, Option.some.injEq] at readAgain
      rw [← readAgain, found] at begunAgain
      cases begunAgain
  | some symbol =>
      rw [found] at first
      rcases byte_of_begins read found with ⟨one, byte, here, begunByte⟩
      have next := scans.advance short read
      rw [one] at next
      have further := scans.toReads.remaining_lt next.toReads (by simp [read]) (by omega)
      have begun : BegunWith text start symbol scanner :=
        ⟨⟨byte, here, begunByte⟩, first, next, further⟩
      by_cases isNumber : symbol = number
      · subst isNumber
        exact begun.outcome_of_loop (by decide) rfl (accepted_numberLoop short next)
      by_cases isVariable : symbol = variableName
      · subst isVariable
        exact begun.outcome_of_loop (by decide) rfl (accepted_wordLoop short next)
      by_cases isComment : symbol = comment
      · subst isComment
        exact begun.outcome_of_comment short read
      · exact begun.outcome_of_single isNumber isVariable isComment

/-- The scan of a token skips what is blank and finds what stands behind it. -/
theorem exists_outcome (short : text.size < maxOffset) (scans : scanner.Scans text offset offset) :
    ∃ start found reached, Skips text offset start ∧
      program.runFrom 0 scanner = some (found, reached) ∧ Outcome text start found reached := by
  induction left : text.size - offset using Nat.strongRecOn generalizing offset scanner with
  | ind left ih =>
      cases read : next? text offset with
      | none =>
          have stopped : (program 0).run scanner = (.stopped false, scanner) := by
            simp [program, Block.run, scans.atEnd, read]
          refine ⟨offset, false, scanner, .done ?_, ScanProgram.runFrom_of_stopped stopped,
            .ended read scans⟩
          intro decoded there
          rw [read] at there
          cases there
      | some decoded =>
          cases solid : isBlank decoded.char with
          | false =>
              rcases exists_outcome_of_solid short scans read solid with
                ⟨found, reached, ran, outcome⟩
              refine ⟨offset, found, reached, .done ?_, ran, outcome⟩
              intro other there
              rw [read, Option.some.injEq] at there
              rw [← there]
              exact solid
          | true =>
              rcases Utf8.next_spec read with ⟨positive, within, _⟩
              have jumped : (program 0).run scanner = (.jumped 0, scanner.advance true) := by
                simp [program, Block.run, scans.atEnd, scans.lookahead, read, solid]
              have next := scans.skip short read
              have further := scans.toReads.remaining_lt next.toReads (by simp [read]) (by omega)
              rcases ih _ (by omega) next rfl with ⟨start, found, reached, skips, ran, outcome⟩
              refine ⟨start, found, reached, .blank read solid skips, ?_, outcome⟩
              rw [ScanProgram.runFrom_of_jumped jumped further]
              exact ran

/-! ## Symbols -/

section AcceptsOnly

variable {allowed : Nat → Prop} (own : ∀ symbol ≤ comment, allowed symbol)

include own

theorem acceptsOnly_single {symbol : Nat} (le : symbol ≤ comment) :
    (single symbol).AcceptsOnly allowed := ⟨own symbol le, trivial⟩

theorem acceptsOnly_loopBlock (belongs : Char → Bool → Bool) (label : Nat) {symbol : Nat}
    (le : symbol ≤ comment) : (loopBlock belongs label symbol).AcceptsOnly allowed := by
  intro char atEnd
  exact .ite trivial ⟨own symbol le, trivial⟩

theorem acceptsOnly_tokenBlock (char : Char) : (tokenBlock char).AcceptsOnly allowed := by
  refine .ite (acceptsOnly_single own (by decide)) (.ite (acceptsOnly_single own (by decide))
    (.ite (acceptsOnly_single own (by decide)) (.ite trivial (.ite trivial (.ite ?_ trivial)))))
  intro next atEnd
  exact .ite trivial trivial

/-- The scan program accepts the symbols of tokens only. -/
theorem acceptsOnly_program (label : Nat) : (program label).AcceptsOnly allowed := by
  match label with
  | 0 =>
      intro char atEnd
      exact .ite trivial (.ite trivial (acceptsOnly_tokenBlock own char))
  | 1 => exact acceptsOnly_loopBlock own _ _ (by decide)
  | 2 => exact acceptsOnly_loopBlock own _ _ (by decide)
  | _ + 3 => exact acceptsOnly_loopBlock own _ _ (by decide)

end AcceptsOnly

end Arithmetic

end Reparse
