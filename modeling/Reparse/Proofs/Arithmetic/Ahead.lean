import Reparse.Proofs.Arithmetic.Scan
import Reparse.Proofs.Parse.Interface

/-!
# What lies ahead of a parse

A parse of a whole text in the arithmetic language without a limit stands at an offset: everything
before it is consumed, and the token that was scanned ahead, if there is one, is the token there
(`Arithmetic.Stands`). From such a state one scan gives the token at the offset, and looking ahead
consumes the extras in front of the next token that is none.
-/

namespace Reparse

namespace Scanner

variable {text : Text} {start stop : Nat} {scanner : Scanner}

/-- A token that is finished ends where it was accepted, or where the scanner stands; its scan
looked past its end. -/
theorem Reads.finish (short : text.size < maxOffset) (reads : scanner.Reads text stop)
    (tokenStart : scanner.tokenStart = text.place start) (le : start ≤ stop)
    (marked : scanner.tokenStop = none ∨ scanner.tokenStop = some (text.place stop)) :
    scanner.finish.1.Accepts text start scanner.symbol stop ∧ stop < scanner.finish.2 := by
  have inside := reads.inside
  let ended : Scanner := if scanner.tokenStop.isNone then scanner.markEnd else scanner
  have accepts : ended.Accepts text start scanner.symbol stop := by
    rcases marked with none | some
    · have scans : scanner.Scans text start stop := ⟨reads, tokenStart, none⟩
      rcases scans.markEnd with ⟨after, begins, stops⟩
      have same : ended = scanner.markEnd := by simp [ended, none]
      rw [same]
      exact ⟨after, begins, stops, rfl⟩
    · have same : ended = scanner := by simp [ended, some]
      rw [same]
      exact ⟨reads, tokenStart, some, rfl⟩
  have forward : ¬ended.tokenEnd.bytes < ended.tokenStart.bytes := by
    rw [tokenEnd, accepts.tokenStop_eq, accepts.tokenStart_eq, Option.getD_some, Text.bytes_place,
      Text.bytes_place]
    omega
  let seen := min (ended.position.bytes + 1) maxOffset
  have result : scanner.finish =
      (ended, if ended.malformed then min (seen + 4) maxOffset else seen) := by
    change (let after : Scanner := if ended.tokenEnd.bytes < ended.tokenStart.bytes then
        { ended with tokenStart := ended.tokenEnd } else ended
      (after, if after.malformed then min (min (after.position.bytes + 1) maxOffset + 4) maxOffset
        else min (after.position.bytes + 1) maxOffset)) = _
    rw [if_neg forward]
  rw [result]
  refine ⟨accepts, ?_⟩
  dsimp only [seen]
  rw [accepts.bytes_position]
  split <;> omega

end Scanner

namespace Arithmetic

open Utf8 (next? Decoded)

variable {text : Text} {older ahead : Option Tree} {offset : Nat} {record : List Event}
  {context : Context}

/-- A parse of a whole text stands at an offset, with a token scanned ahead or none, and has
recorded some events. -/
structure Stands (text : Text) (older : Option Tree) (offset : Nat) (ahead : Option Tree)
    (record : List Event) (context : Context) : Prop where
  vocabulary_eq : context.vocabulary = vocabulary
  program_eq : context.program = program
  older_eq : context.older = older
  limit_eq : context.limit = 0
  running : context.isHalted = false
  position_eq : context.position = text.place offset
  inside : offset ≤ text.size
  placed : ∃ place, context.scanner.Placed text place
  lookahead_eq : context.lookahead = ahead
  events_eq : context.events.toList = record
  solid : ∀ token, ahead = some token →
    token.info.extra = false ∧ ∃ stop, Scanned text offset token stop

/-! ## The three kinds of tokens -/

section Kinds

variable {start stop : Nat} {reached : Scanner}

theorem exists_foundToken {symbol : Nat} (short : text.size < maxOffset)
    (leads : Leads text offset start) (lexeme : Lexeme text start symbol stop)
    (accepts : reached.Accepts text start symbol stop) :
    ∃ token ended, Context.foundToken vocabulary reached (text.place offset) = (token, ended) ∧
      Scanned text offset token stop ∧ ended.Placed text stop := by
  have le := Nat.le_of_lt lexeme.lt
  have finished := accepts.toReads.finish short accepts.tokenStart_eq le
    (Or.inr accepts.tokenStop_eq)
  rw [accepts.symbol_eq] at finished
  rcases made : reached.finish with ⟨ended, seen⟩
  rw [made] at finished
  rcases finished with ⟨after, looks⟩
  dsimp only at after looks
  have stops : ended.tokenEnd = text.place stop := by
    rw [Scanner.tokenEnd, after.tokenStop_eq, Option.getD_some]
  refine ⟨_, ended, ?_, .found leads lexeme (Nat.sub_pos_of_lt looks), Or.inl after.toReads⟩
  simp only [Context.foundToken, made, after.symbol_eq, after.tokenStart_eq, stops,
    Text.place_sub leads.le, Text.place_sub le, Text.bytes_place]

theorem exists_endToken (short : text.size < maxOffset) (leads : Leads text offset start)
    (nothing : next? text start = none) (scans : reached.Scans text start start) :
    ∃ token ended,
      Context.endToken vocabulary reached (text.place offset) (text.place start) =
        (token, ended) ∧
      Scanned text offset token start ∧ ended.Placed text start := by
  have finished := scans.toReads.finish short scans.tokenStart_eq (Nat.le_refl _)
    (Or.inl scans.tokenStop_eq)
  rcases made : reached.finish with ⟨ended, seen⟩
  rw [made] at finished
  refine ⟨_, ended, ?_, @Scanned.ended text offset start (seen - start) leads nothing,
    Or.inl finished.1.toReads⟩
  simp only [Context.endToken, made, Text.place_sub leads.le, Text.bytes_place]

/-- The mark that may begin a text is passed over once. -/
theorem entry_of_leads (leads : Leads text offset start) : Scanner.entry text start = start := by
  have first := leads.le
  cases read : next? text start with
  | none => simp [Scanner.entry, read]
  | some decoded =>
      have other : ¬(start = 0 ∧ decoded.char = Scanner.byteOrderMark) := by
        rintro ⟨rfl, mark⟩
        obtain rfl : offset = 0 := Nat.le_zero.mp first
        have further := Skips.le leads
        have positive := (Utf8.next_spec read).1
        simp only [Scanner.entry, read, mark, and_self, if_true] at further
        omega
      simp [Scanner.entry, read, other]

theorem exists_unexpectedToken {decoded : Decoded} (short : text.size < maxOffset)
    (inside : start ≤ text.size) (leads : Leads text offset start)
    (read : next? text start = some decoded)
    (unknown : ∀ symbol stop, ¬Lexeme text start symbol stop) (reads : reached.Reads text stop) :
    ∃ token ended,
      Context.unexpectedToken reached (text.place offset) (text.place start) = (token, ended) ∧
      Scanned text offset token (start + decoded.size) ∧
      ended.Placed text (start + decoded.size) := by
  have placed : reached.Placed text stop := Or.inl reads
  have fresh := (placed.reset short inside).start short
  rw [entry_of_leads leads] at fresh
  generalize restarted : (reached.reset (text.place start)).start = scanner at fresh
  have char : scanner.lookahead = decoded.char := by simp [fresh.lookahead, read]
  have reported : (scanner.report .unrecognized).Scans text start start :=
    ⟨fresh.toReads.report _, fresh.tokenStart_eq, fresh.tokenStop_eq⟩
  rcases (reported.advance short read).markEnd with ⟨marked, begins, stops⟩
  have finished := marked.finish short begins (by omega) (Or.inr stops)
  rcases made : ((scanner.report .unrecognized).advance false).markEnd.finish with ⟨ended, seen⟩
  rw [made] at finished
  have stopped : ended.tokenEnd = text.place (start + decoded.size) := by
    rw [Scanner.tokenEnd, finished.1.tokenStop_eq, Option.getD_some]
  have length : text.place (start + decoded.size) - text.place start =
      text.width start decoded.size := Text.place_difference _ _
  refine ⟨_, ended, ?_, @Scanned.unexpected text offset start (seen - (start + decoded.size))
    decoded leads read unknown, Or.inl finished.1.toReads⟩
  simp only [Context.unexpectedToken, restarted, made, char, stopped, Text.place_sub leads.le,
    length, Text.bytes_place]

end Kinds

/-- Wherever a parse in the arithmetic language stands, one scan gives the token at the offset and
moves the scanner behind it; then it is counted. -/
theorem exists_scanToken (short : text.size < maxOffset)
    (vocabulary_eq : context.vocabulary = vocabulary) (program_eq : context.program = program)
    (position_eq : context.position = text.place offset) (inside : offset ≤ text.size)
    (placed : ∃ place, context.scanner.Placed text place) :
    ∃ token stop scanner, Scanned text offset token stop ∧
      context.scanToken = some (token, ({ context with scanner } : Context).tick) ∧
      scanner.Placed text stop := by
  rcases placed with ⟨place, placed⟩
  have begun := (placed.reset short inside).start short
  rcases exists_outcome short begun with ⟨start, found, reached, leads, ran, outcome⟩
  change Leads text offset start at leads
  have made : ∃ token stop here ended,
      Context.tokenOf context.vocabulary found reached context.position = (token, ended) ∧
      Scanned text offset token stop ∧ ended.Placed text here := by
    rw [vocabulary_eq, position_eq]
    unfold Context.tokenOf
    cases outcome with
    | @found symbol stop _ lexeme accepts =>
        rcases exists_foundToken short leads lexeme accepts with ⟨token, ended, made, scanned, at_⟩
        exact ⟨token, stop, stop, ended, by simpa using made, scanned, at_⟩
    | ended nothing scans =>
        rcases exists_endToken short leads nothing scans with ⟨token, ended, made, scanned, at_⟩
        refine ⟨token, start, start, ended, ?_, scanned, at_⟩
        have atEnd : reached.atEnd = true := by simp [scans.atEnd, nothing]
        simpa [atEnd, scans.tokenStart_eq, scans.position_eq] using made
    | @unknown stop _ decoded read unknown scans differs =>
        rcases exists_unexpectedToken short (leads.inside inside) leads read unknown
          scans.toReads with ⟨token, ended, made, scanned, at_⟩
        refine ⟨token, _, _, ended, ?_, scanned, at_⟩
        have elsewhere : ¬(reached.atEnd = true ∧ stop = start) := by
          rintro ⟨ended, same⟩
          exact differs ended same
        simpa [elsewhere, scans.tokenStart_eq, scans.position_eq] using made
  rcases made with ⟨token, stop, here, ended, made, scanned, at_⟩
  have behind : context.position + token.total = text.place stop := by
    rw [position_eq, scanned.total, Text.place_between scanned.le]
  have scan : context.program.run (context.scanner.reset context.position).start =
      some (found, reached) := by
    rw [program_eq, position_eq]
    exact ran
  let notice := Notice.lexed (context.vocabulary.symbolName token.info.symbol) token.info.size.bytes
  refine ⟨token, stop, (ended.reset (text.place stop)).report notice, scanned, ?_,
    (at_.reset short (scanned.inside inside)).report notice⟩
  rw [Context.scanToken_of_some scan made, behind]
  rfl

/-- One scan gives the token at the offset and moves the scanner behind it. -/
theorem Stands.scanToken (short : text.size < maxOffset)
    (stands : Stands text older offset ahead record context) :
    ∃ token stop scanner operations, Scanned text offset token stop ∧
      context.scanToken = some (token, { context with scanner, operations }) ∧
      scanner.Placed text stop := by
  rcases exists_scanToken short stands.vocabulary_eq stands.program_eq stands.position_eq
    stands.inside stands.placed with ⟨token, stop, scanner, scanned, scan, placed⟩
  refine ⟨token, stop, scanner, context.operations + 1, scanned, ?_, placed⟩
  rw [scan, Context.tick_of_unlimited (by exact stands.limit_eq)]

/-! ## Looking ahead -/

/-- The events that add trees one after the other. -/
def leaves (items : List (Edge Tree)) : List Event :=
  items.map fun edge => .added edge.tree none 0

/-- A token that was consumed lies behind the parse. -/
theorem Stands.consume {token : Tree} {stop : Nat}
    (stands : Stands text older offset none record context)
    (scanned : Scanned text offset token stop) :
    Stands text older stop none (record ++ [.added token none 0]) (context.consume token) := by
  refine ⟨stands.vocabulary_eq, stands.program_eq, stands.older_eq, stands.limit_eq,
    stands.running, ?_, scanned.inside stands.inside, stands.placed, stands.lookahead_eq, ?_, nofun⟩
  · change context.position + token.total = _
    rw [stands.position_eq, scanned.total, Text.place_between scanned.le]
  · change (context.events.push _).toList = _
    rw [Array.toList_push, stands.events_eq]

/-- Filling the lookahead consumes the extras that stand in front of the next other token. -/
theorem Stands.fill {fuel : Nat} (short : text.size < maxOffset)
    (stands : Stands text older offset ahead record context) (enough : text.size < fuel + offset) :
    ∃ comments start token after, context.fill fuel = some after ∧
      Extras text offset comments start ∧
      Stands text older start (some token) (record ++ leaves comments) after := by
  induction fuel generalizing offset ahead record context with
  | zero =>
      have := stands.inside
      omega
  | succ fuel ih =>
      cases present : ahead with
      | some token =>
          subst present
          have done : context.isHalted = true ∨ context.lookahead.isSome = true := by
            simp [stands.lookahead_eq]
          refine ⟨[], offset, token, context, Context.fill_still done, .done, ?_⟩
          rw [leaves, List.map_nil, List.append_nil]
          exact stands
      | none =>
          subst present
          have idle : context.Idle := ⟨stands.running, stands.lookahead_eq⟩
          rcases stands.scanToken short with ⟨token, stop, scanner, operations, scanned, scan, at_⟩
          have next : Stands text older offset none record
              { context with scanner, operations } :=
            ⟨stands.vocabulary_eq, stands.program_eq, stands.older_eq, stands.limit_eq,
              stands.running, stands.position_eq, stands.inside, ⟨stop, at_⟩, stands.lookahead_eq,
              stands.events_eq, by simp⟩
          cases extra : token.info.extra with
          | true =>
              have further := scanned.lt (by rw [scanned.of_extra extra]; decide)
              rcases ih (next.consume scanned) (by omega) with
                ⟨comments, start, other, after, filled, extras, reached⟩
              refine ⟨⟨0, token⟩ :: comments, start, other, after, ?_,
                .more scanned extra extras, ?_⟩
              · exact (Context.fill_extra idle scan stands.running extra).trans filled
              · rw [leaves, List.map_cons, ← List.singleton_append, ← List.append_assoc]
                exact reached
          | false =>
              refine ⟨[], offset, token, _, Context.fill_solid idle scan stands.running extra,
                .done, ?_⟩
              rw [leaves, List.map_nil, List.append_nil]
              refine ⟨next.vocabulary_eq, next.program_eq, next.older_eq, next.limit_eq,
                next.running, next.position_eq, next.inside, next.placed, rfl, next.events_eq, ?_⟩
              intro other same
              cases same
              exact ⟨extra, stop, scanned⟩

end Arithmetic

end Reparse
