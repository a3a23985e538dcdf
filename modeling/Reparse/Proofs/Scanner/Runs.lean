import Reparse.Scanner.Program

/-!
# Runs of scan programs

A scan program goes from block to block (`ScanProgram.runFrom_of_jumped`) until one stops
(`ScanProgram.runFrom_of_stopped`). On its way it only advances the scanner, ends the token and
names it, so what these three keep is kept by the scan of a token, whatever the program is
(`Scanner.Stable`). The symbol of the token is always one that the program has accepted, or the one
that a token begins with (`Block.AcceptsOnly`).

A token begins with the marks of the last one taken away (`Scanner.fresh`) and the character at the
position read (`Scanner.primed`), behind the byte order mark if it stands there
(`Scanner.start_eq`). It is finished with an end (`Scanner.closed`) that it does not begin behind
(`Scanner.finish_spec`). Nothing of that moves the scanner (`Scanner.SamePlace`).
-/

namespace Reparse

namespace ScanProgram

variable {program : ScanProgram} {label : Nat} {scanner reached : Scanner}

theorem runFrom_of_stopped {found : Bool}
    (stopped : (program label).run scanner = (.stopped found, reached)) :
    program.runFrom label scanner = some (found, reached) := by
  rw [runFrom, stopped]

theorem runFrom_of_jumped {next : Nat}
    (jumped : (program label).run scanner = (.jumped next, reached))
    (further : reached.remaining < scanner.remaining) :
    program.runFrom label scanner = program.runFrom next reached := by
  rw [runFrom, jumped]
  exact if_pos further

end ScanProgram

namespace Scanner

/-- What a scan program can do to a scanner keeps the property. -/
structure Stable (invariant : Scanner → Prop) : Prop where
  advance {scanner : Scanner} (skip : Bool) (holds : invariant scanner) :
    invariant (scanner.advance skip)
  markEnd {scanner : Scanner} (holds : invariant scanner) : invariant scanner.markEnd
  accept {scanner : Scanner} (symbol : Nat) (holds : invariant scanner) :
    invariant (scanner.accept symbol)

namespace Stable

variable {invariant : Scanner → Prop} {scanner reached : Scanner}

theorem run (stable : Stable invariant) {block : Block} (holds : invariant scanner) :
    invariant (block.run scanner).2 := by
  induction block generalizing scanner with
  | stop found => exact holds
  | jump label => exact holds
  | look next ih => exact ih _ _ holds
  | column next ih => exact ih _ holds
  | atSpanStart next ih => exact ih _ holds
  | advance skip next ih => exact ih (stable.advance skip holds)
  | markEnd next ih => exact ih (stable.markEnd holds)
  | accept symbol next ih => exact ih (stable.accept symbol holds)

theorem runFrom (stable : Stable invariant) {program : ScanProgram} {label : Nat} {found : Bool}
    (holds : invariant scanner) (run : program.runFrom label scanner = some (found, reached)) :
    invariant reached := by
  induction label, scanner using ScanProgram.runFrom.induct program with
  | case1 label scanner found last stopped =>
      rw [ScanProgram.runFrom, stopped] at run
      cases run
      have kept := @Stable.run invariant scanner stable (program label) holds
      rwa [stopped] at kept
  | case2 label scanner next further jumped onward ih =>
      rw [ScanProgram.runFrom, jumped] at run
      dsimp only at run
      rw [if_pos onward] at run
      have kept := @Stable.run invariant scanner stable (program label) holds
      rw [jumped] at kept
      exact ih kept run
  | case3 label scanner next further jumped still =>
      rw [ScanProgram.runFrom, jumped] at run
      dsimp only at run
      rw [if_neg still] at run
      cases run

end Stable

variable {scanner : Scanner}

/-! ## The place of a scanner -/

/-- Two scanners stand in the same place of the same text. -/
structure SamePlace (scanner other : Scanner) : Prop where
  text_eq : other.text = scanner.text
  spans_eq : other.spans = scanner.spans
  position_eq : other.position = scanner.position
  previous_eq : other.previous = scanner.previous
  ahead_eq : other.ahead = scanner.ahead

theorem samePlace_report (scanner : Scanner) (notice : Notice) :
    scanner.SamePlace (scanner.report notice) := ⟨rfl, rfl, rfl, rfl, rfl⟩

theorem samePlace_markEnd (scanner : Scanner) : scanner.SamePlace scanner.markEnd :=
  ⟨rfl, rfl, rfl, rfl, rfl⟩

theorem samePlace_accept (scanner : Scanner) (symbol : Nat) :
    scanner.SamePlace (scanner.accept symbol) := ⟨rfl, rfl, rfl, rfl, rfl⟩

/-! ## Beginning a token -/

/-- The scanner after it has read the character at its position. -/
def primed (scanner : Scanner) : Scanner :=
  if scanner.atEnd || scanner.loaded.isSome then scanner else scanner.load

/-- The scanner without the marks of a token. -/
def fresh (scanner : Scanner) : Scanner :=
  { scanner with tokenStart := scanner.position, tokenStop := none, symbol := 0 }

theorem samePlace_fresh (scanner : Scanner) : scanner.SamePlace scanner.fresh :=
  ⟨rfl, rfl, rfl, rfl, rfl⟩

theorem position_primed (scanner : Scanner) : scanner.primed.position = scanner.position := by
  unfold primed Scanner.load
  repeat' split
  all_goals rfl

theorem tokenStart_primed (scanner : Scanner) : scanner.primed.tokenStart = scanner.tokenStart := by
  unfold primed Scanner.load
  repeat' split
  all_goals rfl

theorem tokenStop_primed (scanner : Scanner) : scanner.primed.tokenStop = scanner.tokenStop := by
  unfold primed Scanner.load
  repeat' split
  all_goals rfl

theorem atEnd_eq_true : scanner.atEnd = true ↔ scanner.ahead = [] := List.isEmpty_iff

theorem atEnd_eq_false : scanner.atEnd = false ↔ scanner.ahead ≠ [] := by
  rw [Ne, ← atEnd_eq_true, Bool.not_eq_true]

theorem lookahead_of_unloaded (unloaded : scanner.loaded = none) : scanner.lookahead = '\x00' := by
  rw [lookahead, unloaded]

theorem primed_of_ended (ended : scanner.ahead = []) : scanner.primed = scanner := by
  rw [primed, atEnd_eq_true.mpr ended]
  rfl

theorem start_of_ended (ended : scanner.ahead = []) : scanner.start = scanner.fresh := by
  have within : scanner.fresh.atEnd = true := atEnd_eq_true.mpr ended
  exact if_pos within

/-- A token begins with what is read at the position, or behind the mark that stands there. -/
theorem start_eq (unloaded : scanner.ahead = [] → scanner.loaded = none) :
    scanner.start =
      if scanner.fresh.primed.position.bytes = 0 ∧
        scanner.fresh.primed.lookahead = byteOrderMark then scanner.fresh.primed.step true
      else scanner.fresh.primed := by
  by_cases ended : scanner.ahead = []
  · have still : scanner.fresh.primed = scanner.fresh := primed_of_ended ended
    have shows := @lookahead_of_unloaded scanner.fresh (unloaded ended)
    have other : scanner.fresh.lookahead ≠ byteOrderMark := by
      rw [shows]
      decide
    rw [start_of_ended ended, still, if_neg fun mark => other mark.2]
  · have more : scanner.fresh.atEnd = false := atEnd_eq_false.mpr ended
    have unfolded : scanner.start = if scanner.fresh.atEnd then scanner.fresh else
        let ready := if scanner.fresh.loaded.isNone then scanner.fresh.load else scanner.fresh
        if ready.position.bytes = 0 ∧ ready.lookahead = byteOrderMark then ready.step true
        else ready := rfl
    rw [unfolded, more, primed, more]
    cases scanner.fresh.loaded <;> rfl

theorem skipToEnd_eq (scanner : Scanner) : scanner.skipToEnd = scanner.primed.runToEnd := by
  rw [skipToEnd, primed, apply_ite runToEnd]

/-- What holds of a scanner whose marks were taken away, and is kept by reading and by a step, holds
when a token is begun. -/
theorem start_induction {invariant : Scanner → Prop} (fresh : invariant scanner.fresh)
    (load : ∀ between : Scanner, invariant between → invariant between.load)
    (step : ∀ between : Scanner, invariant between → invariant (between.step true)) :
    invariant scanner.start := by
  unfold Scanner.start
  dsimp only
  split
  · exact fresh
  · split
    · split
      · exact step _ (load _ fresh)
      · exact load _ fresh
    · split
      · exact step _ fresh
      · exact fresh

/-! ## Ending a token -/

/-- The scanner with an end of its token, which is where it stands unless that was said. -/
def closed (scanner : Scanner) : Scanner :=
  if scanner.tokenStop.isNone then scanner.markEnd else scanner

theorem closed_spec (scanner : Scanner) :
    scanner.SamePlace scanner.closed ∧ scanner.closed.loaded = scanner.loaded ∧
      scanner.closed.tokenEnd = scanner.tokenStop.getD scanner.tokenBoundary ∧
      scanner.closed.tokenStart = scanner.tokenStart ∧ scanner.closed.symbol = scanner.symbol := by
  unfold closed
  cases stop : scanner.tokenStop with
  | none => exact ⟨samePlace_markEnd scanner, rfl, rfl, rfl, rfl⟩
  | some place => exact ⟨⟨rfl, rfl, rfl, rfl, rfl⟩, rfl, by simp [tokenEnd, stop], rfl, rfl⟩

theorem fst_finish (scanner : Scanner) :
    scanner.finish.1 =
      if scanner.closed.tokenEnd.bytes < scanner.closed.tokenStart.bytes then
        { scanner.closed with tokenStart := scanner.closed.tokenEnd }
      else scanner.closed := rfl

theorem samePlace_finish (scanner : Scanner) : scanner.SamePlace scanner.finish.1 := by
  rcases scanner.closed_spec with ⟨⟨sees, spans, position, previous, ahead⟩, _⟩
  rw [fst_finish]
  split <;> exact ⟨sees, spans, position, previous, ahead⟩

theorem loaded_finish (scanner : Scanner) : scanner.finish.1.loaded = scanner.loaded := by
  rw [fst_finish]
  split <;> exact scanner.closed_spec.2.1

/-- A finished token ends where that was said, and does not begin behind its end. -/
theorem finish_spec (scanner : Scanner) :
    scanner.finish.1.tokenEnd = scanner.tokenStop.getD scanner.tokenBoundary ∧
      (scanner.finish.1.tokenStart = scanner.tokenStart ∨
        scanner.finish.1.tokenStart = scanner.finish.1.tokenEnd) ∧
      scanner.finish.1.tokenStart.bytes ≤ scanner.finish.1.tokenEnd.bytes ∧
      scanner.finish.1.symbol = scanner.symbol := by
  rcases scanner.closed_spec with ⟨_, _, stop, start, symbol⟩
  rw [fst_finish]
  split
  · exact ⟨stop, Or.inr rfl, Nat.le_refl _, symbol⟩
  · exact ⟨stop, Or.inl start, by omega, symbol⟩

/-! ## The symbol of a token -/

theorem symbol_finish (scanner : Scanner) : scanner.finish.1.symbol = scanner.symbol :=
  scanner.finish_spec.2.2.2

theorem symbol_load (scanner : Scanner) : scanner.load.symbol = scanner.symbol := by
  unfold Scanner.load
  split <;> rfl

theorem symbol_step (scanner : Scanner) (skip : Bool) :
    (scanner.step skip).symbol = scanner.symbol := by
  unfold Scanner.step
  dsimp only
  rw [apply_ite Scanner.symbol, Scanner.symbol_load, ite_self]

theorem symbol_primed (scanner : Scanner) : scanner.primed.symbol = scanner.symbol := by
  unfold primed
  split
  · rfl
  · exact symbol_load scanner

theorem symbol_advance (scanner : Scanner) (skip : Bool) :
    (scanner.advance skip).symbol = scanner.symbol := by
  unfold Scanner.advance
  split
  · rfl
  · exact Scanner.symbol_step _ skip

theorem symbol_start (scanner : Scanner) : scanner.start.symbol = 0 := by
  apply @start_induction scanner fun begun => begun.symbol = 0
  · rfl
  · intro between named
    rwa [symbol_load]
  · intro between named
    rwa [symbol_step]

end Scanner

/-- The block accepts tokens with allowed symbols only. -/
def Block.AcceptsOnly (allowed : Nat → Prop) : Block → Prop
  | .stop _ => True
  | .jump _ => True
  | .look next => ∀ char atEnd, (next char atEnd).AcceptsOnly allowed
  | .column next => ∀ column, (next column).AcceptsOnly allowed
  | .atSpanStart next => ∀ atStart, (next atStart).AcceptsOnly allowed
  | .advance _ next => next.AcceptsOnly allowed
  | .markEnd next => next.AcceptsOnly allowed
  | .accept symbol next => allowed symbol ∧ next.AcceptsOnly allowed

section AcceptsOnly

variable {allowed : Nat → Prop} {scanner reached : Scanner}

theorem Block.AcceptsOnly.ite {condition : Prop} [Decidable condition] {positive negative : Block}
    (left : positive.AcceptsOnly allowed) (right : negative.AcceptsOnly allowed) :
    (if condition then positive else negative).AcceptsOnly allowed := by
  split
  · exact left
  · exact right

theorem Block.AcceptsOnly.symbol_run {block : Block} (accepts : block.AcceptsOnly allowed)
    (given : allowed scanner.symbol) : allowed (block.run scanner).2.symbol := by
  induction block generalizing scanner with
  | stop found => exact given
  | jump label => exact given
  | look next ih => exact ih _ _ (accepts _ _) given
  | column next ih => exact ih _ (accepts _) given
  | atSpanStart next ih => exact ih _ (accepts _) given
  | advance skip next ih =>
      apply ih accepts
      rw [Scanner.symbol_advance]
      exact given
  | markEnd next ih => exact @ih scanner.markEnd accepts given
  | accept symbol next ih => exact @ih (scanner.accept symbol) accepts.2 accepts.1

/-- A program that accepts tokens with allowed symbols only comes to an allowed symbol. -/
theorem ScanProgram.symbol_runFrom {program : ScanProgram}
    (accepts : ∀ label, (program label).AcceptsOnly allowed) {label : Nat} {found : Bool}
    (given : allowed scanner.symbol)
    (run : program.runFrom label scanner = some (found, reached)) : allowed reached.symbol := by
  induction label, scanner using ScanProgram.runFrom.induct program with
  | case1 label scanner found last stopped =>
      have kept := (accepts label).symbol_run given
      rw [stopped] at kept
      rw [runFrom_of_stopped stopped] at run
      cases run
      exact kept
  | case2 label scanner next further jumped onward ih =>
      have kept := (accepts label).symbol_run given
      rw [jumped] at kept
      rw [runFrom_of_jumped jumped onward] at run
      exact ih kept run
  | case3 label scanner next further jumped still =>
      rw [ScanProgram.runFrom, jumped] at run
      dsimp only at run
      rw [if_neg still] at run
      cases run

/-- The program never takes a token for one with the given symbol. -/
def ScanProgram.Spares (symbol : Nat) (program : ScanProgram) : Prop :=
  ∀ scanner reached : Scanner, program.run scanner.start = some (true, reached) →
    reached.symbol ≠ symbol

/-- A program that does not accept a symbol spares it, unless tokens begin with it. -/
theorem ScanProgram.spares_of_accepts {program : ScanProgram} {symbol : Nat} (other : 0 ≠ symbol)
    (accepts : ∀ label, (program label).AcceptsOnly (· ≠ symbol)) : program.Spares symbol := by
  intro scanner reached run
  apply ScanProgram.symbol_runFrom accepts ?_ run
  rw [Scanner.symbol_start]
  exact other

end AcceptsOnly

end Reparse
