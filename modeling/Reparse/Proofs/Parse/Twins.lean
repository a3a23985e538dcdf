import Reparse.Proofs.Parse.Scans
import Reparse.Proofs.Scanner.ByteScan
import Reparse.Proofs.Text.Sight

/-!
# Scanners in lock step

Two scanners of texts that read alike from one place each on are twins while they have come equally
far and have marked the same stretches (`Scanner.Twins`). A plain program leads twins to twins
(`Scanner.Twins.runFrom`), as long as the texts read alike up to where the first one comes to stand: a
scanner never goes back, so it has not asked for anything beyond.
-/

namespace Reparse

namespace Scanner

variable {text other : Text} {place otherPlace step last offset : Nat}
  {scanner reached left right : Scanner}

/-! ## Scanners do not go back -/

theorem Reads.markEnd (reads : scanner.Reads text offset) : scanner.markEnd.Reads text offset :=
  reads.of_samePlace (samePlace_markEnd scanner) rfl

theorem Reads.accept (reads : scanner.Reads text offset) (symbol : Nat) :
    (scanner.accept symbol).Reads text offset :=
  reads.of_samePlace (samePlace_accept scanner symbol) rfl

theorem Reads.advance (short : text.size < maxOffset) (reads : scanner.Reads text offset)
    (skip : Bool) :
    ∃ further, offset ≤ further ∧ (scanner.advance skip).Reads text further := by
  cases read : Utf8.next? text offset with
  | none =>
      have ended : scanner.atEnd = true := by simp [reads.atEnd, read]
      simp only [Scanner.advance, ended, if_true]
      exact ⟨offset, Nat.le_refl _, reads⟩
  | some decoded =>
      have within : scanner.atEnd = false := by simp [reads.atEnd, read]
      simp only [Scanner.advance, within, Bool.false_eq_true, if_false]
      exact ⟨_, Nat.le_add_right _ _, ((reads.report _).step short read skip).1⟩

/-- A scanner that reads at `offset` or behind it keeps doing so. -/
theorem stable_reads (short : text.size < maxOffset) (offset : Nat) :
    Stable fun scanner => ∃ further, offset ≤ further ∧ scanner.Reads text further where
  advance skip holds := by
    rcases holds with ⟨further, ahead, reads⟩
    rcases reads.advance short skip with ⟨beyond, behind, reads⟩
    exact ⟨beyond, Nat.le_trans ahead behind, reads⟩
  markEnd holds := by
    rcases holds with ⟨further, ahead, reads⟩
    exact ⟨further, ahead, reads.markEnd⟩
  accept symbol holds := by
    rcases holds with ⟨further, ahead, reads⟩
    exact ⟨further, ahead, reads.accept symbol⟩

theorem Reads.run (short : text.size < maxOffset) (reads : scanner.Reads text offset)
    (block : Block) : ∃ further, offset ≤ further ∧ (block.run scanner).2.Reads text further :=
  (stable_reads short offset).run ⟨offset, Nat.le_refl _, reads⟩

theorem Reads.offset_unique {further : Nat} (reads : scanner.Reads text offset)
    (again : scanner.Reads text further) : offset = further :=
  reads.bytes_position.symm.trans again.bytes_position

/-- Where a scanner comes to stand no earlier than another one stands. -/
theorem Reads.le_run (short : text.size < maxOffset) (reads : scanner.Reads text offset)
    {block : Block} {final : Nat} (there : (block.run scanner).2.Reads text final) :
    offset ≤ final := by
  rcases reads.run short block with ⟨further, ahead, again⟩
  exact again.offset_unique there ▸ ahead

theorem Reads.le_runFrom (short : text.size < maxOffset) (reads : scanner.Reads text offset)
    {program : ScanProgram} {label : Nat} {found : Bool} {final : Nat}
    (run : program.runFrom label scanner = some (found, reached))
    (there : reached.Reads text final) : offset ≤ final := by
  rcases (stable_reads short offset).runFrom ⟨offset, Nat.le_refl _, reads⟩ run with
    ⟨further, ahead, again⟩
  exact again.offset_unique there ▸ ahead

/-- A scanner has as much to read as another one at the same offset. -/
theorem Reads.remaining_eq (reads : scanner.Reads text offset)
    (again : reached.Reads text offset) : reached.remaining = scanner.remaining := by
  simp only [remaining, reads.text_eq, again.text_eq, reads.bytes_position, again.bytes_position,
    reads.ahead_eq, again.ahead_eq]

/-! ## Twins -/

/-- Two scanners have read `step` bytes from one place each on, and have marked the same stretches
there. -/
structure Twins (text other : Text) (place otherPlace step : Nat) (left right : Scanner) :
    Prop where
  left_reads : left.Reads text (place + step)
  right_reads : right.Reads other (otherPlace + step)
  symbol_eq : right.symbol = left.symbol
  starts : ∃ first ≤ step, left.tokenStart = text.place (place + first) ∧
    right.tokenStart = other.place (otherPlace + first)
  stops : left.tokenStop = none ∧ right.tokenStop = none ∨
    ∃ stop ≤ step, left.tokenStop = some (text.place (place + stop)) ∧
      right.tokenStop = some (other.place (otherPlace + stop))

namespace Twins

theorem lookahead (twins : Twins text other place otherPlace step left right)
    (alike : Utf8.next? other (otherPlace + step) = Utf8.next? text (place + step)) :
    right.lookahead = left.lookahead := by
  rw [twins.left_reads.lookahead, twins.right_reads.lookahead, alike]

theorem atEnd (twins : Twins text other place otherPlace step left right)
    (alike : Utf8.next? other (otherPlace + step) = Utf8.next? text (place + step)) :
    right.atEnd = left.atEnd := by
  rw [twins.left_reads.atEnd, twins.right_reads.atEnd, alike]

theorem advance (short : text.size < maxOffset) (otherShort : other.size < maxOffset)
    (twins : Twins text other place otherPlace step left right)
    (alike : Utf8.next? other (otherPlace + step) = Utf8.next? text (place + step)) (skip : Bool) :
    ∃ further, Twins text other place otherPlace further (left.advance skip)
      (right.advance skip) := by
  have together := twins.atEnd alike
  rcases twins with ⟨leftReads, rightReads, symbol, starts, stops⟩
  have named : (right.advance skip).symbol = (left.advance skip).symbol := by
    rw [symbol_advance, symbol_advance, symbol]
  cases read : Utf8.next? text (place + step) with
  | none =>
      have ended : left.atEnd = true := by simp [leftReads.atEnd, read]
      rw [ended] at together
      simp only [Scanner.advance, ended, together, if_true]
      exact ⟨step, leftReads, rightReads, symbol, starts, stops⟩
  | some decoded =>
      have within : left.atEnd = false := by simp [leftReads.atEnd, read]
      rw [within] at together
      rw [read] at alike
      simp only [Scanner.advance, within, together, Bool.false_eq_true, if_false] at named ⊢
      rcases (leftReads.report (.passed skip left.lookahead)).step short read skip with
        ⟨leftThere, leftStart, leftStop⟩
      rcases (rightReads.report (.passed skip right.lookahead)).step otherShort alike skip with
        ⟨rightThere, rightStart, rightStop⟩
      rw [Nat.add_assoc] at leftThere rightThere leftStart rightStart
      refine ⟨step + decoded.size, leftThere, rightThere, named, ?_, ?_⟩
      · rw [leftStart, rightStart]
        cases skip with
        | true => exact ⟨step + decoded.size, Nat.le_refl _, rfl, rfl⟩
        | false =>
            rcases starts with ⟨first, before, same, otherSame⟩
            exact ⟨first, Nat.le_add_right_of_le before, same, otherSame⟩
      · rw [leftStop, rightStop]
        rcases stops with none | ⟨stop, before, same, otherSame⟩
        · exact Or.inl none
        · exact Or.inr ⟨stop, Nat.le_add_right_of_le before, same, otherSame⟩

theorem markEnd (twins : Twins text other place otherPlace step left right) :
    Twins text other place otherPlace step left.markEnd right.markEnd where
  left_reads := twins.left_reads.markEnd
  right_reads := twins.right_reads.markEnd
  symbol_eq := twins.symbol_eq
  starts := twins.starts
  stops := by
    right
    refine ⟨step, Nat.le_refl _, ?_, ?_⟩
    · exact congrArg some twins.left_reads.tokenBoundary
    · exact congrArg some twins.right_reads.tokenBoundary

theorem accept (twins : Twins text other place otherPlace step left right) (symbol : Nat) :
    Twins text other place otherPlace step (left.accept symbol) (right.accept symbol) := by
  have marked := twins.markEnd
  exact ⟨marked.left_reads.accept symbol, marked.right_reads.accept symbol, rfl, marked.starts,
    marked.stops⟩

/-! ## Runs -/

/-- A plain block leads twins to twins and ends alike with both. -/
theorem run (short : text.size < maxOffset) (otherShort : other.size < maxOffset) {block : Block}
    (plain : block.IsPlain) (twins : Twins text other place otherPlace step left right)
    (final : (block.run left).2.Reads text (place + last))
    (alike : ∀ step ≤ last,
      Utf8.next? other (otherPlace + step) = Utf8.next? text (place + step)) :
    (block.run right).1 = (block.run left).1 ∧
      Twins text other place otherPlace last (block.run left).2 (block.run right).2 := by
  have before : step ≤ last := Nat.le_of_add_le_add_left (twins.left_reads.le_run short final)
  have here := alike step before
  induction block generalizing left right step with
  | stop found =>
      obtain rfl : step = last := Nat.add_left_cancel (twins.left_reads.offset_unique final)
      exact ⟨rfl, twins⟩
  | jump label =>
      obtain rfl : step = last := Nat.add_left_cancel (twins.left_reads.offset_unique final)
      exact ⟨rfl, twins⟩
  | look next ih =>
      simp only [Block.run, twins.lookahead here, twins.atEnd here] at final ⊢
      exact ih _ _ (plain _ _) twins final before here
  | column next => exact plain.elim
  | atSpanStart next => exact plain.elim
  | advance skip next ih =>
      rcases twins.advance short otherShort here skip with ⟨further, moved⟩
      have inside : further ≤ last :=
        Nat.le_of_add_le_add_left (moved.left_reads.le_run short final)
      exact ih plain moved final inside (alike further inside)
  | markEnd next ih => exact ih plain twins.markEnd final before here
  | accept symbol next ih => exact ih plain (twins.accept symbol) final before here

/-- A program of plain blocks finds the same with both, and leads twins to twins. -/
theorem runFrom (short : text.size < maxOffset) (otherShort : other.size < maxOffset)
    {program : ScanProgram} (plain : ∀ label, (program label).IsPlain) {label : Nat} {found : Bool}
    (twins : Twins text other place otherPlace step left right)
    (scan : program.runFrom label left = some (found, reached))
    (final : reached.Reads text (place + last))
    (alike : ∀ step ≤ last,
      Utf8.next? other (otherPlace + step) = Utf8.next? text (place + step)) :
    ∃ otherReached, program.runFrom label right = some (found, otherReached) ∧
      Twins text other place otherPlace last reached otherReached := by
  induction label, left using ScanProgram.runFrom.induct program generalizing right step with
  | case1 label left found stood stopped =>
      rw [ScanProgram.runFrom_of_stopped stopped] at scan
      cases scan
      have there : ((program label).run left).2.Reads text (place + last) := by
        rw [stopped]
        exact final
      rcases twins.run short otherShort (plain label) there alike with ⟨same, after⟩
      rw [stopped] at same after
      have otherStopped : (program label).run right =
          (.stopped found, ((program label).run right).2) := Prod.ext same rfl
      exact ⟨_, ScanProgram.runFrom_of_stopped otherStopped, after⟩
  | case2 label left next further jumped onward ih =>
      rw [ScanProgram.runFrom_of_jumped jumped onward] at scan
      rcases twins.left_reads.run short (program label) with ⟨beyond, ahead, there⟩
      obtain ⟨passed, rfl⟩ : ∃ passed, beyond = place + passed := ⟨beyond - place, by omega⟩
      have first := there
      rw [jumped] at first
      have within : passed ≤ last :=
        Nat.le_of_add_le_add_left (first.le_runFrom short scan final)
      rcases twins.run short otherShort (plain label) there
        (fun step inside => alike step (Nat.le_trans inside within)) with ⟨same, after⟩
      rw [jumped] at same after
      have otherJumped : (program label).run right = (.jumped next, ((program label).run right).2) :=
        Prod.ext same rfl
      -- the jump is allowed because the first scanner has moved on, and then both have
      have moved : step < passed := by
        apply Nat.lt_of_le_of_ne (Nat.le_of_add_le_add_left ahead)
        rintro rfl
        exact absurd (twins.left_reads.remaining_eq first) (Nat.ne_of_lt onward)
      have more : (Utf8.next? other (otherPlace + step)).isSome = true := by
        rw [Option.isSome_iff_ne_none, ne_eq, Utf8.next_eq_none_iff]
        have inside := after.right_reads.inside
        omega
      have otherOnward := twins.right_reads.remaining_lt after.right_reads more (by omega)
      rw [ScanProgram.runFrom_of_jumped otherJumped otherOnward]
      exact ih after scan
  | case3 label left next further jumped still =>
      rw [ScanProgram.runFrom, jumped] at scan
      dsimp only at scan
      rw [if_neg still] at scan
      cases scan

end Twins

/-! ## Beginning and finishing a token -/

theorem entry_of_pos (behind : 0 < offset) : entry text offset = offset := by
  unfold entry
  split
  · rfl
  · rename_i decoded read
    have later : ¬ (offset = 0 ∧ decoded.char = byteOrderMark) := by omega
    rw [if_neg later]

/-- Scanners that begin a token behind the first byte of their texts are twins. -/
theorem twins_start (short : text.size < maxOffset) (otherShort : other.size < maxOffset)
    (leftPlaced : left.Placed text place) (rightPlaced : right.Placed other otherPlace)
    (behind : 0 < place) (otherBehind : 0 < otherPlace) :
    Twins text other place otherPlace 0 left.start right.start := by
  have leftScans := leftPlaced.start short
  have rightScans := rightPlaced.start otherShort
  rw [entry_of_pos behind] at leftScans
  rw [entry_of_pos otherBehind] at rightScans
  refine ⟨leftScans.toReads, rightScans.toReads, ?_, ?_, ?_⟩
  · rw [symbol_start, symbol_start]
  · exact ⟨0, Nat.le_refl _, leftScans.tokenStart_eq, rightScans.tokenStart_eq⟩
  · exact Or.inl ⟨leftScans.tokenStop_eq, rightScans.tokenStop_eq⟩

/-- Finished twins span the same stretch. -/
theorem Twins.finish (twins : Twins text other place otherPlace step left right) :
    ∃ first stop, first ≤ stop ∧ stop ≤ step ∧
      left.finish.1.tokenSpan = ⟨text.place (place + first), text.place (place + stop)⟩ ∧
      right.finish.1.tokenSpan =
        ⟨other.place (otherPlace + first), other.place (otherPlace + stop)⟩ := by
  have pair : ∃ stop ≤ step,
      left.tokenStop.getD left.tokenBoundary = text.place (place + stop) ∧
        right.tokenStop.getD right.tokenBoundary = other.place (otherPlace + stop) := by
    rcases twins.stops with ⟨leftNone, rightNone⟩ | ⟨stop, before, leftSome, rightSome⟩
    · rw [leftNone, rightNone]
      exact ⟨step, Nat.le_refl _, twins.left_reads.tokenBoundary, twins.right_reads.tokenBoundary⟩
    · rw [leftSome, rightSome]
      exact ⟨stop, before, rfl, rfl⟩
  rcases pair with ⟨stop, before, leftStop, rightStop⟩
  rcases twins.starts with ⟨first, _, leftStart, rightStart⟩
  rw [tokenSpan_finish, tokenSpan_finish, leftStop, rightStop, leftStart, rightStart,
    Text.bytes_place, Text.bytes_place, Text.bytes_place, Text.bytes_place]
  by_cases crossed : stop < first
  · -- a token that ended before it started starts where it ended
    rw [if_pos (by omega), if_pos (by omega)]
    exact ⟨stop, stop, Nat.le_refl _, before, rfl, rfl⟩
  · rw [if_neg (by omega), if_neg (by omega)]
    exact ⟨first, stop, Nat.not_lt.mp crossed, before, rfl, rfl⟩

end Scanner

end Reparse
