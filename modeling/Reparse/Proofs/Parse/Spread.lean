import Reparse.Proofs.Parse.Calls

/-!
# Tokens lie end to end

The leaves that a parse has consumed take up the text from its beginning to the position of the
parse, without gaps and without overlaps, and those among them that were scanned stand where the
scanner said (`Spread`). Every call that is made in order keeps this, whatever the grammar is
(`Calls.lays`): a token that was scanned is consumed at the position where it was scanned, or still
waits there, or was dropped when the parse was halted.
-/

namespace Reparse

/-- Leaves take up a text end to end. The scans are, in order, those leaves that were scanned. -/
inductive Spread (text : Text) : Nat → List Tree → List Scan → Nat → Prop where
  | nil {place : Nat} : Spread text place [] [] place
  | scanned {first middle last : Nat} {scan : Scan} {leaves : List Tree} {scans : List Scan}
      (takes : scan.TakesUp text first middle) (rest : Spread text middle leaves scans last) :
      Spread text first (scan.token :: leaves) (scan :: scans) last
  | unscanned {first place middle last : Nat} {leaf : Tree} {leaves : List Tree}
      {scans : List Scan} (childless : leaf.children = []) (blind : leaf.info.lookahead = 0)
      (covers : leaf.Covers text first place middle) (rest : Spread text middle leaves scans last) :
      Spread text first (leaf :: leaves) scans last

namespace Spread

variable {text : Text} {first middle last place : Nat} {leaves more : List Tree}
  {scans others : List Scan}

theorem append (before : Spread text first leaves scans middle)
    (behind : Spread text middle more others last) :
    Spread text first (leaves ++ more) (scans ++ others) last := by
  induction before with
  | nil => exact behind
  | scanned takes _ ih => exact .scanned takes (ih behind)
  | unscanned childless blind covers _ ih => exact .unscanned childless blind covers (ih behind)

theorem of_append (spread : Spread text first (leaves ++ more) scans last) :
    ∃ middle before behind, scans = before ++ behind ∧ Spread text first leaves before middle ∧
      Spread text middle more behind last := by
  induction leaves generalizing first scans with
  | nil => exact ⟨first, [], scans, rfl, .nil, spread⟩
  | cons leaf rest ih =>
      cases spread with
      | scanned takes behind =>
          rcases ih behind with ⟨middle, one, other, rfl, before, after⟩
          exact ⟨middle, _ :: one, other, rfl, .scanned takes before, after⟩
      | unscanned childless blind covers behind =>
          rcases ih behind with ⟨middle, one, other, rfl, before, after⟩
          exact ⟨middle, one, other, rfl, .unscanned childless blind covers before, after⟩

theorem single (takes : scan.TakesUp text first last) : Spread text first [scan.token] [scan] last :=
  .scanned takes .nil

theorem bare {leaf : Tree} (childless : leaf.children = []) (blind : leaf.info.lookahead = 0)
    (covers : leaf.Covers text first place last) : Spread text first [leaf] [] last :=
  .unscanned childless blind covers .nil

/-- A leaf without text takes up none. -/
theorem empty {leaf : Tree} (childless : leaf.children = []) (blind : leaf.info.lookahead = 0)
    (padding : leaf.info.padding = Extent.zero) (size : leaf.info.size = Extent.zero) :
    Spread text place [leaf] [] place := by
  refine bare childless blind ⟨Nat.le_refl _, Nat.le_refl _, ?_, ?_⟩
  · rw [padding, Nat.sub_self]
    rfl
  · rw [size, Nat.sub_self]
    rfl

end Spread

namespace Context

variable {context after filled : Context} {text : Text} {offset : Nat} {leaves : List Tree}
  {scans waiting : List Scan}

/-- The tokens that were scanned and not consumed: the token ahead, or one that was dropped when the
parse was halted. -/
def Awaits (text : Text) (offset : Nat) (context : Context) (waiting : List Scan) : Prop :=
  if context.isHalted then waiting.length ≤ 1
  else
    match context.lookahead with
    | none => waiting = []
    | some token => ∃ span last, waiting = [⟨token, span⟩] ∧
        Scan.TakesUp text offset last ⟨token, span⟩

/-- The leaves that were consumed take up the text up to the position, and the scans are those of
them that were scanned and those that wait. -/
structure Lays (text : Text) (leaves : List Tree) (scans : List Scan) (context : Context) :
    Prop where
  older_eq : context.older = none
  spares : context.program.SparesEnd
  placed : ∃ here, context.scanner.Placed text here
  reached : ∃ offset kept waiting, offset ≤ text.size ∧ context.position = text.place offset ∧
    Spread text 0 leaves kept offset ∧ scans = kept ++ waiting ∧ context.Awaits text offset waiting

theorem Awaits.length_le (awaits : context.Awaits text offset waiting) : waiting.length ≤ 1 := by
  unfold Awaits at awaits
  split at awaits
  · exact awaits
  · split at awaits
    · rw [awaits]
      exact Nat.zero_le _
    · rcases awaits with ⟨span, last, rfl, _⟩
      exact Nat.le_refl _

theorem awaits_halted (halted : context.isHalted = true) (few : waiting.length ≤ 1) :
    context.Awaits text offset waiting := by
  rw [Awaits, if_pos halted]
  exact few

theorem awaits_none (running : context.isHalted = false) (none : context.lookahead = none) :
    context.Awaits text offset waiting ↔ waiting = [] := by
  rw [Awaits, if_neg (by simp [running]), none]

theorem awaits_some {token : Tree} (running : context.isHalted = false)
    (ahead : context.lookahead = some token) :
    context.Awaits text offset waiting ↔
      ∃ span last, waiting = [⟨token, span⟩] ∧ Scan.TakesUp text offset last ⟨token, span⟩ := by
  rw [Awaits, if_neg (by simp [running]), ahead]

theorem Awaits.of_same (awaits : context.Awaits text offset waiting)
    (lookahead : after.lookahead = context.lookahead)
    (halts : context.isHalted = true → after.isHalted = true) :
    after.Awaits text offset waiting := by
  cases halted : after.isHalted with
  | true => exact awaits_halted halted awaits.length_le
  | false =>
      have running : ¬context.isHalted = true := fun before => by
        rw [halts before] at halted
        cases halted
      rw [Awaits, if_neg running] at awaits
      rw [Awaits, if_neg (by simp [halted]), lookahead]
      exact awaits

theorem placed_log {scanner : Scanner} (placed : scanner.Placed text offset) (log : List Notice) :
    ({ scanner with log } : Scanner).Placed text offset :=
  placed.of_samePlace ⟨rfl, rfl, rfl, rfl, rfl⟩ rfl

namespace Lays

theorem of_sameView (lays : context.Lays text leaves scans) (same : context.SameView after) :
    after.Lays text leaves scans where
  older_eq := same.older_eq.trans lays.older_eq
  spares := same.program_eq ▸ lays.spares
  placed := by
    rcases lays.placed with ⟨here, placed⟩
    rcases same.scanner_eq with ⟨log, scanner⟩
    rw [scanner]
    exact ⟨here, placed_log placed log⟩
  reached := by
    rcases lays.reached with ⟨offset, kept, waiting, inside, position, spread, split, awaits⟩
    exact ⟨offset, kept, waiting, inside, same.position_eq.trans position, spread, split,
      awaits.of_same same.lookahead_eq same.halts⟩

/-- A leaf that was not scanned is added at the position. -/
theorem add (lays : context.Lays text leaves scans) {leaf : Tree} (childless : leaf.children = [])
    (blind : leaf.info.lookahead = 0) (padding : leaf.info.padding = Extent.zero)
    (size : leaf.info.size = Extent.zero) : context.Lays text (leaves ++ [leaf]) scans where
  older_eq := lays.older_eq
  spares := lays.spares
  placed := lays.placed
  reached := by
    rcases lays.reached with ⟨offset, kept, waiting, inside, position, spread, split, awaits⟩
    have added := spread.append (Spread.empty childless blind padding size)
    rw [List.append_nil] at added
    exact ⟨offset, kept, waiting, inside, position, added, split, awaits⟩

/-- The token ahead is consumed where it was scanned. -/
theorem shift (lays : context.Lays text leaves scans) {token : Tree}
    (running : context.isHalted = false) (ahead : context.lookahead = some token) :
    (({ context with lookahead := none } : Context).consume token).Lays text (leaves ++ [token])
      scans where
  older_eq := lays.older_eq
  spares := lays.spares
  placed := lays.placed
  reached := by
    rcases lays.reached with ⟨offset, kept, waiting, inside, position, spread, split, awaits⟩
    rcases (awaits_some running ahead).mp awaits with ⟨span, last, rfl, takes⟩
    rcases takes.covers with ⟨_, covers, _⟩
    refine ⟨last, kept ++ [⟨token, span⟩], [], takes.inside, ?_,
      spread.append (Spread.single takes), ?_, ?_⟩
    · have moved : context.position + token.total = text.place last := by
        rw [position, covers.place_add]
      exact moved
    · rw [split, List.append_nil]
    · have onward : (({ context with lookahead := none } : Context).consume token).isHalted =
          false := running
      exact (awaits_none onward rfl).mpr rfl

/-- A token that is scanned waits at the position, and is dropped if that halts the parse. -/
theorem scan (short : text.size < maxOffset) {token : Tree} {next : Context}
    (lays : context.Lays text leaves scans) (idle : context.Idle)
    (scanned : context.scanToken = some (token, next)) :
    ∃ span, context.scannedSpan = some span ∧
      (next.isHalted = true → next.Lays text leaves (scans ++ [⟨token, span⟩])) ∧
      (next.isHalted = false →
        Lays text leaves (scans ++ [⟨token, span⟩]) { next with lookahead := some token }) := by
  rcases lays.placed with ⟨here, placed⟩
  rcases lays.reached with ⟨offset, kept, waiting, inside, position, spread, split, awaits⟩
  obtain rfl := (awaits_none idle.running idle.unread).mp awaits
  rw [List.append_nil] at split
  subst split
  rcases exists_scan short lays.spares placed position inside scanned with
    ⟨span, last, said, takes, there, program, still⟩
  have older : next.older = none := (scanToken_same scanned).2.2.2.2.trans lays.older_eq
  have spares : next.program.SparesEnd := program ▸ lays.spares
  have same : next.position = text.place offset := still.trans position
  refine ⟨span, said, fun halted => ?_, fun running => ?_⟩
  · exact ⟨older, spares, ⟨_, there⟩, offset, scans, [_], inside, same, spread, rfl,
      awaits_halted halted (Nat.le_refl _)⟩
  · have waits : ({ next with lookahead := some token } : Context).isHalted = false := running
    exact ⟨older, spares, ⟨_, there⟩, offset, scans, [_], inside, same, spread, rfl,
      (awaits_some waits rfl).mpr ⟨span, last, rfl, takes⟩⟩

/-- Looking ahead consumes the extras. -/
theorem fill (short : text.size < maxOffset) {fuel : Nat} (lays : context.Lays text leaves scans)
    (filled : context.fill fuel = some after) :
    after.Lays text (leaves ++ context.extrasAhead fuel) (scans ++ context.scansAhead fuel) := by
  replace filled := looksAhead_of_fill filled
  induction filled generalizing leaves scans with
  | still still =>
      rw [extrasAhead_still still, scansAhead_still still, List.append_nil, List.append_nil]
      exact lays
  | halted idle scanned halted =>
      rcases lays.scan short idle scanned with ⟨span, said, dropped, _⟩
      rw [extrasAhead_halted idle scanned halted, scansAhead_halted idle scanned said halted,
        List.append_nil]
      exact dropped halted
  | @extra _ _ next _ token idle scanned running extra _ ih =>
      rcases lays.scan short idle scanned with ⟨span, said, _, waits⟩
      have shifted := (waits running).shift running rfl
      have unread : ({ next with lookahead := none } : Context) = next := by
        rw [← (scanToken_same scanned).2.2.2.1.trans idle.unread]
      have consumed : (next.consume token).Lays text (leaves ++ [token])
          (scans ++ [⟨token, span⟩]) := unread ▸ shifted
      have rest := ih consumed
      rw [List.append_assoc, List.append_assoc] at rest
      rw [extrasAhead_extra idle scanned running extra,
        scansAhead_extra idle scanned said running extra]
      exact rest
  | solid idle scanned running solid =>
      rcases lays.scan short idle scanned with ⟨span, said, _, waits⟩
      rw [extrasAhead_solid idle scanned running solid,
        scansAhead_solid idle scanned said running solid, List.append_nil]
      exact waits running

end Lays

/-! ## Calls -/

namespace Lays

variable {draft : Draft}

/-- The token that is consumed stands behind the extras before it. -/
theorem consumes (short : text.size < maxOffset) (lays : context.Lays text leaves scans)
    (consumes : context.Consumes after) :
    after.Lays text (leaves ++ (context.extras ++ context.nextToken.toList))
      (scans ++ context.scansAhead context.budget) := by
  rcases consumes with ⟨filled, filling, ⟨ends, rfl⟩ |
    ⟨token, seen, more, ahead, same, running, reached⟩⟩
  · rw [nextToken_of_end filling ends, Option.toList_none, List.append_nil]
    exact lays.fill short filling
  · have seenLays := (lays.fill short filling).of_sameView same
    have shifted := seenLays.shift running (same.lookahead_eq.trans ahead)
    rw [nextToken_of_token filling more, ahead, Option.toList_some, ← List.append_assoc]
    exact shifted.of_sameView reached

/-- Nothing can be taken over where there is no older tree. -/
theorem reusable_eq (lays : context.Lays text leaves scans) (state : Nat) :
    context.reusable state = none := by
  simp [reusable, lays.older_eq]

/-- Whatever call is made, the leaves lie end to end. -/
theorem call (short : text.size < maxOffset) {call : Call} {handle : Handle}
    (lays : context.Lays text draft.consumed scans)
    (run : call.perform.run context = .ok (handle, after)) :
    after.Lays text (draft.after context call handle).consumed (scans ++ call.scans context) := by
  rcases Call.moves draft run with ⟨added, moves, consumed⟩
  rw [consumed]
  generalize call.scans context = scanned at moves
  cases moves with
  | stays same =>
      rw [List.append_nil, List.append_nil]
      exact lays.of_sameView same
  | misses symbol same =>
      rw [List.append_nil]
      exact (lays.add rfl rfl rfl rfl).of_sameView same
  | looks filled => exact lays.fill short filled
  | consumes consumes => exact lays.consumes short consumes
  | reuses found =>
      rw [lays.reusable_eq] at found
      cases found

end Lays

end Context

/-- Calls that are made in order keep the leaves end to end. -/
theorem Calls.lays {begun context : Context} {text : Text} {draft : Draft} {scans : List Scan}
    (short : text.size < maxOffset) (calls : Calls begun context draft scans)
    (start : begun.Lays text [] []) : context.Lays text draft.consumed scans := by
  induction calls with
  | begin => exact start
  | remark _ _ ih => exact ih.of_sameView (.remark _ _)
  | call _ _ run ih => exact ih.call short run

end Reparse
