import Reparse.Proofs.Parse.Forward
import Reparse.Proofs.Scanner.Bounds
import Reparse.Proofs.Tree.Leaves

/-!
# Leaves begin and end in included text

A token that has text begins with an included byte, and ends behind one or at a span without text
(`Tree.Bounded`), where no scan program is asked for more than that it comes to an end
(`Context.bounded_of_scanToken`). The leaves that a parse has consumed lie end to end up to its
position. So each of them lies where it was scanned, and every call that is made in order keeps this
(`Calls.bounds`).
-/

namespace Reparse

open Scanner (Course)

/-- If a token at an offset has text, that begins and ends as it should. -/
def Tree.Bounded (text : Text) (spans : List Span) (offset : Nat) (token : Tree) : Prop :=
  0 < token.info.size.bytes → text.Includes spans (offset + token.info.padding.bytes) ∧
    text.EndsAt spans (offset + token.total.bytes)

section Tokens

variable {text : Text} {spans : List Span} {scanner : Scanner} {reads : Bool} {floor : Nat}

theorem Scanner.Entrance.includes {offset : Nat} (entrance : Entrance text spans offset) :
    text.Includes spans offset := by
  rcases entrance.inside with ⟨before, span, after, rfl, begun, inside⟩
  exact ⟨entrance.lt_size, span, by simp, begun, inside⟩

/-- A scanner that begins a token has not come to an end of it. -/
theorem Scanner.Course.bounded (ordered : Span.Ordered 0 spans)
    (course : Course text spans reads scanner)
    (low : scanner.ahead ≠ [] → floor ≤ scanner.position.bytes) :
    scanner.start.Bounded text spans floor := by
  rcases course.seeks ordered low with ⟨seeks, start⟩
  have behind := (seeks.course.located ordered).tokenBoundary_le ordered
  rw [← start] at behind
  refine ⟨seeks, fun longer => ?_, fun stop marked longer => ?_⟩
  · omega
  · have early := seeks.stop_le stop marked
    rw [← start] at early
    omega

namespace Context

variable {offset : Extent}

/-- What was found ends where that was said. -/
theorem bounded_foundToken (ordered : Span.Ordered 0 spans)
    (bounded : scanner.Bounded text spans offset.bytes) (vocabulary : Vocabulary) :
    (foundToken vocabulary scanner offset).1.Bounded text spans offset.bytes := by
  rcases scanner.finish_spec with ⟨stop, start, _, _⟩
  intro positive
  change 0 < (scanner.finish.1.tokenEnd - scanner.finish.1.tokenStart).bytes at positive
  rw [Extent.bytes_sub] at positive
  have begins : scanner.finish.1.tokenStart = scanner.tokenStart := by
    rcases start with same | same
    · exact same
    · rw [same] at positive
      omega
  rw [begins] at positive
  have ended : text.EndsAt spans scanner.finish.1.tokenEnd.bytes ∧
      scanner.finish.1.tokenEnd.bytes ≤ scanner.position.bytes := by
    rw [stop] at positive ⊢
    cases marked : scanner.tokenStop with
    | none =>
        rw [marked] at positive
        simp only [Option.getD_none] at positive ⊢
        exact ⟨bounded.here (by omega), (bounded.course.located ordered).tokenBoundary_le ordered⟩
    | some place =>
        rw [marked] at positive
        simp only [Option.getD_some] at positive ⊢
        exact ⟨bounded.marked place marked (by omega), bounded.stop_le place marked⟩
  rcases bounded.begun with ⟨_, same⟩ | ⟨entrance, low, _⟩
  · omega
  · have padding : offset.bytes + (foundToken vocabulary scanner offset).1.info.padding.bytes =
        scanner.tokenStart.bytes := by
      change offset.bytes + (scanner.finish.1.tokenStart - offset).bytes = _
      rw [begins, Extent.bytes_sub]
      omega
    have total : offset.bytes + (foundToken vocabulary scanner offset).1.total.bytes =
        scanner.finish.1.tokenEnd.bytes := by
      change offset.bytes + ((scanner.finish.1.tokenStart - offset).bytes +
        (scanner.finish.1.tokenEnd - scanner.finish.1.tokenStart).bytes) = _
      rw [begins, Extent.bytes_sub, Extent.bytes_sub]
      omega
    rw [padding, total]
    exact ⟨entrance.includes, ended.1⟩

/-- An unexpected character ends where the scanner has stepped past it. -/
theorem bounded_unexpectedToken (cut : text.Cut 0 spans)
    (bounded : scanner.Bounded text spans offset.bytes)
    (unfinished : ¬(scanner.atEnd = true ∧ scanner.position.bytes = scanner.tokenStart.bytes)) :
    (unexpectedToken scanner offset scanner.tokenStart).1.Bounded text spans offset.bytes := by
  rcases bounded.begun with ⟨ended, same⟩ | ⟨entrance, low, _⟩
  · exact absurd ⟨ended, same.symm⟩ unfinished
  · rcases bounded.toSeeks.restart cut.ordered entrance unfinished with ⟨course, more, _, _⟩
    have ends := (course.report .unrecognized).endsAt_advance cut more false
    rw [unexpectedToken_eq]
    intro positive
    dsimp only at positive ⊢
    generalize (((scanner.reset scanner.tokenStart).start.report .unrecognized).advance
      false).tokenBoundary = stop at ends positive ⊢
    change 0 < (stop - scanner.tokenStart).bytes at positive
    rw [Extent.bytes_sub] at positive
    constructor
    · change text.Includes spans (offset.bytes + (scanner.tokenStart - offset).bytes)
      rw [Extent.bytes_sub, Nat.add_sub_cancel' low]
      exact entrance.includes
    · change text.EndsAt spans (offset.bytes +
        ((scanner.tokenStart - offset).bytes + (stop - scanner.tokenStart).bytes))
      have place : offset.bytes +
          ((scanner.tokenStart - offset).bytes + (stop - scanner.tokenStart).bytes) =
            stop.bytes := by
        rw [Extent.bytes_sub, Extent.bytes_sub]
        omega
      rw [place]
      exact ends

/-- Whatever is scanned as a token begins and ends as it should. -/
theorem bounded_of_scanToken (cut : text.Cut 0 spans) {context after : Context} {token : Tree}
    (course : Course text spans reads context.scanner)
    (scanned : context.scanToken = some (token, after)) :
    token.Bounded text spans context.position.bytes := by
  rcases course.reset context.position with ⟨_, placed⟩
  have begun := placed.bounded cut.ordered (course.le_reset cut.ordered context.position)
  rcases exists_of_scanToken scanned with ⟨found, scanner, reached, run, made, rfl⟩
  have bounded := (Scanner.stable_bounded cut).runFrom begun run
  have spec : (tokenOf context.vocabulary found scanner context.position).1.Bounded text spans
      context.position.bytes :=
    tokenOf_cases (motive := fun made => made.1.Bounded text spans context.position.bytes) _ _
      (fun _ => bounded_foundToken cut.ordered bounded context.vocabulary)
      (fun _ positive => absurd positive (Nat.lt_irrefl 0))
      fun unfinished => bounded_unexpectedToken cut bounded unfinished
  rwa [made] at spec

end Context

end Tokens

/-! ## Leaves end to end -/

/-- Leaves that are laid end to end from the beginning of the text are bounded where they lie. -/
def Tree.BoundedAlong (text : Text) (spans : List Span) (leaves : List Tree) : Prop :=
  ∀ placed ∈ laidOut Extent.zero leaves, placed.2.start.bytes < placed.2.stop.bytes →
    text.Includes spans placed.2.start.bytes ∧ text.EndsAt spans placed.2.stop.bytes

theorem Tree.BoundedAlong.add {text : Text} {spans : List Span} {leaves : List Tree} {leaf : Tree}
    (along : BoundedAlong text spans leaves)
    (bounded : leaf.Bounded text spans (extentOf leaves).bytes) :
    BoundedAlong text spans (leaves ++ [leaf]) := by
  rw [BoundedAlong, laidOut_append, List.forall_mem_append, Extent.zero_append]
  refine ⟨along, fun placed member longer => ?_⟩
  rw [laidOut, laidOut, List.mem_singleton] at member
  subst member
  refine bounded ?_
  simp only [Tree.total, Info.total, Extent.bytes_add] at longer
  omega

namespace Context

variable {context after filled : Context} {text : Text} {spans : List Span} {leaves : List Tree}
  {token : Tree}

/-- The leaves that were consumed are bounded and reach up to the position, and so is the token
ahead. -/
structure Bounds (text : Text) (spans : List Span) (leaves : List Tree) (context : Context) :
    Prop where
  older_eq : context.older = none
  steady : context.Steady text spans
  position_eq : context.position = Tree.extentOf leaves
  childless : ∀ leaf ∈ leaves, leaf.children = []
  along : Tree.BoundedAlong text spans leaves
  ahead : ∀ token, context.lookahead = some token →
    token.children = [] ∧ token.Bounded text spans context.position.bytes

namespace Bounds

theorem of_sameView (bounds : context.Bounds text spans leaves) (same : context.SameView after) :
    after.Bounds text spans leaves where
  older_eq := same.older_eq.trans bounds.older_eq
  steady := bounds.steady.of_sameView same
  position_eq := same.position_eq.trans bounds.position_eq
  childless := bounds.childless
  along := bounds.along
  ahead := by
    rw [same.lookahead_eq, same.position_eq]
    exact bounds.ahead

/-- A token that is scanned may wait at the position. -/
theorem scan (cut : text.Cut 0 spans) (bounds : context.Bounds text spans leaves)
    (idle : context.Idle) (scanned : context.scanToken = some (token, after)) :
    after.Bounds text spans leaves ∧ after.lookahead = none ∧
      ({ after with lookahead := some token } : Context).Bounds text spans leaves := by
  rcases bounds.steady.course with ⟨reads, course⟩
  have bounded := bounded_of_scanToken cut course scanned
  rcases scanToken_same scanned with ⟨childless, _, _, lookahead, older⟩
  rcases bounds.steady.exists_scan with ⟨_, _, again, leads, onward, position, _⟩
  rw [scanned, Option.some.injEq, Prod.mk.injEq] at again
  rcases again with ⟨rfl, rfl⟩
  have unread : after.lookahead = none := lookahead.trans idle.unread
  have none_left := older.trans bounds.older_eq
  have place := position.trans bounds.position_eq
  refine ⟨⟨none_left, onward, place, bounds.childless, bounds.along, fun other present => ?_⟩,
    unread, none_left, ⟨onward.ordered, onward.gains, onward.course, fun other present => ?_⟩,
    place, bounds.childless, bounds.along, fun other present => ?_⟩
  · rw [unread] at present
    cases present
  · obtain rfl : token = other := Option.some.inj present
    rw [position]
    exact leads
  · obtain rfl : token = other := Option.some.inj present
    rw [position]
    exact ⟨childless, bounded⟩

/-- The token ahead is consumed where it lies. -/
theorem shift (bounds : context.Bounds text spans leaves) (ahead : context.lookahead = some token)
    (onward : (({ context with lookahead := none } : Context).consume token).Steady text spans) :
    (({ context with lookahead := none } : Context).consume token).Bounds text spans
      (leaves ++ [token]) where
  older_eq := bounds.older_eq
  steady := onward
  position_eq := by
    rw [Tree.extentOf_append, ← bounds.position_eq]
    exact (congrArg (context.position + ·) (Extent.append_zero _)).symm
  childless := List.forall_mem_append.mpr
    ⟨bounds.childless, fun leaf member =>
      List.mem_singleton.mp member ▸ (bounds.ahead token ahead).1⟩
  along := bounds.along.add (bounds.position_eq ▸ (bounds.ahead token ahead).2)
  ahead other present := by cases present

/-- Looking ahead consumes the extras. -/
theorem fill (cut : text.Cut 0 spans) {fuel : Nat} (bounds : context.Bounds text spans leaves)
    (filled : context.fill fuel = some after) :
    after.Bounds text spans (leaves ++ context.extrasAhead fuel) := by
  replace filled := looksAhead_of_fill filled
  induction filled generalizing leaves with
  | still still =>
      rw [extrasAhead_still still, List.append_nil]
      exact bounds
  | halted idle scanned halted =>
      rw [extrasAhead_halted idle scanned halted, List.append_nil]
      exact (bounds.scan cut idle scanned).1
  | @extra _ _ next _ token idle scanned running extra _ ih =>
      rcases bounds.scan cut idle scanned with ⟨onward, unread, waits⟩
      have same : ({ next with lookahead := none } : Context) = next := by rw [← unread]
      have consumed := waits.shift rfl (same ▸ onward.steady.consume unread token)
      have rest := ih (same ▸ consumed)
      rw [List.append_assoc] at rest
      rw [extrasAhead_extra idle scanned running extra]
      exact rest
  | solid idle scanned running solid =>
      rw [extrasAhead_solid idle scanned running solid, List.append_nil]
      exact (bounds.scan cut idle scanned).2.2

/-! ## Calls -/

/-- The token that is consumed stands behind the extras before it. -/
theorem consumes (cut : text.Cut 0 spans) (bounds : context.Bounds text spans leaves)
    (consumes : context.Consumes after) :
    after.Bounds text spans (leaves ++ (context.extras ++ context.nextToken.toList)) := by
  rcases consumes with ⟨filled, filling, ⟨ends, rfl⟩ |
    ⟨token, seen, more, ahead, same, running, reached⟩⟩
  · rw [nextToken_of_end filling ends, Option.toList_none, List.append_nil]
    exact bounds.fill cut filling
  · have seenBounds := (bounds.fill cut filling).of_sameView same
    have waits := same.lookahead_eq.trans ahead
    have further : token.info.symbol ≠ endSymbol :=
      symbol_of_ahead (running_of_ahead more) ahead ▸ more
    have shifted := seenBounds.shift waits (seenBounds.steady.shift waits further).1
    rw [nextToken_of_token filling more, ahead, Option.toList_some, ← List.append_assoc]
    exact shifted.of_sameView reached

/-- A missing token has no text. -/
theorem missing (bounds : context.Bounds text spans leaves) (symbol : Nat) (kind : SymbolKind) :
    context.Bounds text spans (leaves ++ [Tree.missing symbol kind]) where
  older_eq := bounds.older_eq
  steady := bounds.steady
  position_eq := by
    rw [Tree.extentOf_append, ← bounds.position_eq]
    exact (Extent.append_zero _).symm
  childless := List.forall_mem_append.mpr
    ⟨bounds.childless, fun leaf member => List.mem_singleton.mp member ▸ rfl⟩
  along := bounds.along.add fun positive => absurd positive (Nat.lt_irrefl 0)
  ahead := bounds.ahead

/-- Whatever call is made, the leaves that were consumed are bounded. -/
theorem call (cut : text.Cut 0 spans) {draft : Draft} {call : Call} {handle : Handle}
    (bounds : context.Bounds text spans draft.consumed)
    (run : call.perform.run context = .ok (handle, after)) :
    after.Bounds text spans (draft.after context call handle).consumed := by
  rcases Call.moves draft run with ⟨added, moves, consumed⟩
  rw [consumed]
  generalize call.scans context = scanned at moves
  cases moves with
  | stays same =>
      rw [List.append_nil]
      exact bounds.of_sameView same
  | misses symbol same => exact (bounds.missing symbol _).of_sameView same
  | looks filled => exact bounds.fill cut filled
  | consumes consumes => exact bounds.consumes cut consumes
  | reuses found =>
      rw [reusable, bounds.older_eq] at found
      simp at found

end Bounds

end Context

/-- Calls that are made in order keep the leaves that they consume bounded. -/
theorem Calls.bounds {begun context : Context} {text : Text} {spans : List Span} {draft : Draft}
    {scans : List Scan} (cut : text.Cut 0 spans) (calls : Calls begun context draft scans)
    (start : begun.Bounds text spans []) : context.Bounds text spans draft.consumed := by
  induction calls with
  | begin => exact start
  | remark _ _ ih => exact ih.of_sameView (.remark _ _)
  | call _ _ run ih => exact ih.call cut run

end Reparse
