import Reparse.Proofs.Scanner.Bounds
import Reparse.Proofs.Scanner.Column
import Reparse.Proofs.Scanner.Reads
import Reparse.Proofs.Text.Exact

/-!
# Positions that do not depend on the way

A scanner comes to a place by reading, by skipping, or because it was sent there. If no character
reaches over the end of a span (`Text.Uncut`), the way does not show: wherever the scanner stands in
a span, its position is counted from the start of the span (`Scanner.CountedIn`), and what it has
read is what stands there (`Scanner.Charted`).

Behind the last span the way shows. A scanner that has read up to the end stands where counting has
led it, one that was sent there takes the end as the span gives it (`Scanner.Closes`). The byte is
the same, the point only if the span ends at the point that counting leads to (`Span.IsMeasured`).

`Scanner.Reachable` are the scanners that reading, marking and sending back lead to, where a scanner
is sent only to places that such scanners have noted (`Scanner.Notes`). All of them are charted
(`Scanner.Reachable.charted`).
-/

namespace Reparse

namespace Text

/-- No character reaches over the offset. -/
def IsSeam (text : Text) (offset : Nat) : Prop :=
  ∀ place < offset, ∀ decoded ∈ Utf8.next? text place, place + decoded.size ≤ offset

instance (text : Text) (offset : Nat) : Decidable (text.IsSeam offset) :=
  inferInstanceAs (Decidable (∀ place < offset, _))

/-- It is enough that nothing that is read of the text from its beginning reaches over the offset: a
byte within a character is read alone. -/
theorem isSeam_iff {text : Text} {offset : Nat} :
    text.IsSeam offset ↔ ∀ reading ∈ Utf8.readings text 0, reading.offset < offset →
      reading.offset + reading.size ≤ offset := by
  constructor
  · intro seam reading member early
    exact seam _ early _ (Utf8.next_of_mem_readings member)
  · intro seams place early decoded read
    have inside : place ∈ (Utf8.readings text 0).flatMap Utf8.Reading.bytes := by
      rw [Utf8.flatMap_bytes_readings, List.mem_range'_1]
      have spec := Utf8.next_spec read
      omega
    rcases List.mem_flatMap.mp inside with ⟨reading, member, within⟩
    rcases List.mem_range'_1.mp within with ⟨begun, short⟩
    have ends := seams reading member (Nat.lt_of_le_of_lt begun early)
    have whole := Utf8.next_of_mem_readings member
    rcases Nat.eq_or_lt_of_le begun with rfl | later
    · obtain rfl := Option.some.inj (whole.symm.trans read)
      exact ends
    · have alone := Utf8.size_of_within whole later short read
      omega

/-- The spans are in order, and no character reaches over the end of one that is not empty. -/
structure Uncut (text : Text) (spans : List Span) : Prop where
  ordered : Span.Ordered 0 spans
  seams : ∀ span ∈ spans, span.start.bytes < span.stop.bytes → text.IsSeam span.stop.bytes

theorem uncut_of_firstMisplaced {text : Text} {spans : List Span}
    (ordered : Span.firstMisplaced spans = none)
    (seams : ∀ span ∈ spans, span.start.bytes < span.stop.bytes → text.IsSeam span.stop.bytes) :
    text.Uncut spans :=
  ⟨Span.ordered_of_firstMisplacedFrom ordered, seams⟩

end Text

namespace Span

/-- The position of an offset, counted from the start of the span. -/
def positionOf (text : Text) (span : Span) (offset : Nat) : Extent :=
  span.start + text.width span.start.bytes (offset - span.start.bytes)

/-- The span ends at the point that counting from its start leads to. -/
def IsMeasured (text : Text) (span : Span) : Prop :=
  span.stop = span.positionOf text span.stop.bytes

instance (text : Text) (span : Span) : Decidable (span.IsMeasured text) :=
  inferInstanceAs (Decidable (_ = _))

variable {text : Text} {span : Span} {offset : Nat}

theorem positionOf_start : span.positionOf text span.start.bytes = span.start := by
  rw [positionOf, Nat.sub_self, Text.width_zero, Extent.append_zero]

theorem bytes_positionOf (begun : span.start.bytes ≤ offset) :
    (span.positionOf text offset).bytes = offset := by
  rw [positionOf, Extent.bytes_add, Text.bytes_width]
  omega

theorem past_positionOf (begun : span.start.bytes ≤ offset) {decoded : Utf8.Decoded}
    (read : Utf8.next? text offset = some decoded) :
    Scanner.past (span.positionOf text offset) decoded.char decoded.size =
      span.positionOf text (offset + decoded.size) := by
  have parts := @Text.width_between text span.start.bytes offset (offset + decoded.size) begun
    (Nat.le_add_right _ _)
  rw [Nat.add_sub_cancel_left] at parts
  rw [Scanner.past_eq_add read, positionOf, positionOf, Extent.append_assoc, parts]

end Span

namespace Scanner

open Text (Passed)

variable {text : Text} {spans before after : List Span} {span : Span} {position offset : Extent}
  {scanner other : Scanner}

/-! ## Where a scanner may stand -/

/-- The position lies in a span and was counted from its start. -/
structure CountedIn (text : Text) (spans before : List Span) (span : Span) (after : List Span)
    (position : Extent) : Prop where
  split : spans = before ++ span :: after
  begun : span.start.bytes ≤ position.bytes
  inside : position.bytes < span.stop.bytes
  counted : position = span.positionOf text position.bytes

/-- The position is the end of the last span, as the span gives it or counted from its start. -/
inductive Closes (text : Text) (spans : List Span) (position : Extent) : Prop where
  | blank (empty : spans = []) (same : position = Extent.zero)
  | given {last : Span} (final : spans.getLast? = some last) (same : position = last.stop)
  | counted {last : Span} (final : spans.getLast? = some last)
      (same : position = last.positionOf text last.stop.bytes)

/-- What stands at an offset: a character and its size, unless the text has ended. -/
def shown (text : Text) (offset : Nat) : Option (Char × Nat) :=
  (Utf8.next? text offset).map fun decoded => (decoded.char, decoded.size)

/-- The scanner stands in a span, or at the end of the text in a span, or it has passed all spans.
If it has read a character, that is the one that stands there. -/
structure Charted (text : Text) (spans : List Span) (scanner : Scanner) : Prop where
  text_eq : scanner.text = text
  spans_eq : scanner.spans = spans
  place : (∃ before span after, CountedIn text spans before span after scanner.position ∧
      (scanner.ahead = span :: after ∧ scanner.previous = before.getLast? ∨
        scanner.ahead = [] ∧ text.size ≤ scanner.position.bytes)) ∨
    scanner.ahead = [] ∧ Closes text spans scanner.position
  unloaded : scanner.ahead = [] → scanner.loaded = none
  loaded_eq : scanner.loaded = none ∨ scanner.loaded = shown text scanner.position.bytes

theorem shown_eq_none_iff {offset : Nat} : shown text offset = none ↔ text.size ≤ offset := by
  rw [shown, Option.map_eq_none_iff, Utf8.next_eq_none_iff]

section Places

variable (ordered : Span.Ordered 0 spans)

include ordered

theorem CountedIn.locate (counted : CountedIn text spans before span after position) :
    Scanner.locate position none spans = (before.getLast?, span :: after) := by
  rcases counted with ⟨rfl, begun, inside, _⟩
  apply locate_first fun other member => Or.inl (Nat.le_trans (ordered.stop_le member) begun)
  unfold Passed
  omega

/-- A byte lies in one span only, so it has one position. -/
theorem CountedIn.unique (counted : CountedIn text spans before span after position)
    {beforeOther afterOther : List Span} {spanOther : Span}
    (again : CountedIn text spans beforeOther spanOther afterOther offset)
    (same : position.bytes = offset.bytes) :
    position = offset ∧ before.getLast? = beforeOther.getLast? ∧
      span :: after = spanOther :: afterOther := by
  have located := counted.locate ordered
  rw [locate_congr same, again.locate ordered, Prod.mk.injEq, List.cons.injEq] at located
  rcases located with ⟨last, rfl, rfl⟩
  exact ⟨by rw [counted.counted, again.counted, same], last.symm, rfl⟩

theorem Closes.bytes_eq (closes : Closes text spans position) {last : Span}
    (final : spans.getLast? = some last) : position.bytes = last.stop.bytes := by
  cases closes with
  | blank empty _ => simp [empty] at final
  | given found same =>
      obtain rfl := Option.some.inj (final.symm.trans found)
      rw [same]
  | counted found same =>
      obtain rfl := Option.some.inj (final.symm.trans found)
      rcases List.getLast?_eq_some_iff.mp final with ⟨earlier, rfl⟩
      rw [same, Span.bytes_positionOf ordered.start_le_stop]

/-- The end of the last span lies behind all spans. -/
theorem Closes.stop_le (closes : Closes text spans position) (member : span ∈ spans) :
    span.stop.bytes ≤ position.bytes := by
  rcases List.append_of_mem member with ⟨before, after, rfl⟩
  obtain ⟨last, final⟩ : ∃ last, (before ++ span :: after).getLast? = some last :=
    Option.ne_none_iff_exists'.mp (by simp)
  rw [closes.bytes_eq ordered final]
  exact ordered.stop_le_final final

end Places

theorem Closes.eq_zero (closes : Closes text spans position) (empty : spans = []) :
    position = Extent.zero := by
  cases closes with
  | blank _ same => exact same
  | given final _ => simp [empty] at final
  | counted final _ => simp [empty] at final

theorem Closes.eq_stop (closes : Closes text spans position) {last : Span}
    (final : spans.getLast? = some last) (measured : last.IsMeasured text) :
    position = last.stop := by
  cases closes with
  | blank empty _ => simp [empty] at final
  | given found same =>
      obtain rfl := Option.some.inj (final.symm.trans found)
      exact same
  | counted found same =>
      obtain rfl := Option.some.inj (final.symm.trans found)
      exact same.trans measured.symm

theorem Closes.same_bytes (ordered : Span.Ordered 0 spans) (closes : Closes text spans position)
    (again : Closes text spans offset) : position.bytes = offset.bytes := by
  cases final : spans.getLast? with
  | none =>
      have empty := List.getLast?_eq_none_iff.mp final
      rw [closes.eq_zero empty, again.eq_zero empty]
  | some last => rw [closes.bytes_eq ordered final, again.bytes_eq ordered final]

/-- Where the last span ends at the point that counting leads to, its end is one position. -/
theorem Closes.unique (closes : Closes text spans position) (again : Closes text spans offset)
    (measured : ∀ last, spans.getLast? = some last → last.IsMeasured text) : position = offset := by
  cases final : spans.getLast? with
  | none =>
      have empty := List.getLast?_eq_none_iff.mp final
      rw [closes.eq_zero empty, again.eq_zero empty]
  | some last =>
      rw [closes.eq_stop final (measured last final), again.eq_stop final (measured last final)]

/-! ## Reading on -/

/-- A scanner that has passed all spans is charted. -/
theorem Closes.charted (closes : Closes text spans scanner.position) (text_eq : scanner.text = text)
    (spans_eq : scanner.spans = spans) (ended : scanner.ahead = [])
    (unloaded : scanner.loaded = none) : scanner.Charted text spans :=
  ⟨text_eq, spans_eq, Or.inr ⟨ended, closes⟩, fun _ => unloaded, Or.inl unloaded⟩

theorem Charted.of_samePlace (charted : scanner.Charted text spans)
    (same : scanner.SamePlace other) (loaded_eq : other.loaded = scanner.loaded) :
    other.Charted text spans where
  text_eq := same.text_eq.trans charted.text_eq
  spans_eq := same.spans_eq.trans charted.spans_eq
  place := by
    rw [same.position_eq, same.ahead_eq, same.previous_eq]
    exact charted.place
  unloaded := by
    rw [same.ahead_eq, loaded_eq]
    exact charted.unloaded
  loaded_eq := by
    rw [same.position_eq, loaded_eq]
    exact charted.loaded_eq

/-- A scanner that is not at the end stands in the first span ahead. -/
theorem Charted.countedIn (charted : scanner.Charted text spans) (more : scanner.ahead ≠ []) :
    ∃ before span after, CountedIn text spans before span after scanner.position ∧
      scanner.ahead = span :: after ∧ scanner.previous = before.getLast? := by
  rcases charted.place with ⟨before, span, after, counted, here | ended⟩ | ended
  · exact ⟨before, span, after, counted, here⟩
  · exact absurd ended.1 more
  · exact absurd ended.1 more

/-- Reading in a span shows what stands there. -/
theorem CountedIn.load (counted : CountedIn text spans before span after scanner.position)
    (text_eq : scanner.text = text) (spans_eq : scanner.spans = spans)
    (ahead : scanner.ahead = span :: after) (previous : scanner.previous = before.getLast?) :
    scanner.load.Charted text spans := by
  subst text_eq
  unfold Scanner.load
  cases read : Utf8.next? scanner.text scanner.position.bytes with
  | none =>
      exact ⟨rfl, spans_eq, Or.inl ⟨before, span, after, counted,
        Or.inr ⟨rfl, Utf8.next_eq_none_iff.mp read⟩⟩, fun _ => rfl, Or.inl rfl⟩
  | some decoded =>
      refine ⟨rfl, spans_eq, Or.inl ⟨before, span, after, counted, Or.inl ⟨ahead, previous⟩⟩,
        fun ended => ?_, Or.inr ?_⟩
      · rw [ahead] at ended
        cases ended
      · rw [shown, read]
        rfl

theorem Charted.load (charted : scanner.Charted text spans) (more : scanner.ahead ≠ []) :
    scanner.load.Charted text spans := by
  rcases charted.countedIn more with ⟨before, span, after, counted, ahead, previous⟩
  exact counted.load charted.text_eq charted.spans_eq ahead previous

/-- A scanner that has counted its position up to the end of a span or less settles in the span, at
the start of a later one, or behind all spans. -/
theorem charted_settle (ordered : Span.Ordered 0 (before ++ span :: after))
    (begun : span.start.bytes ≤ position.bytes) (inside : position.bytes ≤ span.stop.bytes)
    (inhabited : span.start.bytes < span.stop.bytes)
    (counted : position = span.positionOf text position.bytes) :
    ∃ place previous ahead,
      settle position before.getLast? (span :: after) = (place, previous, ahead) ∧
      ((∃ earlier next rest, CountedIn text (before ++ span :: after) earlier next rest place ∧
          ahead = next :: rest ∧ previous = earlier.getLast?) ∨
        ahead = [] ∧ Closes text (before ++ span :: after) place) := by
  have settles := settles_settle position before.getLast? span after
  generalize settle position before.getLast? (span :: after) = result at settles
  rcases result with ⟨place, previous, ahead⟩
  refine ⟨place, previous, ahead, rfl, ?_⟩
  cases settles with
  | stays short =>
      exact Or.inl ⟨before, span, after, ⟨rfl, begun, short, counted⟩, rfl, rfl⟩
  | @enters passed rest next last behind split empty final shows =>
      refine Or.inl ⟨before ++ span :: passed, next, rest,
        ⟨by simp [split], Nat.le_refl _, shows, Span.positionOf_start.symm⟩, rfl, ?_⟩
      rw [List.getLast?_append, final, Option.some_or]
  | ends behind empty =>
      refine Or.inr ⟨rfl, ?_⟩
      have reached : position.bytes = span.stop.bytes := by
        unfold Passed at behind
        omega
      cases final : after.getLast? with
      | none =>
          obtain rfl := List.getLast?_eq_none_iff.mp final
          rw [Option.map_none, Option.getD_none]
          rw [reached] at counted
          exact .counted (by simp) counted
      | some last =>
          rcases List.getLast?_eq_some_iff.mp final with ⟨passed, rfl⟩
          have bare := empty last (List.mem_append_right _ (List.mem_singleton_self _))
          have again : before ++ span :: (passed ++ [last]) =
              (before ++ span :: passed) ++ [last] := by simp
          have forward := (again ▸ ordered).start_le_stop
          have same : last.start = last.positionOf text last.stop.bytes := by
            rw [Nat.le_antisymm bare forward, Span.positionOf_start]
          rw [Option.map_some, Option.getD_some]
          exact .counted (by rw [again, List.getLast?_concat]) same

/-- Behind the character that is loaded the position is still counted from the start of the span. -/
theorem Charted.reached (uncut : text.Uncut spans) (charted : scanner.Charted text spans)
    (counted : CountedIn text spans before span after scanner.position) :
    span.start.bytes ≤ scanner.reached.bytes ∧ scanner.reached.bytes ≤ span.stop.bytes ∧
      scanner.reached = span.positionOf text scanner.reached.bytes := by
  have begun := counted.begun
  have inside := counted.inside
  unfold Scanner.reached
  cases loaded : scanner.loaded with
  | none => exact ⟨begun, Nat.le_of_lt inside, counted.counted⟩
  | some pair =>
      have shows := charted.loaded_eq
      rw [loaded] at shows
      obtain ⟨decoded, read, rfl⟩ := Option.map_eq_some_iff.mp (shows.resolve_left nofun).symm
      have short := uncut.seams span (by rw [counted.split]; simp) (by omega) _ inside decoded read
      have bytes := bytes_past scanner.position decoded.char decoded.size
      dsimp only
      refine ⟨by omega, by omega, ?_⟩
      rw [bytes, ← Span.past_positionOf begun read, ← counted.counted]

theorem Charted.step (uncut : text.Uncut spans) (charted : scanner.Charted text spans)
    (more : scanner.ahead ≠ []) (skip : Bool) : (scanner.step skip).Charted text spans := by
  rcases charted.countedIn more with ⟨before, span, after, counted, ahead, previous⟩
  rcases charted.reached uncut counted with ⟨begun, inside, along⟩
  have inhabited := Nat.lt_of_le_of_lt counted.begun counted.inside
  obtain rfl := counted.split
  rcases charted_settle uncut.ordered begun inside inhabited along with
    ⟨place, last, later, settles, ends⟩
  rw [← ahead, ← previous] at settles
  rw [step_eq_of_reached settles]
  rcases ends with ⟨earlier, next, rest, there, rfl, rfl⟩ | ⟨rfl, closes⟩
  · rw [if_neg (by simp)]
    exact CountedIn.load there charted.text_eq charted.spans_eq rfl rfl
  · exact Closes.charted closes charted.text_eq charted.spans_eq rfl rfl

theorem Charted.advance (uncut : text.Uncut spans) (charted : scanner.Charted text spans)
    (skip : Bool) : (scanner.advance skip).Charted text spans := by
  unfold Scanner.advance
  split_ifs with ended
  · exact charted
  · have reported := charted.of_samePlace
      (samePlace_report scanner (.passed skip scanner.lookahead)) rfl
    exact reported.step uncut (fun none => ended (atEnd_eq_true.mpr none)) skip

theorem Charted.runToEnd (uncut : text.Uncut spans) (charted : scanner.Charted text spans) :
    scanner.runToEnd.Charted text spans := by
  induction scanner using runToEnd.induct with
  | case1 scanner ended =>
      rw [Scanner.runToEnd, if_pos ended]
      exact charted
  | case2 scanner more next less ih =>
      rw [Scanner.runToEnd, if_neg more]
      dsimp only
      rw [if_pos less]
      exact ih (charted.step uncut (fun none => more (atEnd_eq_true.mpr none)) false)
  | case3 scanner more next still =>
      rw [Scanner.runToEnd, if_neg more]
      dsimp only
      rw [if_neg still]
      exact charted.step uncut (fun none => more (atEnd_eq_true.mpr none)) false

theorem Charted.finish (charted : scanner.Charted text spans) :
    scanner.finish.1.Charted text spans :=
  charted.of_samePlace (samePlace_finish scanner) (loaded_finish scanner)

/-! ## Beginning a token -/

theorem Charted.primed (charted : scanner.Charted text spans) :
    scanner.primed.Charted text spans := by
  unfold Scanner.primed
  split_ifs with ready
  · exact charted
  · rw [Bool.or_eq_true, not_or] at ready
    exact charted.load fun ended => ready.1 (atEnd_eq_true.mpr ended)

theorem Charted.start (uncut : text.Uncut spans) (charted : scanner.Charted text spans) :
    scanner.start.Charted text spans := by
  have ready := (charted.of_samePlace (samePlace_fresh scanner) rfl).primed
  rw [start_eq charted.unloaded]
  split_ifs with mark
  · refine ready.step uncut (fun ended => ?_) true
    rw [lookahead_of_unloaded (ready.unloaded ended)] at mark
    exact absurd mark.2 (by decide)
  · exact ready

/-! ## Being sent somewhere -/

theorem charted_goTo_of_passed (text_eq : scanner.text = text) (spans_eq : scanner.spans = spans)
    (passed : ∀ span ∈ spans, Passed offset.bytes span)
    (blank : spans = [] → offset = Extent.zero) :
    (scanner.goTo offset).Charted text spans ∧ Closes text spans (scanner.goTo offset).position := by
  have located := locate_of_passed passed
  unfold goTo
  rw [spans_eq]
  cases found : Scanner.locate offset none spans with
  | mk previous ahead =>
      rw [found] at located
      subst located
      dsimp only
      cases final : spans.getLast? with
      | none =>
          have empty := List.getLast?_eq_none_iff.mp final
          have closes : Closes text spans offset := .blank empty (blank empty)
          exact ⟨Closes.charted closes text_eq rfl rfl rfl, closes⟩
      | some last =>
          have closes : Closes text spans last.stop := .given final rfl
          exact ⟨Closes.charted closes text_eq rfl rfl rfl, closes⟩

/-- A scanner that is sent to a position in a span, or to one before it, comes into the span. -/
theorem charted_goTo_of_first (text_eq : scanner.text = text) (spans_eq : scanner.spans = spans)
    (split : spans = before ++ span :: after) (passed : ∀ other ∈ before, Passed offset.bytes other)
    (first : ¬Passed offset.bytes span)
    (counted : span.start.bytes < offset.bytes → offset = span.positionOf text offset.bytes) :
    (scanner.goTo offset).Charted text spans ∧
      (scanner.goTo offset).position.bytes = max offset.bytes span.start.bytes := by
  have shows : offset.bytes < span.stop.bytes ∧ span.start.bytes < span.stop.bytes := by
    unfold Passed at first
    omega
  rw [goTo_of_first (spans_eq.trans split) passed first]
  generalize placed : (if offset.bytes ≤ span.start.bytes then span.start else offset) = place
  have there : CountedIn text spans before span after place ∧
      place.bytes = max offset.bytes span.start.bytes := by
    subst placed
    split_ifs with early
    · exact ⟨⟨split, Nat.le_refl _, shows.2, Span.positionOf_start.symm⟩,
        (Nat.max_eq_right early).symm⟩
    · exact ⟨⟨split, by omega, shows.1, counted (by omega)⟩, (Nat.max_eq_left (by omega)).symm⟩
  exact ⟨⟨text_eq, spans_eq, Or.inl ⟨before, span, after, there.1, Or.inl ⟨rfl, rfl⟩⟩, nofun,
    Or.inl rfl⟩, there.2⟩

theorem charted_new (text : Text) (spans : List Span) :
    (Scanner.new text spans).Charted text spans := by
  let blank : Scanner :=
    { text, spans, previous := none, ahead := spans, position := Extent.zero
      tokenStart := Extent.zero, tokenStop := none, loaded := none, malformed := false
      symbol := 0, log := [] }
  change (blank.goTo Extent.zero).Charted text spans
  rcases exists_first Extent.zero.bytes spans with
    passed | ⟨before, span, after, split, passed, first⟩
  · exact (@charted_goTo_of_passed text spans Extent.zero blank rfl rfl passed fun _ => rfl).1
  · exact (@charted_goTo_of_first text spans before after span Extent.zero blank rfl rfl split
      passed first fun late => absurd late (Nat.not_lt_zero _)).1

/-- The place where a scanner stands, or where it would let a token end. -/
def Notes (scanner : Scanner) (offset : Extent) : Prop :=
  offset = scanner.position ∨ offset = scanner.tokenBoundary

/-- A scanner that stands between an earlier span and a later one stands where the later one
begins. -/
theorem Charted.bytes_of_between (ordered : Span.Ordered 0 (before ++ span :: after))
    (charted : scanner.Charted text (before ++ span :: after))
    (inhabited : span.start.bytes < span.stop.bytes)
    (behind : ∀ other ∈ before, other.stop.bytes ≤ scanner.position.bytes)
    (early : scanner.position.bytes ≤ span.start.bytes) :
    scanner.position.bytes = span.start.bytes := by
  rcases charted.place with ⟨_, next, _, counted, _⟩ | ⟨_, closes⟩
  · have begun := counted.begun
    have inside := counted.inside
    have member : next ∈ before ++ span :: after := by rw [counted.split]; simp
    rcases List.mem_append.mp member with passed | member
    · have ended := behind next passed
      omega
    · rcases List.mem_cons.mp member with rfl | later
      · omega
      · have begins := ordered.tail.start_le later
        omega
  · have passed := closes.stop_le ordered (List.mem_append_right _ List.mem_cons_self)
    omega

section Sending

variable (ordered : Span.Ordered 0 spans)

include ordered

/-- The place noted may be the end of an earlier span, if the scanner stands where a span begins. -/
theorem Charted.of_notes (charted : scanner.Charted text spans) (notes : scanner.Notes offset) :
    offset = scanner.position ∨ ∃ before span after,
      CountedIn text spans before span after scanner.position ∧
        scanner.position.bytes = span.start.bytes ∧ offset.bytes ≤ span.start.bytes ∧
          ∀ other ∈ before, other.stop.bytes ≤ offset.bytes := by
  rcases notes with same | rfl
  · exact Or.inl same
  · rw [tokenBoundary_eq]
    by_cases ended : scanner.ahead = []
    · rw [ended]
      exact Or.inl rfl
    · rcases charted.countedIn ended with ⟨before, span, after, counted, ahead, previous⟩
      rw [ahead, previous]
      cases found : before.getLast? with
      | none => exact Or.inl rfl
      | some last =>
          simp only [boundary]
          split_ifs with first
          · rcases (counted.split ▸ ordered).le_last found with ⟨earlier, behind⟩
            exact Or.inr ⟨before, span, after, counted, first, behind, earlier⟩
          · exact Or.inl rfl

/-- A scanner that is sent to a place noted comes to the byte where the place was noted. -/
theorem Charted.goTo (charted : scanner.Charted text spans) (notes : scanner.Notes offset)
    (text_eq : other.text = text) (spans_eq : other.spans = spans) :
    (other.goTo offset).Charted text spans ∧
      (other.goTo offset).position.bytes = scanner.position.bytes := by
  rcases charted.of_notes ordered notes with rfl |
    ⟨before, span, after, counted, first, early, earlier⟩
  · rcases charted.place with ⟨before, span, after, counted, _⟩ | ⟨_, closes⟩
    · have inside := counted.inside
      have begun := counted.begun
      have passed : ∀ other ∈ before, Passed scanner.position.bytes other := fun other member =>
        Or.inl (Nat.le_trans ((counted.split ▸ ordered).stop_le member) begun)
      have sent := charted_goTo_of_first text_eq spans_eq counted.split passed
        (by unfold Passed; omega) fun _ => counted.counted
      rwa [Nat.max_eq_left begun] at sent
    · have passed : ∀ span ∈ spans, Passed scanner.position.bytes span := fun span member =>
        Or.inl (closes.stop_le ordered member)
      rcases charted_goTo_of_passed text_eq spans_eq passed closes.eq_zero with ⟨sent, closed⟩
      exact ⟨sent, closed.same_bytes ordered closes⟩
  · have inside := counted.inside
    have sent := charted_goTo_of_first text_eq spans_eq counted.split
      (fun other member => Or.inl (earlier other member)) (by unfold Passed; omega)
      fun late => absurd early (by omega)
    rwa [Nat.max_eq_right early, ← first] at sent

theorem Charted.reset (charted : scanner.Charted text spans) (notes : scanner.Notes offset)
    (sent : other.Charted text spans) :
    (other.reset offset).Charted text spans ∧
      (other.reset offset).position.bytes = scanner.position.bytes := by
  unfold Scanner.reset
  split_ifs with here
  · refine ⟨sent, here.symm.trans ?_⟩
    rcases charted.of_notes ordered notes with rfl |
      ⟨before, span, after, counted, first, early, earlier⟩
    · rfl
    · -- the other scanner is not moved, so it stands before the span already
      have inhabited := Nat.lt_of_le_of_lt counted.begun counted.inside
      rw [here] at early earlier ⊢
      rw [first]
      obtain rfl := counted.split
      exact sent.bytes_of_between ordered inhabited earlier early
  · exact charted.goTo ordered notes sent.text_eq sent.spans_eq

end Sending

/-! ## Every scanner of a text -/

/-- Every scanner of a text and spans that scans come to, sent back any number of times to places
that such scanners have noted. -/
inductive Reachable (text : Text) (spans : List Span) : Scanner → Prop where
  | new : Reachable text spans (Scanner.new text spans)
  | start {scanner : Scanner} (reachable : Reachable text spans scanner) :
      Reachable text spans scanner.start
  | advance {scanner : Scanner} (reachable : Reachable text spans scanner) (skip : Bool) :
      Reachable text spans (scanner.advance skip)
  | markEnd {scanner : Scanner} (reachable : Reachable text spans scanner) :
      Reachable text spans scanner.markEnd
  | accept {scanner : Scanner} (reachable : Reachable text spans scanner) (symbol : Nat) :
      Reachable text spans (scanner.accept symbol)
  | finish {scanner : Scanner} (reachable : Reachable text spans scanner) :
      Reachable text spans scanner.finish.1
  | report {scanner : Scanner} (reachable : Reachable text spans scanner) (notice : Notice) :
      Reachable text spans (scanner.report notice)
  | skipToEnd {scanner : Scanner} (reachable : Reachable text spans scanner) :
      Reachable text spans scanner.skipToEnd
  | reset {scanner other : Scanner} {offset : Extent} (reachable : Reachable text spans scanner)
      (reached : Reachable text spans other) (notes : other.Notes offset) :
      Reachable text spans (scanner.reset offset)

theorem Reachable.charted (uncut : text.Uncut spans) (reachable : Reachable text spans scanner) :
    scanner.Charted text spans := by
  induction reachable with
  | new => exact charted_new text spans
  | start _ ih => exact ih.start uncut
  | advance _ skip ih => exact ih.advance uncut skip
  | @markEnd scanner _ ih => exact ih.of_samePlace (samePlace_markEnd scanner) rfl
  | accept _ symbol ih => exact ih.of_samePlace (samePlace_accept _ symbol) rfl
  | finish _ ih => exact ih.finish
  | @report scanner _ notice ih => exact ih.of_samePlace (samePlace_report scanner notice) rfl
  | @skipToEnd scanner _ ih =>
      rw [skipToEnd_eq]
      exact ih.primed.runToEnd uncut
  | reset _ _ notes sent noted => exact (noted.reset uncut.ordered notes sent).1

end Scanner

end Reparse
