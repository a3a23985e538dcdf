import Reparse.Proofs.Scanner.Charted

/-!
# Returning to a place

A parser sends its scanner back to where a token ended, and reads on from there: to take the next
token, to take a token again, or behind a subtree that it takes over. Nothing is lost by that. Two
scanners that have come to one byte, on whatever ways, see the same when they begin a token there
(`Scanner.Charted.meet`), and go on alike (`Scanner.Alike`). So a scanner that is sent to a place
which another one has noted goes on as the other one does there (`Scanner.reset_resumes`).

One thing is left of the way. Behind the last span, a scanner that has read up to the end may have
counted another point than the span gives, and a scanner that is sent there takes the point of the
span (`Scanner.reset_takes_stop`).
-/

namespace Reparse

namespace Scanner

variable {text : Text} {spans : List Span} {span : Span} {after : List Span}
  {position offset : Extent} {scanner other : Scanner}

/-! ## Going on alike -/

/-- Two scanners of one text stand in the same place and have the same before them. -/
structure Alike (scanner other : Scanner) : Prop where
  text_eq : other.text = scanner.text
  position_eq : other.position = scanner.position
  ahead_eq : other.ahead = scanner.ahead
  loaded_eq : other.loaded = scanner.loaded
  previous_eq : scanner.ahead ≠ [] → other.previous = scanner.previous

/-- The scanner after so many steps, each of which may skip. -/
def advances (scanner : Scanner) (skips : List Bool) : Scanner := skips.foldl advance scanner

namespace Alike

theorem symm (alike : scanner.Alike other) : other.Alike scanner where
  text_eq := alike.text_eq.symm
  position_eq := alike.position_eq.symm
  ahead_eq := alike.ahead_eq.symm
  loaded_eq := alike.loaded_eq.symm
  previous_eq more := (alike.previous_eq (alike.ahead_eq ▸ more)).symm

theorem trans {third : Scanner} (alike : scanner.Alike other) (again : other.Alike third) :
    scanner.Alike third where
  text_eq := again.text_eq.trans alike.text_eq
  position_eq := again.position_eq.trans alike.position_eq
  ahead_eq := again.ahead_eq.trans alike.ahead_eq
  loaded_eq := again.loaded_eq.trans alike.loaded_eq
  previous_eq more := (again.previous_eq (alike.ahead_eq ▸ more)).trans (alike.previous_eq more)

theorem of_samePlace (same : scanner.SamePlace other) (loaded_eq : other.loaded = scanner.loaded) :
    scanner.Alike other :=
  ⟨same.text_eq, same.position_eq, same.ahead_eq, loaded_eq, fun _ => same.previous_eq⟩

section

variable (alike : scanner.Alike other)

include alike

theorem lookahead : other.lookahead = scanner.lookahead := by
  rw [Scanner.lookahead, alike.loaded_eq, Scanner.lookahead]

theorem atEnd : other.atEnd = scanner.atEnd := by
  rw [Scanner.atEnd, alike.ahead_eq, Scanner.atEnd]

theorem load : scanner.load.Alike other.load := by
  unfold Scanner.load
  rw [alike.text_eq, alike.position_eq]
  cases Utf8.next? scanner.text scanner.position.bytes with
  | none => exact ⟨rfl, rfl, rfl, rfl, fun more => absurd rfl more⟩
  | some decoded => exact ⟨rfl, rfl, alike.ahead_eq, rfl, alike.previous_eq⟩

theorem primed : scanner.primed.Alike other.primed := by
  unfold Scanner.primed
  rw [alike.atEnd, alike.loaded_eq]
  split_ifs
  · exact alike
  · exact alike.load

theorem reached : other.reached = scanner.reached := by
  rw [Scanner.reached, alike.loaded_eq, alike.position_eq, Scanner.reached]

/-- Alike scanners settle in the same place. What they know of the span before it may differ only
behind all spans. -/
theorem settle : ∃ place last lastOther later,
    Scanner.settle scanner.reached scanner.previous scanner.ahead = (place, last, later) ∧
      Scanner.settle other.reached other.previous other.ahead = (place, lastOther, later) ∧
        (later ≠ [] → lastOther = last) := by
  rw [alike.reached, alike.ahead_eq]
  by_cases ended : scanner.ahead = []
  · rw [ended]
    exact ⟨_, _, _, [], rfl, rfl, fun more => absurd rfl more⟩
  · rw [alike.previous_eq ended]
    exact ⟨_, _, _, _, rfl, rfl, fun _ => rfl⟩

theorem step (skip : Bool) : (scanner.step skip).Alike (other.step skip) := by
  rcases alike.settle with ⟨place, last, lastOther, later, settles, otherSettles, same⟩
  rw [step_eq_of_reached settles, step_eq_of_reached otherSettles]
  split
  · rename_i ended
    exact ⟨alike.text_eq, rfl, rfl, rfl, fun more => absurd (List.isEmpty_iff.mp ended) more⟩
  · refine load ?_
    exact ⟨alike.text_eq, rfl, rfl, alike.loaded_eq, same⟩

theorem advance (skip : Bool) : (scanner.advance skip).Alike (other.advance skip) := by
  have reported (scanner : Scanner) (notice : Notice) : scanner.Alike (scanner.report notice) :=
    of_samePlace (samePlace_report scanner notice) rfl
  unfold Scanner.advance
  rw [alike.atEnd]
  split_ifs
  · exact alike
  · exact step (((reported scanner _).symm.trans alike).trans (reported other _)) skip

end

theorem advances (alike : scanner.Alike other) (skips : List Bool) :
    (scanner.advances skips).Alike (other.advances skips) := by
  induction skips generalizing scanner other with
  | nil => exact alike
  | cons skip rest ih => exact ih (alike.advance skip)

/-- Scanners that are alike once they have read begin a token alike. -/
theorem start (alike : scanner.primed.Alike other.primed)
    (unloaded : scanner.ahead = [] → scanner.loaded = none)
    (otherUnloaded : other.ahead = [] → other.loaded = none) :
    scanner.start.Alike other.start := by
  have unmarked (scanner : Scanner) : scanner.primed.Alike scanner.fresh.primed :=
    (of_samePlace (samePlace_fresh scanner) rfl).primed
  have ready : scanner.fresh.primed.Alike other.fresh.primed :=
    ((unmarked scanner).symm.trans alike).trans (unmarked other)
  rw [start_eq unloaded, start_eq otherUnloaded, ready.position_eq, ready.lookahead]
  split_ifs
  · exact ready.step true
  · exact ready

end Alike

/-! ## Coming to one byte -/

/-- The scanner has read what stands at a position before which one span lies and behind which
others lie ahead. -/
structure Sees (text : Text) (previous : Option Span) (ahead : List Span) (position : Extent)
    (scanner : Scanner) : Prop where
  text_eq : scanner.text = text
  position_eq : scanner.position = position
  loaded_eq : scanner.loaded = shown text position.bytes
  ahead_eq : scanner.ahead = if text.size ≤ position.bytes then [] else ahead
  previous_eq : scanner.ahead ≠ [] → scanner.previous = previous

theorem Sees.alike {previous : Option Span} {ahead : List Span}
    (sees : scanner.Sees text previous ahead position)
    (also : other.Sees text previous ahead position) : scanner.Alike other where
  text_eq := also.text_eq.trans sees.text_eq.symm
  position_eq := also.position_eq.trans sees.position_eq.symm
  ahead_eq := also.ahead_eq.trans sees.ahead_eq.symm
  loaded_eq := also.loaded_eq.trans sees.loaded_eq.symm
  previous_eq more := by
    rw [sees.previous_eq more]
    exact also.previous_eq (by rwa [also.ahead_eq, ← sees.ahead_eq])

/-- In a span reading tells what stands there, whether it was known before or not. -/
theorem Charted.sees (charted : scanner.Charted text spans) {previous : Option Span}
    (here : scanner.ahead = span :: after ∧ scanner.previous = previous ∨
      scanner.ahead = [] ∧ text.size ≤ scanner.position.bytes) :
    scanner.primed.Sees text previous (span :: after) scanner.position := by
  rcases here with ⟨ahead, known⟩ | ⟨ended, beyond⟩
  · have more : scanner.atEnd = false := by rw [Scanner.atEnd, ahead]; rfl
    cases loaded : scanner.loaded with
    | some pair =>
        have shows := charted.loaded_eq.resolve_left (by simp [loaded])
        have within : ¬text.size ≤ scanner.position.bytes := by
          rw [← shown_eq_none_iff, ← shows, loaded]
          exact Option.some_ne_none pair
        rw [Scanner.primed, if_pos (by simp [loaded])]
        exact ⟨charted.text_eq, rfl, shows, by rw [if_neg within, ahead], fun _ => known⟩
    | none =>
        rw [Scanner.primed, if_neg (by simp [loaded, more])]
        obtain rfl := charted.text_eq
        unfold Scanner.load
        cases read : Utf8.next? scanner.text scanner.position.bytes with
        | none =>
            have beyond := Utf8.next_eq_none_iff.mp read
            exact ⟨rfl, rfl, (shown_eq_none_iff.mpr beyond).symm, (if_pos beyond).symm,
              fun more => absurd rfl more⟩
        | some decoded =>
            have within : ¬scanner.text.size ≤ scanner.position.bytes := by
              rw [← Utf8.next_eq_none_iff, read]
              exact Option.some_ne_none decoded
            exact ⟨rfl, rfl, by rw [shown, read]; rfl, by rw [if_neg within]; exact ahead,
              fun _ => known⟩
  · rw [Scanner.primed, if_pos (by rw [atEnd_eq_true.mpr ended]; rfl)]
    refine ⟨charted.text_eq, rfl, ?_, by rw [if_pos beyond, ended], fun more => absurd ended more⟩
    rw [charted.unloaded ended, shown_eq_none_iff.mpr beyond]

/-- Two scanners at one byte see the same, unless both have passed all spans. -/
theorem Charted.meet (ordered : Span.Ordered 0 spans) (charted : scanner.Charted text spans)
    (also : other.Charted text spans) (same : other.position.bytes = scanner.position.bytes) :
    scanner.primed.Alike other.primed ∨
      (scanner.ahead = [] ∧ Closes text spans scanner.position) ∧
        other.ahead = [] ∧ Closes text spans other.position := by
  rcases charted.place with ⟨before, span, after, counted, here⟩ | closed
  · rcases also.place with ⟨beforeOther, spanOther, afterOther, again, there⟩ | ⟨_, closes⟩
    · left
      rcases counted.unique ordered again same.symm with ⟨position, last, ahead⟩
      have sees := charted.sees here
      rw [position, last, ahead] at sees
      exact sees.alike (also.sees there)
    · have inside := counted.inside
      have behind := closes.stop_le ordered (by rw [counted.split]; simp : span ∈ spans)
      omega
  · rcases also.place with ⟨before, span, after, again, _⟩ | closes
    · have inside := again.inside
      have behind := closed.2.stop_le ordered (by rw [again.split]; simp : span ∈ spans)
      omega
    · exact Or.inr ⟨closed, closes⟩

theorem advances_of_ended (ended : scanner.ahead = []) (skips : List Bool) :
    scanner.advances skips = scanner := by
  induction skips with
  | nil => rfl
  | cons skip rest ih =>
      have still : scanner.advance skip = scanner := if_pos (atEnd_eq_true.mpr ended)
      change (scanner.advance skip).advances rest = scanner
      rw [still]
      exact ih

/-- A scanner that is sent to a place noted by another one, and begins a token there, reports the
same characters, the same ends and the same bytes of its positions as the other one that begins a
token, however far they go on. The points of the positions are the same too, unless the other
scanner stands at the end of the last span and that span does not end at the point that counting
leads to. -/
theorem reset_resumes (ordered : Span.firstMisplaced spans = none)
    (seams : ∀ span ∈ spans, span.start.bytes < span.stop.bytes → text.IsSeam span.stop.bytes)
    (reachable : Reachable text spans scanner) (sent : Reachable text spans other)
    (notes : scanner.Notes offset) (skips : List Bool) :
    let resumed := scanner.start.advances skips
    let returned := (other.reset offset).start.advances skips
    returned.lookahead = resumed.lookahead ∧ returned.atEnd = resumed.atEnd ∧
      returned.position.bytes = resumed.position.bytes ∧
      ((∀ last, spans.getLast? = some last → scanner.position.bytes = last.stop.bytes →
        last.IsMeasured text) → returned.position = resumed.position) := by
  intro resumed returned
  have uncut := Text.uncut_of_firstMisplaced ordered seams
  have charted := reachable.charted uncut
  rcases charted.reset uncut.ordered notes (sent.charted uncut) with ⟨back, same⟩
  rcases charted.meet uncut.ordered back same with
    alike | ⟨⟨ended, closes⟩, otherEnded, otherCloses⟩
  · have onward : resumed.Alike returned :=
      (Alike.start alike charted.unloaded back.unloaded).advances skips
    exact ⟨onward.lookahead, onward.atEnd, by rw [onward.position_eq], fun _ => onward.position_eq⟩
  · have rests {scanner : Scanner} (ended : scanner.ahead = []) :
        scanner.start.advances skips = scanner.fresh := by
      rw [start_of_ended ended]
      exact @advances_of_ended scanner.fresh ended skips
    have resumed_eq : resumed = scanner.fresh := rests ended
    have returned_eq : returned = (other.reset offset).fresh := rests otherEnded
    rw [resumed_eq, returned_eq]
    refine ⟨?_, ?_, same, fun measured => otherCloses.unique closes fun last final => ?_⟩
    · have blank := @lookahead_of_unloaded scanner.fresh (charted.unloaded ended)
      have otherBlank := @lookahead_of_unloaded (other.reset offset).fresh (back.unloaded otherEnded)
      rw [otherBlank, blank]
    · exact (atEnd_eq_true.mpr otherEnded).trans (atEnd_eq_true.mpr ended).symm
    · exact measured last final (closes.bytes_eq uncut.ordered final)

/-- The first span ends before `é`, an empty span follows, and the last one begins behind `é`. A
scanner that has read `a` has come to the last span, where it lets a token end in the empty one; a
scanner that has gone on from there is sent back. -/
theorem reset_resumes_gap :
    let text : Text := #[0x61, 0xC3, 0xA9, 0x0A, 0x62, 0x63]
    let spans : List Span := [⟨Extent.zero, ⟨1, ⟨0, 1⟩⟩⟩, ⟨⟨1, ⟨0, 1⟩⟩, ⟨1, ⟨0, 1⟩⟩⟩,
      ⟨⟨3, ⟨0, 3⟩⟩, ⟨9, ⟨1, 5⟩⟩⟩]
    let scanner := (Scanner.new text spans).start.advance false
    let other := (scanner.advance true).advance false
    let resumed := scanner.start.advances [true]
    let returned := (other.reset ⟨1, ⟨0, 1⟩⟩).start.advances [true]
    Span.firstMisplaced spans = none ∧
      (∀ span ∈ spans, span.start.bytes < span.stop.bytes → text.IsSeam span.stop.bytes) ∧
      Reachable text spans scanner ∧ Reachable text spans other ∧ scanner.Notes ⟨1, ⟨0, 1⟩⟩ ∧
      scanner.position = ⟨3, ⟨0, 3⟩⟩ ∧ other.position = ⟨5, ⟨1, 1⟩⟩ ∧
      returned.lookahead = resumed.lookahead ∧ returned.atEnd = resumed.atEnd ∧
      returned.position = resumed.position := by
  intro text spans scanner other resumed returned
  have ordered : Span.firstMisplaced spans = none := by decide
  have seams : ∀ span ∈ spans, span.start.bytes < span.stop.bytes →
      text.IsSeam span.stop.bytes := by decide +kernel
  have reachable : Reachable text spans scanner := (Reachable.new.start).advance false
  have sent : Reachable text spans other := (reachable.advance true).advance false
  have notes : scanner.Notes ⟨1, ⟨0, 1⟩⟩ := Or.inr (by decide +kernel)
  have stands : scanner.position = ⟨3, ⟨0, 3⟩⟩ := by decide +kernel
  rcases reset_resumes ordered seams reachable sent notes [true] with ⟨shows, ends, _, same⟩
  refine ⟨ordered, seams, reachable, sent, notes, stands, by decide +kernel, shows, ends,
    same fun last final here => ?_⟩
  obtain rfl := Option.some.inj final
  rw [stands] at here
  exact absurd here (by decide)

/-- The only span gives its end another point than counting leads to. A scanner that has read all of
the text stands where counting has led it, one that is sent there stands at the end of the span. -/
theorem reset_takes_stop :
    let text : Text := #[0x31, 0x2B, 0x32]
    let spans : List Span := [⟨Extent.zero, ⟨3, ⟨7, 7⟩⟩⟩]
    let scanner := (((Scanner.new text spans).start.advance false).advance false).advance false
    let other := Scanner.new text spans
    Span.firstMisplaced spans = none ∧
      (∀ span ∈ spans, text.IsSeam span.start.bytes ∧ text.IsSeam span.stop.bytes) ∧
      Reachable text spans scanner ∧ Reachable text spans other ∧ scanner.Notes scanner.position ∧
      scanner.start.position = ⟨3, ⟨0, 3⟩⟩ ∧
      (other.reset scanner.position).start.position = ⟨3, ⟨7, 7⟩⟩ := by
  intro text spans scanner other
  have read : Reachable text spans scanner :=
    ((Reachable.new.start.advance false).advance false).advance false
  exact ⟨by decide, by decide +kernel, read, Reachable.new, Or.inl rfl, by decide +kernel,
    by decide +kernel⟩

end Scanner

end Reparse
