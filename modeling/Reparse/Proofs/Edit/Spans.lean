import Reparse.Proofs.Difference.Stretches
import Reparse.Proofs.Edit.Layout
import Reparse.Proofs.Text.Included

/-!
# Edits keep spans in order

An edit moves both ends of a span (`Span.shift`). Positions move without overtaking each other
(`Edit.shift_mono`), and a byte outside of the replaced text, moved along with the text, lies before
the same positions as it did. The end of a span that goes to the end of everything does not move; no
span begins behind it, and all that has moved lies before it.
-/

namespace Reparse

namespace Edit

variable {edit : Edit} {place other : Extent} {byte : Nat}

/-- Where a position goes, in bytes. -/
theorem bytes_shift (edit : Edit) (place : Extent) :
    (edit.shift place).bytes =
      if edit.oldStop.bytes ≤ place.bytes then
        edit.newStop.bytes + (place.bytes - edit.oldStop.bytes)
      else if edit.start.bytes < place.bytes then edit.start.bytes
      else place.bytes := by
  unfold shift
  split
  · rfl
  · split <;> rfl

/-- Positions do not overtake each other. -/
theorem shift_mono (forward : edit.Forward) (le : place.bytes ≤ other.bytes) :
    (edit.shift place).bytes ≤ (edit.shift other).bytes := by
  have old := forward.old
  have new := forward.new
  rw [bytes_shift, bytes_shift]
  split_ifs <;> omega

/-- A byte before the edit lies before a position just if it did. -/
theorem lt_shift_iff_of_before (forward : edit.Forward) (before : byte < edit.start.bytes) :
    byte < (edit.shift place).bytes ↔ byte < place.bytes := by
  have old := forward.old
  have new := forward.new
  rw [bytes_shift]
  split_ifs <;> omega

/-- A byte behind the replaced text, moved along, lies before a position just if it did. -/
theorem lt_shift_iff_of_behind (forward : edit.Forward) (behind : edit.oldStop.bytes ≤ byte) :
    byte - edit.oldStop.bytes + edit.newStop.bytes < (edit.shift place).bytes ↔
      byte < place.bytes := by
  have old := forward.old
  have new := forward.new
  rw [bytes_shift]
  split_ifs <;> omega

end Edit

namespace Span

variable {spans : List Span} {edit : Edit} {reached least byte image : Nat}

/-- The end of a span after an edit, in bytes. -/
theorem bytes_stop_shift (span : Span) (edit : Edit) :
    (span.shift edit).stop.bytes =
      if span.stop.bytes = maxOffset then maxOffset else (edit.shift span.stop).bytes := by
  simp only [shift]
  split
  · assumption
  · rfl

/-- Spans stay in order if none begins at the end of everything. -/
theorem Ordered.shift (ordered : Ordered reached spans) (forward : edit.Forward)
    (bounded : ∀ span ∈ spans, span.stop.bytes ≤ maxOffset)
    (begun : ∀ span ∈ spans, span.start.bytes ≠ maxOffset)
    (fits : ∀ span ∈ spans, (span.shift edit).start.bytes ≤ maxOffset)
    (onward : ∀ place : Extent, reached ≤ place.bytes → place.bytes < maxOffset →
      least ≤ (edit.shift place).bytes) :
    Ordered least (spans.map (·.shift edit)) := by
  induction spans generalizing reached least with
  | nil => trivial
  | cons span rest ih =>
      rcases ordered with ⟨begins, inside, later⟩
      rcases List.forall_mem_cons.mp bounded with ⟨bound, boundLater⟩
      rcases List.forall_mem_cons.mp begun with ⟨begin, begunLater⟩
      rcases List.forall_mem_cons.mp fits with ⟨fit, fitLater⟩
      have stop := bytes_stop_shift span edit
      refine ⟨onward span.start begins (by omega), ?_, ih later boundLater begunLater fitLater ?_⟩
      · rw [stop]
        split
        · exact fit
        · exact Edit.shift_mono forward inside
      · intro place behind named
        rw [stop, if_neg (by omega)]
        exact Edit.shift_mono forward behind

/-- A byte and its image lie in the same spans if they lie before the same positions. -/
theorem covers_shift_iff
    (same : ∀ place : Extent, image < (edit.shift place).bytes ↔ byte < place.bytes)
    (named : image < maxOffset ↔ byte < maxOffset) :
    Covers (spans.map (·.shift edit)) image ↔ Covers spans byte := by
  induction spans with
  | nil => simp
  | cons span rest ih =>
      have start : (span.shift edit).start.bytes ≤ image ↔ span.start.bytes ≤ byte := by
        rw [← Nat.not_lt, ← Nat.not_lt]
        exact not_congr (same span.start)
      have stop : image < (span.shift edit).stop.bytes ↔ byte < span.stop.bytes := by
        rw [bytes_stop_shift]
        split
        · rename_i all
          rw [all, named]
        · exact same span.stop
      rw [List.map_cons, covers_cons, covers_cons, start, stop, ih]

/-- Spans in order, none of which begins at the end of everything, are in order after an edit for
which their new ends can be named. They include a byte before the edit just if they did, and a byte
behind the replaced text just if they did include it where it was. -/
theorem shift_keeps_included (accepted : firstMisplaced spans = none)
    (bounded : ∀ span ∈ spans, span.stop.bytes ≤ maxOffset)
    (begun : ∀ span ∈ spans, span.start.bytes ≠ maxOffset) (forward : edit.Forward)
    (fits : ∀ span ∈ spans,
      (span.shift edit).start.bytes ≤ maxOffset ∧ (span.shift edit).stop.bytes ≤ maxOffset) :
    firstMisplaced (spans.map (·.shift edit)) = none ∧
      (∀ byte < edit.start.bytes, Covers (spans.map (·.shift edit)) byte ↔ Covers spans byte) ∧
      ∀ byte, edit.oldStop.bytes ≤ byte → byte < maxOffset →
        byte - edit.oldStop.bytes + edit.newStop.bytes < maxOffset →
        (Covers (spans.map (·.shift edit)) (byte - edit.oldStop.bytes + edit.newStop.bytes) ↔
          Covers spans byte) := by
  refine ⟨?_, ?_, ?_⟩
  · have ordered := ordered_of_firstMisplacedFrom accepted
    exact firstMisplacedFrom_of_ordered (ordered.shift forward bounded begun
      (fun span member => (fits span member).1) fun _ _ _ => Nat.zero_le _)
  · intro byte before
    exact covers_shift_iff (fun _ => Edit.lt_shift_iff_of_before forward before) Iff.rfl
  · intro byte behind named imageNamed
    exact covers_shift_iff (fun _ => Edit.lt_shift_iff_of_behind forward behind)
      (iff_of_true imageNamed named)

/-- Text is inserted where a span begins, with an empty span and one that goes to the end of
everything around it: the byte behind the new text is included, and the one before it is not. -/
theorem shift_keeps_included_inserted :
    let spans : List Span :=
      [⟨⟨0, 0, 0⟩, ⟨2, 0, 2⟩⟩, ⟨⟨2, 0, 2⟩, ⟨2, 0, 2⟩⟩, ⟨⟨4, 0, 4⟩, ⟨8, 0, 8⟩⟩,
        ⟨⟨8, 0, 8⟩, Extent.max⟩]
    let edit : Edit := ⟨⟨4, 0, 4⟩, ⟨4, 0, 4⟩, ⟨7, 0, 7⟩⟩
    firstMisplaced spans = none ∧ (∀ span ∈ spans, span.stop.bytes ≤ maxOffset) ∧
      (∀ span ∈ spans, span.start.bytes ≠ maxOffset) ∧ edit.Forward ∧
      (∀ span ∈ spans,
        (span.shift edit).start.bytes ≤ maxOffset ∧ (span.shift edit).stop.bytes ≤ maxOffset) ∧
      firstMisplaced (spans.map (·.shift edit)) = none ∧
      ¬Covers (spans.map (·.shift edit)) 3 ∧ Covers (spans.map (·.shift edit)) 7 := by
  intro spans edit
  have accepted : firstMisplaced spans = none := by decide
  have bounded : ∀ span ∈ spans, span.stop.bytes ≤ maxOffset := by decide
  have begun : ∀ span ∈ spans, span.start.bytes ≠ maxOffset := by decide
  have forward : edit.Forward := ⟨by decide, by decide⟩
  have fits : ∀ span ∈ spans,
      (span.shift edit).start.bytes ≤ maxOffset ∧ (span.shift edit).stop.bytes ≤ maxOffset := by
    decide
  rcases shift_keeps_included accepted bounded begun forward fits with ⟨again, before, behind⟩
  refine ⟨accepted, bounded, begun, forward, fits, again, ?_, ?_⟩
  · rw [before 3 (by decide)]
    simp [spans, Covers, Extent.max]
  · rw [show 7 = 4 - edit.oldStop.bytes + edit.newStop.bytes from rfl,
      behind 4 (by decide) (by decide) (by decide)]
    simp [spans, Covers, Extent.max]

end Span

end Reparse
