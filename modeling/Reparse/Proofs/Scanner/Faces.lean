import Reparse.Proofs.Scanner.Runs
import Reparse.Proofs.Text.Included

/-!
# What a scanner has before it

A scanner of included spans faces the bytes that are still to come at its position
(`Scanner.Faces`), and has read the first character of them once it views them (`Scanner.Views`).
A token ends where the same bytes are still to come (`Scanner.Faces.bytesFrom_tokenBoundary`),
although that may be the end of an earlier span.

Where tokens end a scanner can be sent again (`Scanner.Faces.rests`): it faces the bytes still to
come there (`Scanner.SentTo`) and does not fall back behind that place (`Scanner.Keeps`).
-/

namespace Reparse

open Text (Passed)

namespace Scanner

variable {text : Text} {spans : List Span} {rest : List UInt8} {scanner : Scanner}

/-! ## Places in a list of spans -/

/-- A position lies in the first span ahead. -/
def Inside (spans : List Span) (position : Nat) (previous : Option Span) (ahead : List Span) :
    Prop :=
  ∃ before span after, spans = before ++ span :: after ∧ ahead = span :: after ∧
    previous = before.getLast? ∧ span.start.bytes ≤ position ∧ position < span.stop.bytes

theorem exists_first (offset : Nat) (spans : List Span) :
    (∀ span ∈ spans, Passed offset span) ∨ ∃ before span after, spans = before ++ span :: after ∧
      (∀ other ∈ before, Passed offset other) ∧ ¬Passed offset span := by
  cases found : spans.find? fun span => !decide (Passed offset span) with
  | none =>
      left
      simpa using List.find?_eq_none.mp found
  | some span =>
      right
      rcases List.find?_eq_some_iff_append.mp found with ⟨here, before, after, split, earlier⟩
      exact ⟨before, span, after, split, by simpa using earlier, by simpa using here⟩

theorem locate_append {offset : Extent} {before : List Span}
    (passed : ∀ span ∈ before, Passed offset.bytes span) (previous : Option Span)
    (after : List Span) :
    locate offset previous (before ++ after) =
      locate offset (before.getLast?.or previous) after := by
  induction before generalizing previous with
  | nil => rfl
  | cons span rest ih =>
      have here : Passed offset.bytes span := passed span List.mem_cons_self
      rw [List.cons_append, locate, if_neg (by unfold Passed at here; omega),
        ih fun other member => passed other (List.mem_cons_of_mem _ member), List.getLast?_cons,
        Option.or_some, Option.some_or]

theorem locate_first {offset : Extent} {before after : List Span} {span : Span}
    (passed : ∀ other ∈ before, Passed offset.bytes other) (first : ¬Passed offset.bytes span) :
    locate offset none (before ++ span :: after) = (before.getLast?, span :: after) := by
  have shows : offset.bytes < span.stop.bytes ∧ span.start.bytes < span.stop.bytes := by
    unfold Passed at first
    omega
  rw [locate_append passed, locate, if_pos shows, Option.or_none]

theorem locate_of_passed {offset : Extent} (passed : ∀ span ∈ spans, Passed offset.bytes span) :
    (locate offset none spans).2 = [] := by
  have located := locate_append passed none []
  rw [List.append_nil] at located
  rw [located, locate]

/-- Where a token ends that is complete at a position. -/
def boundary (position : Extent) (previous : Option Span) (ahead : List Span) : Extent :=
  match ahead, previous with
  | span :: _, some previous =>
    if position.bytes = span.start.bytes then previous.stop else position
  | _, _ => position

theorem tokenBoundary_eq :
    scanner.tokenBoundary = boundary scanner.position scanner.previous scanner.ahead := rfl

theorem boundary_nil (position : Extent) (previous : Option Span) :
    boundary position previous [] = position := rfl

theorem le_boundary {position : Extent} {previous : Option Span} {span : Span}
    {after : List Span} {floor : Nat} (low : floor ≤ position.bytes)
    (clear : position.bytes = span.start.bytes →
      ∀ last, previous = some last → floor ≤ last.stop.bytes) :
    floor ≤ (boundary position previous (span :: after)).bytes := by
  cases previous with
  | none => exact low
  | some last =>
      simp only [boundary]
      split
      · rename_i first
        exact clear first last rfl
      · exact low

/-! ## Settling -/

theorem settle_spec (cut : text.Cut 0 spans) {before after : List Span} {span : Span}
    {position : Extent} {floor : Nat} (split : spans = before ++ span :: after)
    (begun : span.start.bytes ≤ position.bytes) (inside : position.bytes ≤ span.stop.bytes)
    (low : floor ≤ position.bytes)
    (clear : position.bytes = span.start.bytes →
      ∀ last, before.getLast? = some last → floor ≤ last.stop.bytes) :
    ∃ reached previous ahead,
      settle position before.getLast? (span :: after) = (reached, previous, ahead) ∧
      text.bytesFrom reached.bytes spans = text.bytesFrom position.bytes spans ∧
      (ahead = [] ∧ text.bytesFrom position.bytes spans = [] ∨
        Inside spans reached.bytes previous ahead) ∧
      floor ≤ (boundary reached previous ahead).bytes ∧
      (∀ last, spans.getLast? = some last → reached.bytes ≤ last.stop.bytes) ∧
      (reached = position ∧ ahead = span :: after ∨ ahead.length < after.length + 1) := by
  have within : ∀ last, spans.getLast? = some last → position.bytes ≤ last.stop.bytes := by
    subst split
    exact fun last found => Nat.le_trans inside (cut.stop_le_final found)
  induction after generalizing before span position with
  | nil =>
      by_cases here : position.bytes < span.stop.bytes ∧ span.stop.bytes ≠ span.start.bytes
      · refine ⟨position, before.getLast?, [span], ?_, rfl, Or.inr ?_, le_boundary low clear,
          within, Or.inl ⟨rfl, rfl⟩⟩
        · rw [settle, if_pos here]
        · exact ⟨before, span, [], split, rfl, rfl, begun, here.1⟩
      · refine ⟨position, some span, [], ?_, rfl, Or.inl ⟨rfl, ?_⟩, low, within,
          Or.inr (Nat.succ_pos _)⟩
        · rw [settle, if_neg here]
        · subst split
          rw [cut.bytesFrom_eq begun inside, Text.stretch_eq_nil (Or.inl (by omega))]
          rfl
  | cons next rest ih =>
      by_cases here : position.bytes < span.stop.bytes ∧ span.stop.bytes ≠ span.start.bytes
      · refine ⟨position, before.getLast?, span :: next :: rest, ?_, rfl, Or.inr ?_,
          le_boundary low clear, within, Or.inl ⟨rfl, rfl⟩⟩
        · rw [settle, if_pos here]
        · exact ⟨before, span, next :: rest, split, rfl, rfl, begun, here.1⟩
      · have again : spans = (before ++ [span]) ++ next :: rest := by rw [split]; simp
        have ordered : text.Cut 0 ((before ++ [span]) ++ next :: rest) := again ▸ cut
        have behind : span.stop.bytes ≤ next.start.bytes := ordered.stop_le (by simp)
        have passed : ∀ other ∈ before ++ [span], Passed position.bytes other := by
          intro other member
          rcases List.mem_append.mp member with member | member
          · rw [split] at cut
            exact Or.inl (Nat.le_trans (cut.stop_le member) begun)
          · obtain rfl : other = span := by simpa using member
            exact Or.inl (by omega)
        have same : text.bytesFrom next.start.bytes spans =
            text.bytesFrom position.bytes spans := by
          rw [again]
          exact (ordered.bytesFrom_of_passed passed (by omega)).symm
        rcases @ih (before ++ [span]) next next.start again (Nat.le_refl _)
          ordered.start_le_stop (by omega) (fun _ last found => by
            obtain rfl : span = last := by simpa using found
            omega) (fun last found => by
            rw [again] at found
            exact Nat.le_trans ordered.start_le_stop (ordered.stop_le_final found)) with
          ⟨reached, previous, ahead, settles, bytes, place, high, final, shrinks⟩
        rw [List.getLast?_append, List.getLast?_singleton, Option.some_or] at settles
        refine ⟨reached, previous, ahead, ?_, bytes.trans same, ?_, high, final, Or.inr ?_⟩
        · rw [settle, if_neg here]
          exact settles
        · rw [← same]
          exact place
        · rcases shrinks with ⟨_, rfl⟩ | shorter
          · exact Nat.lt_succ_self _
          · exact Nat.lt_succ_of_lt shorter

/-! ## Facing the rest of the included bytes -/

/-- The scanner stands where the bytes `rest` are still to come. -/
structure Faces (text : Text) (spans : List Span) (rest : List UInt8) (scanner : Scanner) :
    Prop where
  text_eq : scanner.text = text
  spans_eq : scanner.spans = spans
  bytes_eq : text.bytesFrom scanner.position.bytes spans = rest
  place : scanner.ahead = [] ∧ rest = [] ∨
    Inside spans scanner.position.bytes scanner.previous scanner.ahead
  within : ∀ last, spans.getLast? = some last → scanner.position.bytes ≤ last.stop.bytes

/-- The scanner has read the first character of the bytes to come, and knows if there is none. -/
structure Views (text : Text) (spans : List Span) (rest : List UInt8) (scanner : Scanner) : Prop
    extends Faces text spans rest scanner where
  loaded_eq : scanner.loaded = (Utf8.next? rest.toArray 0).map fun decoded =>
    (decoded.char, decoded.size)
  ended_iff : scanner.ahead = [] ↔ rest = []

/-- The scanner views the bytes to come, or was just placed before them. -/
def Settled (text : Text) (spans : List Span) (rest : List UInt8) (scanner : Scanner) : Prop :=
  scanner.Views text spans rest ∨ (scanner.Faces text spans rest ∧ scanner.loaded = none)

/-- A scanner that is placed at an offset does not let a token end before it. -/
structure Rests (text : Text) (spans : List Span) (offset : Extent) : Prop where
  within : ∀ last, spans.getLast? = some last → offset.bytes ≤ last.stop.bytes
  no_gap : text.bytesFrom offset.bytes spans ≠ [] →
    ∀ last span after, locate offset none spans = (some last, span :: after) →
      offset.bytes ≤ span.start.bytes → offset.bytes ≤ last.stop.bytes

theorem Settled.faces (settled : scanner.Settled text spans rest) :
    scanner.Faces text spans rest := by
  rcases settled with views | ⟨faces, _⟩
  · exact views.toFaces
  · exact faces

section SamePlace

variable {other : Scanner}

theorem Faces.of_samePlace (faces : scanner.Faces text spans rest)
    (same : scanner.SamePlace other) : other.Faces text spans rest where
  text_eq := same.text_eq.trans faces.text_eq
  spans_eq := same.spans_eq.trans faces.spans_eq
  bytes_eq := by
    rw [same.position_eq]
    exact faces.bytes_eq
  place := by
    rw [same.position_eq, same.previous_eq, same.ahead_eq]
    exact faces.place
  within := by
    rw [same.position_eq]
    exact faces.within

theorem Views.of_samePlace (views : scanner.Views text spans rest)
    (same : scanner.SamePlace other) (loaded_eq : other.loaded = scanner.loaded) :
    other.Views text spans rest :=
  ⟨views.toFaces.of_samePlace same, loaded_eq.trans views.loaded_eq,
    same.ahead_eq ▸ views.ended_iff⟩

theorem Settled.of_samePlace (settled : scanner.Settled text spans rest)
    (same : scanner.SamePlace other) (loaded_eq : other.loaded = scanner.loaded) :
    other.Settled text spans rest := by
  rcases settled with views | ⟨faces, empty⟩
  · exact Or.inl (views.of_samePlace same loaded_eq)
  · exact Or.inr ⟨faces.of_samePlace same, loaded_eq.trans empty⟩

end SamePlace

theorem next?_eq_none_iff {bytes : List UInt8} :
    Utf8.next? bytes.toArray 0 = none ↔ bytes = [] := by
  rw [Utf8.next_eq_none_iff, Nat.le_zero]
  simp

/-- At the position stands the first character of the bytes to come. -/
theorem Faces.next_eq (cut : text.Cut 0 spans) (faces : scanner.Faces text spans rest)
    (more : scanner.ahead ≠ []) :
    Utf8.next? text scanner.position.bytes = Utf8.next? rest.toArray 0 := by
  rcases faces.place with ⟨ended, _⟩ | ⟨before, span, after, split, _, _, begun, inside⟩
  · exact absurd ended more
  · rw [← faces.bytes_eq]
    subst split
    exact cut.next_eq begun inside

/-- Reading at the position shows the bytes to come. -/
theorem Faces.load (cut : text.Cut 0 spans) (faces : scanner.Faces text spans rest)
    (more : scanner.ahead ≠ []) : scanner.load.Views text spans rest := by
  have next := faces.next_eq cut more
  rcases faces with ⟨rfl, rfl, bytes_eq, place, within⟩
  unfold Scanner.load
  rw [next]
  cases read : Utf8.next? rest.toArray 0 with
  | none =>
      have none_left := next?_eq_none_iff.mp read
      exact ⟨⟨rfl, rfl, bytes_eq, Or.inl ⟨rfl, none_left⟩, within⟩, by simp [read],
        by simp [none_left]⟩
  | some decoded =>
      have left : rest ≠ [] := by
        intro ended
        rw [next?_eq_none_iff.mpr ended] at read
        cases read
      exact ⟨⟨rfl, rfl, bytes_eq, place, within⟩, by simp [read], by simp [left, more]⟩

/-! ## Where tokens end -/

/-- Where a token ends the same bytes are still to come. -/
theorem Faces.bytesFrom_tokenBoundary (cut : text.Cut 0 spans)
    (faces : scanner.Faces text spans rest) :
    text.bytesFrom scanner.tokenBoundary.bytes spans = rest := by
  rw [tokenBoundary_eq]
  rcases faces.place with ⟨ended, _⟩ | ⟨before, span, after, split, ahead, previous, _, _⟩
  · rw [ended, boundary_nil]
    exact faces.bytes_eq
  · rw [ahead, previous]
    cases found : before.getLast? with
    | none => exact faces.bytes_eq
    | some last =>
        simp only [boundary]
        split
        · rename_i first
          subst split
          rcases cut.le_last found with ⟨earlier, early⟩
          rw [cut.bytesFrom_of_passed (fun other member => Or.inl (earlier other member)) early,
            ← first]
          exact faces.bytes_eq
        · exact faces.bytes_eq

theorem Faces.tokenBoundary_le (cut : text.Cut 0 spans) (faces : scanner.Faces text spans rest) :
    scanner.tokenBoundary.bytes ≤ scanner.position.bytes := by
  rw [tokenBoundary_eq]
  rcases faces.place with ⟨ended, _⟩ | ⟨before, span, after, split, ahead, previous, begun, _⟩
  · rw [ended, boundary_nil]
  · rw [ahead, previous]
    cases found : before.getLast? with
    | none => exact Nat.le_refl _
    | some last =>
        simp only [boundary]
        split
        · subst split
          exact Nat.le_trans (cut.le_last found).2 begun
        · exact Nat.le_refl _

theorem locate_congr {offset other : Extent} (same : offset.bytes = other.bytes)
    (previous : Option Span) (spans : List Span) :
    locate offset previous spans = locate other previous spans := by
  induction spans generalizing previous with
  | nil => rfl
  | cons span rest ih => rw [locate, locate, same, ih]

theorem Rests.congr {offset other : Extent} (rests : Rests text spans offset)
    (same : offset.bytes = other.bytes) : Rests text spans other := by
  refine ⟨fun last found => same ▸ rests.within last found, fun more last span after located => ?_⟩
  rw [← same] at more ⊢
  rw [← locate_congr same] at located
  exact rests.no_gap more last span after located

/-- Where nothing is left a scanner can be placed unless that is behind the last span. -/
theorem Faces.rests_of_ended (faces : scanner.Faces text spans []) {offset : Extent}
    (same : offset.bytes = scanner.position.bytes) : Rests text spans offset := by
  refine ⟨fun last found => same ▸ faces.within last found, fun more => absurd ?_ more⟩
  rw [same, faces.bytes_eq]

/-- A scanner can be placed again where it lets a token end. -/
theorem Faces.rests (cut : text.Cut 0 spans) (faces : scanner.Faces text spans rest) :
    Rests text spans scanner.tokenBoundary := by
  refine ⟨fun last found => Nat.le_trans (faces.tokenBoundary_le cut) (faces.within last found), ?_⟩
  rw [faces.bytesFrom_tokenBoundary cut, tokenBoundary_eq]
  rcases faces.place with ⟨_, empty⟩ | ⟨before, span, after, rfl, ahead, previous, begun, inside⟩
  · exact fun more => absurd empty more
  · intro _
    have here : ∀ offset : Extent, (∀ other ∈ before, other.stop.bytes ≤ offset.bytes) →
        offset.bytes < span.stop.bytes →
          locate offset none (before ++ span :: after) = (before.getLast?, span :: after) := by
      intro offset earlier early
      apply locate_first fun other member => Or.inl (earlier other member)
      unfold Passed
      omega
    have there := here scanner.position
      (fun other member => Nat.le_trans (cut.stop_le member) begun) inside
    intro last first rest located early
    rw [ahead, previous] at located early ⊢
    cases found : before.getLast? with
    | none =>
        rw [found, boundary, there, found] at located
        · cases located
        · simp
    | some final =>
        rw [found] at located early
        simp only [boundary] at located early ⊢
        split at located
        · rename_i same
          rcases cut.le_last found with ⟨earlier, behind⟩
          rw [here final.stop earlier (by omega), found] at located
          cases located
          rw [if_pos same]
        · rename_i other
          rw [there, found] at located
          cases located
          rw [if_neg other] at early
          omega

/-! ## Placing a scanner -/

theorem Rests.le_boundary {offset position : Extent} {before after : List Span} {span : Span}
    (rests : Rests text (before ++ span :: after) offset)
    (more : text.bytesFrom offset.bytes (before ++ span :: after) ≠ [])
    (passed : ∀ other ∈ before, Passed offset.bytes other) (first : ¬Passed offset.bytes span)
    (low : offset.bytes ≤ position.bytes) :
    offset.bytes ≤ (boundary position before.getLast? (span :: after)).bytes := by
  refine Scanner.le_boundary low fun same last found => ?_
  apply rests.no_gap more last span after
  · rw [locate_first passed first, found]
  · omega

/-- The scanner lets no token end before `floor`, as long as there are bytes to come. -/
def Keeps (rest : List UInt8) (floor : Nat) (scanner : Scanner) : Prop :=
  floor ≤ scanner.position.bytes ∧ (rest ≠ [] → floor ≤ scanner.tokenBoundary.bytes)

/-- The scanner stands before the bytes still to come at an offset to which it was sent. -/
structure SentTo (text : Text) (spans : List Span) (offset : Extent) (scanner : Scanner) :
    Prop where
  settled : scanner.Settled text spans (text.bytesFrom offset.bytes spans)
  le_position : text.bytesFrom offset.bytes spans ≠ [] → offset.bytes ≤ scanner.position.bytes
  keeps : Rests text spans offset →
    scanner.Keeps (text.bytesFrom offset.bytes spans) offset.bytes

theorem bytesFrom_final (cut : text.Cut 0 spans) {last : Span}
    (final : spans.getLast? = some last) :
    text.bytesFrom last.stop.bytes spans = [] := by
  rcases List.getLast?_eq_some_iff.mp final with ⟨before, rfl⟩
  apply Text.bytesFrom_of_passed
  intro other member
  rcases List.mem_append.mp member with member | member
  · exact Or.inl (Nat.le_trans (cut.stop_le member) cut.start_le_stop)
  · obtain rfl : other = last := by simpa using member
    exact Or.inl (Nat.le_refl _)

/-- Behind all spans a scanner is sent to the end of the last one. -/
theorem sentTo_goTo_of_passed (cut : text.Cut 0 spans) (text_eq : scanner.text = text)
    (spans_eq : scanner.spans = spans) {offset : Extent}
    (passed : ∀ span ∈ spans, Passed offset.bytes span) :
    SentTo text spans offset (scanner.goTo offset) := by
  have ended : text.bytesFrom offset.bytes spans = [] := Text.bytesFrom_of_passed passed
  have located := locate_of_passed passed
  unfold goTo
  rw [spans_eq]
  cases found : locate offset none spans with
  | mk previous ahead =>
      rw [found] at located
      subst located
      cases final : spans.getLast? with
      | none =>
          exact ⟨Or.inr ⟨⟨text_eq, rfl, rfl, Or.inl ⟨rfl, ended⟩, by simp [final]⟩, rfl⟩,
            fun _ => Nat.le_refl _, fun _ => ⟨Nat.le_refl _, fun more => absurd ended more⟩⟩
      | some last =>
          have finished := bytesFrom_final cut final
          refine ⟨Or.inr ⟨⟨text_eq, rfl, finished.trans ended.symm, Or.inl ⟨rfl, ended⟩, ?_⟩, rfl⟩,
            fun more => absurd ended more,
            fun rests => ⟨rests.within last final, fun more => absurd ended more⟩⟩
          intro other same
          obtain rfl : last = other := Option.some.inj (final.symm.trans same)
          exact Nat.le_refl _

theorem goTo_of_first {before after : List Span} {span : Span}
    (spans_eq : scanner.spans = before ++ span :: after) {offset : Extent}
    (passed : ∀ other ∈ before, Passed offset.bytes other) (first : ¬Passed offset.bytes span) :
    scanner.goTo offset = { scanner with
      previous := before.getLast?
      ahead := span :: after
      position := if offset.bytes ≤ span.start.bytes then span.start else offset
      loaded := none } := by
  unfold goTo
  rw [spans_eq, locate_first passed first]

/-- Otherwise it is sent to the first span with bytes behind the offset. -/
theorem sentTo_goTo_of_first {before after : List Span} {span : Span}
    (cut : text.Cut 0 (before ++ span :: after)) (text_eq : scanner.text = text)
    (spans_eq : scanner.spans = before ++ span :: after) {offset : Extent}
    (passed : ∀ other ∈ before, Passed offset.bytes other) (first : ¬Passed offset.bytes span) :
    SentTo text (before ++ span :: after) offset (scanner.goTo offset) := by
  have inside : offset.bytes < span.stop.bytes ∧ span.start.bytes < span.stop.bytes := by
    unfold Passed at first
    omega
  have sent := goTo_of_first spans_eq passed first
  generalize placed : (if offset.bytes ≤ span.start.bytes then span.start else offset) = place
    at sent
  have there : offset.bytes ≤ place.bytes ∧ span.start.bytes ≤ place.bytes ∧
      place.bytes < span.stop.bytes ∧
      text.bytesFrom place.bytes (before ++ span :: after) =
        text.bytesFrom offset.bytes (before ++ span :: after) := by
    subst placed
    split
    · rename_i early
      exact ⟨early, Nat.le_refl _, inside.2, (cut.bytesFrom_of_passed passed early).symm⟩
    · exact ⟨Nat.le_refl _, by omega, inside.1, rfl⟩
  rcases there with ⟨low, begun, short, same⟩
  have faces : (scanner.goTo offset).Faces text (before ++ span :: after)
      (text.bytesFrom offset.bytes (before ++ span :: after)) := by
    rw [sent]
    exact ⟨text_eq, spans_eq, same, Or.inr ⟨before, span, after, rfl, rfl, rfl, begun, short⟩,
      fun last found => Nat.le_trans (Nat.le_of_lt short) (cut.stop_le_final found)⟩
  rw [sent] at faces ⊢
  exact ⟨Or.inr ⟨faces, rfl⟩, fun _ => low,
    fun rests => ⟨low, fun more => rests.le_boundary more passed first low⟩⟩

theorem sentTo_goTo (cut : text.Cut 0 spans) (text_eq : scanner.text = text)
    (spans_eq : scanner.spans = spans) (offset : Extent) :
    SentTo text spans offset (scanner.goTo offset) := by
  rcases exists_first offset.bytes spans with passed | ⟨before, span, after, split, passed, first⟩
  · exact sentTo_goTo_of_passed cut text_eq spans_eq passed
  · subst split
    exact sentTo_goTo_of_first cut text_eq spans_eq passed first

/-- A scanner that is sent to an offset unless it is there stands before the bytes still to come
there. -/
theorem Settled.reset (cut : text.Cut 0 spans) (settled : scanner.Settled text spans rest)
    (offset : Extent) : SentTo text spans offset (scanner.reset offset) := by
  have faces := settled.faces
  unfold Scanner.reset
  split
  · rename_i same
    refine ⟨?_, fun _ => Nat.le_of_eq same, fun rests => ⟨Nat.le_of_eq same, fun more => ?_⟩⟩
    · rw [same, faces.bytes_eq]
      exact settled
    · rcases faces.place with ⟨_, ended⟩ |
        ⟨before, span, after, rfl, ahead, previous, begun, inside⟩
      · rw [same, faces.bytes_eq] at more
        exact absurd ended more
      · rw [tokenBoundary_eq, ahead, previous]
        refine rests.le_boundary more (fun other member => ?_) ?_ (Nat.le_of_eq same)
        · exact Or.inl (Nat.le_trans (cut.stop_le member) (by omega))
        · unfold Passed
          omega
  · exact sentTo_goTo cut faces.text_eq faces.spans_eq offset

end Scanner

end Reparse
