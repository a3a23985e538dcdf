import Reparse.Proofs.Scanner.ByteScan
import Reparse.Proofs.Scanner.Runs

/-!
# The course of a scanner

A parser accepts spans that are empty, that reach past the end of the text, and that begin or end
inside a character. A scanner of such spans may read some bytes twice, and what it shows cannot be
told from the included bytes alone. It still goes through its text in one direction.

Whatever a parse does with its scanner comes down to a few moves, which are the constructors of
`Scanner.Course`. On its course a scanner that is not at the end has read a character of the text
whenever it is to step (`Course.sighted`), and every step leads it strictly forward
(`Course.lt_step`), also where it enters another span. A token that ends behind a step ends behind
the place that was stepped from, although that may be in an earlier span (`Sighted.step`). Stepping
on therefore comes to the end (`Course.skipToEnd`).
-/

namespace Reparse

open Text (Passed)

namespace Scanner

variable {text : Text} {spans : List Span} {scanner other : Scanner} {reads : Bool}

/-- Every scanner of a text and spans that a parse comes to. The flag tells that the scanner has
read the character at its position, so that it may step past it. -/
inductive Course (text : Text) (spans : List Span) : Bool → Scanner → Prop where
  | new : Course text spans false (Scanner.new text spans)
  /-- The marks of a token, its symbol and the log may change at any time. -/
  | mark {reads : Bool} {scanner other : Scanner} (course : Course text spans reads scanner)
      (same : scanner.SamePlace other) (loaded_eq : other.loaded = scanner.loaded) :
      Course text spans reads other
  | goTo {reads : Bool} {scanner : Scanner} (course : Course text spans reads scanner)
      (offset : Extent) : Course text spans false (scanner.goTo offset)
  | load {scanner : Scanner} (course : Course text spans false scanner)
      (more : scanner.atEnd = false) : Course text spans true scanner.load
  | ended {scanner : Scanner} (course : Course text spans false scanner)
      (ended : scanner.atEnd = true) : Course text spans true scanner
  | step {scanner : Scanner} (course : Course text spans true scanner)
      (more : scanner.atEnd = false) (skip : Bool) : Course text spans true (scanner.step skip)

/-! ## What is known of a scanner on its course -/

/-- The scanner stands in an included span or is at the end. -/
structure Located (text : Text) (spans : List Span) (scanner : Scanner) : Prop where
  text_eq : scanner.text = text
  spans_eq : scanner.spans = spans
  place : scanner.ahead = [] ∨ Inside spans scanner.position.bytes scanner.previous scanner.ahead
  unloaded : scanner.ahead = [] → scanner.loaded = none

/-- The scanner has read the character at its position unless it is at the end. -/
structure Sighted (text : Text) (spans : List Span) (scanner : Scanner) : Prop
    extends Located text spans scanner where
  sees : scanner.ahead ≠ [] → ∃ decoded, Utf8.next? text scanner.position.bytes = some decoded ∧
    scanner.loaded = some (decoded.char, decoded.size)

theorem Located.of_samePlace (located : scanner.Located text spans)
    (same : scanner.SamePlace other) (loaded_eq : other.loaded = scanner.loaded) :
    other.Located text spans where
  text_eq := same.text_eq.trans located.text_eq
  spans_eq := same.spans_eq.trans located.spans_eq
  place := by
    rw [same.position_eq, same.previous_eq, same.ahead_eq]
    exact located.place
  unloaded := by
    rw [same.ahead_eq, loaded_eq]
    exact located.unloaded

theorem Sighted.of_samePlace (sighted : scanner.Sighted text spans)
    (same : scanner.SamePlace other) (loaded_eq : other.loaded = scanner.loaded) :
    other.Sighted text spans where
  toLocated := sighted.toLocated.of_samePlace same loaded_eq
  sees := by
    rw [same.position_eq, same.ahead_eq, loaded_eq]
    exact sighted.sees

/-- No token ends behind the scanner. -/
theorem Located.tokenBoundary_le (ordered : Span.Ordered 0 spans)
    (located : scanner.Located text spans) :
    scanner.tokenBoundary.bytes ≤ scanner.position.bytes := by
  rw [tokenBoundary_eq]
  rcases located.place with ended | ⟨before, span, after, split, ahead, previous, begun, _⟩
  · rw [ended, boundary_nil]
  · rw [ahead, previous]
    cases found : before.getLast? with
    | none => exact Nat.le_refl _
    | some last =>
        simp only [boundary]
        split
        · subst split
          exact Nat.le_trans (ordered.le_last found).2 begun
        · exact Nat.le_refl _

/-! ## The moves -/

/-- Reading finds a character, or the end of the text. -/
theorem Located.load (located : scanner.Located text spans) (more : scanner.ahead ≠ []) :
    scanner.load.Sighted text spans := by
  rcases located with ⟨rfl, spans_eq, place, _⟩
  unfold Scanner.load
  cases read : Utf8.next? scanner.text scanner.position.bytes with
  | none => exact ⟨⟨rfl, spans_eq, Or.inl rfl, fun _ => rfl⟩, fun more => absurd rfl more⟩
  | some decoded =>
      exact ⟨⟨rfl, spans_eq, place, fun ended => absurd ended more⟩, fun _ => ⟨decoded, read, rfl⟩⟩

/-- A scanner is placed in the first span with text behind the offset, not before it. -/
theorem located_goTo (text_eq : scanner.text = text)
    (spans_eq : scanner.spans = spans) (offset : Extent) :
    (scanner.goTo offset).Located text spans ∧ (scanner.goTo offset).loaded = none ∧
      ((scanner.goTo offset).ahead ≠ [] →
        offset.bytes ≤ (scanner.goTo offset).position.bytes) := by
  rcases exists_first offset.bytes spans with passed | ⟨before, span, after, split, passed, first⟩
  · have located := locate_of_passed passed
    unfold goTo
    rw [spans_eq]
    cases found : locate offset none spans with
    | mk previous ahead =>
        rw [found] at located
        subst located
        exact ⟨⟨text_eq, rfl, Or.inl rfl, fun _ => rfl⟩, rfl, fun more => absurd rfl more⟩
  · rw [goTo_of_first (spans_eq.trans split) passed first]
    have inside : offset.bytes < span.stop.bytes ∧ span.start.bytes < span.stop.bytes := by
      unfold Passed at first
      omega
    have there (place : Extent) (same : (if offset.bytes ≤ span.start.bytes then span.start
        else offset) = place) : offset.bytes ≤ place.bytes ∧ span.start.bytes ≤ place.bytes ∧
          place.bytes < span.stop.bytes := by
      subst same
      split <;> omega
    rcases there _ rfl with ⟨low, begun, short⟩
    exact ⟨⟨text_eq, spans_eq, Or.inr ⟨before, span, after, split, rfl, rfl, begun, short⟩,
      fun none => absurd none (List.cons_ne_nil _ _)⟩, rfl, fun _ => low⟩

/-- A scanner that is placed inside a span stands just there. -/
theorem goTo_of_inside {before after : List Span} {span : Span}
    (ordered : Span.Ordered 0 (before ++ span :: after))
    (spans_eq : scanner.spans = before ++ span :: after) {offset : Extent}
    (begun : span.start.bytes ≤ offset.bytes) (short : offset.bytes < span.stop.bytes) :
    (scanner.goTo offset).ahead = span :: after ∧
      (scanner.goTo offset).position.bytes = offset.bytes := by
  have passed : ∀ other ∈ before, Passed offset.bytes other := fun other member =>
    Or.inl (Nat.le_trans (ordered.stop_le member) begun)
  have first : ¬Passed offset.bytes span := by
    unfold Passed
    omega
  rw [goTo_of_first spans_eq passed first]
  refine ⟨rfl, ?_⟩
  dsimp only
  split
  · omega
  · rfl

/-- Wherever the scanner settles, that is not before `floor`, and no token ends before it. -/
theorem settle_onward (ordered : Span.Ordered 0 spans) {before after : List Span} {span : Span}
    {position : Extent} {floor : Nat} (split : spans = before ++ span :: after)
    (begun : span.start.bytes ≤ position.bytes) (low : floor ≤ position.bytes)
    (under : floor ≤ span.stop.bytes)
    (clear : position.bytes = span.start.bytes →
      ∀ last, before.getLast? = some last → floor ≤ last.stop.bytes) :
    ∃ reached previous ahead,
      settle position before.getLast? (span :: after) = (reached, previous, ahead) ∧
      (ahead = [] ∨ Inside spans reached.bytes previous ahead) ∧
      floor ≤ (boundary reached previous ahead).bytes ∧ ahead.length ≤ (span :: after).length := by
  induction after generalizing before span position with
  | nil =>
      by_cases here : position.bytes < span.stop.bytes ∧ span.stop.bytes ≠ span.start.bytes
      · refine ⟨position, before.getLast?, [span], ?_, Or.inr ?_, le_boundary low clear,
          Nat.le_refl _⟩
        · rw [settle, if_pos here]
        · exact ⟨before, span, [], split, rfl, rfl, begun, here.1⟩
      · refine ⟨position, some span, [], ?_, Or.inl rfl, low, Nat.zero_le _⟩
        rw [settle, if_neg here]
  | cons next rest ih =>
      by_cases here : position.bytes < span.stop.bytes ∧ span.stop.bytes ≠ span.start.bytes
      · refine ⟨position, before.getLast?, span :: next :: rest, ?_, Or.inr ?_,
          le_boundary low clear, Nat.le_refl _⟩
        · rw [settle, if_pos here]
        · exact ⟨before, span, next :: rest, split, rfl, rfl, begun, here.1⟩
      · have again : spans = (before ++ [span]) ++ next :: rest := by rw [split]; simp
        have order : Span.Ordered 0 ((before ++ [span]) ++ next :: rest) := again ▸ ordered
        have behind : span.stop.bytes ≤ next.start.bytes := order.stop_le (by simp)
        have forward := order.start_le_stop
        rcases @ih (before ++ [span]) next next.start again (Nat.le_refl _) (by omega) (by omega)
          (fun _ last found => by
            obtain rfl : span = last := by simpa using found
            exact under) with ⟨reached, previous, ahead, settles, place, high, shorter⟩
        rw [List.getLast?_append, List.getLast?_singleton, Option.some_or] at settles
        refine ⟨reached, previous, ahead, ?_, place, high, Nat.le_succ_of_le shorter⟩
        rw [settle, if_neg here]
        exact settles

/-- A step leads forward, and a token that ends behind it ends behind the place it was made from. -/
theorem Sighted.step (ordered : Span.Ordered 0 spans) (sighted : scanner.Sighted text spans)
    (more : scanner.ahead ≠ []) (skip : Bool) :
    (scanner.step skip).Sighted text spans ∧ SteppedFrom scanner skip 1 (scanner.step skip) := by
  rcases sighted.place with ended | ⟨before, span, after, split, ahead, previous, begun, inside⟩
  · exact absurd ended more
  · rcases sighted.sees more with ⟨decoded, read, loaded⟩
    rcases Utf8.next_spec read with ⟨positive, within, _⟩
    have bytes := bytes_past scanner.position decoded.char decoded.size
    rcases @settle_onward spans ordered before after span
      (past scanner.position decoded.char decoded.size) (scanner.position.bytes + 1) split
      (by omega) (by omega) inside (by omega) with
      ⟨position, last, later, settles, place, high, shorter⟩
    rw [← previous, ← ahead] at settles
    rw [← ahead] at shorter
    rw [step_eq loaded settles]
    split
    · rename_i empty
      obtain rfl : later = [] := List.isEmpty_iff.mp empty
      refine ⟨⟨⟨sighted.text_eq, sighted.spans_eq, Or.inl rfl, fun _ => rfl⟩,
        fun more => absurd rfl more⟩, high, ?_, rfl, rfl, rfl⟩
      exact remaining_lt rfl (Or.inl (List.length_pos_iff.mpr more))
    · rename_i further
      have onward : later ≠ [] := fun none => further (List.isEmpty_iff.mpr none)
      let moved : Scanner := { scanner with
        position, previous := last, ahead := later
        tokenStart := if skip then position else scanner.tokenStart }
      have located : moved.Located text spans :=
        ⟨sighted.text_eq, sighted.spans_eq, place, fun none => absurd none onward⟩
      have low := located.tokenBoundary_le ordered
      have forward : scanner.position.bytes < moved.position.bytes := Nat.lt_of_lt_of_le high low
      have less : moved.remaining < scanner.remaining := by
        refine remaining_lt rfl ?_
        rcases Nat.lt_or_eq_of_le shorter with shorter | same
        · exact Or.inl shorter
        · exact Or.inr ⟨same, forward, by rw [sighted.text_eq]; omega⟩
      have stepped : SteppedFrom scanner skip 1 moved := ⟨high, less, rfl, rfl, rfl⟩
      exact ⟨located.load onward, stepped.load low⟩

/-! ## Along the course -/

section Course

variable (ordered : Span.Ordered 0 spans)

include ordered

/-- What every move keeps. -/
theorem Course.spec (course : Course text spans reads scanner) :
    scanner.Located text spans ∧
      (if reads then scanner.Sighted text spans else scanner.loaded = none) := by
  induction course with
  | new =>
      let blank : Scanner :=
        { text, spans, previous := none, ahead := spans, position := Extent.zero
          tokenStart := Extent.zero, tokenStop := none, loaded := none, malformed := false
          symbol := 0, log := [] }
      rcases @located_goTo text spans blank rfl rfl Extent.zero with ⟨located, unread, _⟩
      exact ⟨located, unread⟩
  | @mark reads scanner other _ same loaded_eq ih =>
      refine ⟨ih.1.of_samePlace same loaded_eq, ?_⟩
      cases reads with
      | true => exact Sighted.of_samePlace ih.2 same loaded_eq
      | false => exact loaded_eq.trans ih.2
  | goTo _ offset ih =>
      rcases located_goTo ih.1.text_eq ih.1.spans_eq offset with ⟨located, unread, _⟩
      exact ⟨located, unread⟩
  | load _ more ih =>
      have sighted := ih.1.load (atEnd_eq_false.mp more)
      exact ⟨sighted.toLocated, sighted⟩
  | ended _ ended ih =>
      exact ⟨ih.1, ih.1, fun more => absurd (atEnd_eq_true.mp ended) more⟩
  | step _ more skip ih =>
      have sighted := (Sighted.step ordered ih.2 (atEnd_eq_false.mp more) skip).1
      exact ⟨sighted.toLocated, sighted⟩

theorem Course.located (course : Course text spans reads scanner) :
    scanner.Located text spans := (course.spec ordered).1

theorem Course.sighted (course : Course text spans true scanner) :
    scanner.Sighted text spans := (course.spec ordered).2

theorem Course.unread (course : Course text spans false scanner) : scanner.loaded = none :=
  (course.spec ordered).2

/-- Every step leads strictly forward. -/
theorem Course.lt_step (course : Course text spans true scanner) (more : scanner.atEnd = false)
    (skip : Bool) : scanner.position.bytes < (scanner.step skip).position.bytes := by
  rcases (course.sighted ordered).step ordered (atEnd_eq_false.mp more) skip with
    ⟨sighted, stepped⟩
  exact Nat.lt_of_lt_of_le stepped.le_boundary (sighted.toLocated.tokenBoundary_le ordered)

end Course

/-! ## What a parse does with a scanner -/

namespace Course

theorem report (course : Course text spans reads scanner) (notice : Notice) :
    Course text spans reads (scanner.report notice) :=
  course.mark (samePlace_report scanner notice) rfl

theorem markEnd (course : Course text spans reads scanner) :
    Course text spans reads scanner.markEnd :=
  course.mark (samePlace_markEnd scanner) rfl

theorem fresh (course : Course text spans reads scanner) :
    Course text spans reads scanner.fresh :=
  course.mark (samePlace_fresh scanner) rfl

theorem accept (course : Course text spans reads scanner) (symbol : Nat) :
    Course text spans reads (scanner.accept symbol) :=
  course.mark (samePlace_accept scanner symbol) rfl

theorem finish (course : Course text spans reads scanner) :
    Course text spans reads scanner.finish.1 :=
  course.mark (samePlace_finish scanner) (loaded_finish scanner)

theorem reset (course : Course text spans reads scanner) (offset : Extent) :
    ∃ reads, Course text spans reads (scanner.reset offset) := by
  unfold Scanner.reset
  split
  · exact ⟨reads, course⟩
  · exact ⟨false, course.goTo offset⟩

/-- A scanner that is placed at an offset and does not come to the end stands there or behind. -/
theorem le_reset (ordered : Span.Ordered 0 spans) (course : Course text spans reads scanner)
    (offset : Extent) (more : (scanner.reset offset).ahead ≠ []) :
    offset.bytes ≤ (scanner.reset offset).position.bytes := by
  unfold Scanner.reset at more ⊢
  split
  · rename_i same
    exact Nat.le_of_eq same
  · rename_i other
    rw [if_neg other] at more
    have located := course.located ordered
    exact (located_goTo located.text_eq located.spans_eq offset).2.2 more

theorem advance (course : Course text spans true scanner) (skip : Bool) :
    Course text spans true (scanner.advance skip) := by
  unfold Scanner.advance
  split
  · exact course
  · rename_i more
    have within : scanner.atEnd = false := by simpa using more
    exact (course.report _).step within skip

theorem steppedFrom_advance (ordered : Span.Ordered 0 spans)
    (course : Course text spans true scanner) (more : scanner.ahead ≠ []) (skip : Bool) :
    SteppedFrom scanner skip 1 (scanner.advance skip) := by
  rw [Scanner.advance, if_neg (by simp [atEnd_eq_false.mpr more])]
  rcases (((course.report (.passed skip scanner.lookahead)).sighted ordered).step ordered more
    skip).2 with ⟨boundary, less, start, stop, symbol⟩
  exact ⟨boundary, less, start, stop, symbol⟩

/-- Stepping on leads to the end. -/
theorem runToEnd (ordered : Span.Ordered 0 spans) (course : Course text spans true scanner) :
    Course text spans true scanner.runToEnd ∧ scanner.runToEnd.atEnd = true := by
  induction left : scanner.remaining using Nat.strongRecOn generalizing scanner with
  | ind left ih =>
      rw [Scanner.runToEnd]
      split
      · rename_i ended
        exact ⟨course, ended⟩
      · rename_i more
        have within : scanner.atEnd = false := by simpa using more
        have less := ((course.sighted ordered).step ordered (atEnd_eq_false.mp within) false).2
        rw [if_pos less.remaining_lt]
        exact ih _ (left ▸ less.remaining_lt) (course.step within false) rfl

/-- What stands at the position is read, unless that was done before. -/
theorem primed (ordered : Span.Ordered 0 spans) (course : Course text spans reads scanner) :
    Course text spans true scanner.primed := by
  unfold Scanner.primed
  cases ended : scanner.atEnd with
  | true =>
      cases reads with
      | true => exact course
      | false => exact course.ended ended
  | false =>
      cases reads with
      | true =>
          rcases (course.sighted ordered).sees (atEnd_eq_false.mp ended) with ⟨_, _, loaded⟩
          rw [loaded]
          exact course
      | false =>
          rw [course.unread ordered]
          exact course.load ended

theorem skipToEnd (ordered : Span.Ordered 0 spans) (course : Course text spans reads scanner) :
    Course text spans true scanner.skipToEnd ∧ scanner.skipToEnd.atEnd = true := by
  rw [skipToEnd_eq]
  exact (course.primed ordered).runToEnd ordered

end Course

end Scanner

end Reparse
