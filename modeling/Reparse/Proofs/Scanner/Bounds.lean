import Reparse.Proofs.Parse.Lexeme
import Reparse.Proofs.Scanner.Seeks

/-!
# Where tokens begin and end in spans

A token that is not empty begins with an included byte of the text, whatever the spans are: the
scanner begins it at a character that it has read in a span. How it ends is less simple. Behind its
last character the scanner settles in the next span, and the end of the token is put back to the end
of the span before. A span that shows nothing may be that span, and it may be where the scanner comes
to the end. So the token ends behind its last character, or where a span without text begins with no
included byte in between (`Text.EndsAt`).

Spans that cut no character are assumed throughout. Every step ends so (`Scanner.Sighted.endsAt_step`),
hence every token that a scan program finds does (`Scanner.Bounded`).
-/

namespace Reparse

/-- A span is empty or begins behind the text. -/
def Span.IsBare (text : Text) (span : Span) : Prop :=
  span.stop.bytes ≤ span.start.bytes ∨ text.size ≤ span.start.bytes

namespace Text

/-- An offset has a byte of the text that lies in a span. -/
def Includes (text : Text) (spans : List Span) (place : Nat) : Prop :=
  place < text.size ∧ ∃ span ∈ spans, span.start.bytes ≤ place ∧ place < span.stop.bytes

instance (text : Text) (spans : List Span) (place : Nat) :
    Decidable (text.Includes spans place) := inferInstanceAs (Decidable (_ ∧ _))

/-- Before an offset lies an included byte, and no other one behind that. Unless the byte is just
before the offset, a span without text begins there. -/
def EndsAt (text : Text) (spans : List Span) (stop : Nat) : Prop :=
  ∃ last, text.Includes spans last ∧ last < stop ∧
    (∀ place, last < place → place < stop → ¬text.Includes spans place) ∧
    (stop = last + 1 ∨ ∃ span ∈ spans, span.IsBare text ∧ span.start.bytes = stop)

variable {text : Text} {spans before passed rest : List Span} {span bare : Span} {last : Nat}

theorem Includes.endsAt (included : text.Includes spans last) : text.EndsAt spans (last + 1) :=
  ⟨last, included, Nat.lt_succ_self _, fun _ _ _ => by omega, Or.inl rfl⟩

/-- Where no span without text begins, the byte before the end is included. -/
theorem EndsAt.includes {stop : Nat} (ends : text.EndsAt spans stop)
    (clear : ∀ span ∈ spans, span.IsBare text → span.start.bytes ≠ stop) :
    text.Includes spans (stop - 1) := by
  rcases ends with ⟨last, included, _, _, rfl | ⟨span, member, bare, same⟩⟩
  · exact included
  · exact absurd same (clear span member bare)

/-- Where included text reaches the end of its span, a span without text may follow over empty
ones. -/
theorem Includes.endsAt_bare (cut : text.Cut 0 (before ++ span :: (passed ++ bare :: rest)))
    (included : text.Includes (before ++ span :: (passed ++ bare :: rest)) last)
    (final : span.stop.bytes = last + 1)
    (empty : ∀ other ∈ passed, other.stop.bytes ≤ other.start.bytes) (shown : bare.IsBare text) :
    text.EndsAt (before ++ span :: (passed ++ bare :: rest)) bare.start.bytes := by
  have again : before ++ span :: (passed ++ bare :: rest) =
      (before ++ span :: passed) ++ bare :: rest := by simp
  have onward : text.Cut 0 ((before ++ span :: passed) ++ bare :: rest) := again ▸ cut
  have behind : span.stop.bytes ≤ bare.start.bytes := onward.stop_le (by simp)
  have forward := onward.start_le_stop
  refine ⟨last, included, by omega, ?_, Or.inr ⟨bare, by simp, shown, rfl⟩⟩
  rintro place beyond early ⟨_, other, member, begun, inside⟩
  rw [List.mem_append, List.mem_cons, List.mem_append, List.mem_cons] at member
  rcases member with earlier | rfl | between | rfl | later
  · have ends := cut.stop_le earlier
    have ordered := cut.start_le_stop
    omega
  · omega
  · have none := empty other between
    omega
  · omega
  · have begins := onward.tail.start_le later
    omega

end Text

namespace Scanner

open Text (Passed)

variable {text : Text} {spans : List Span} {scanner : Scanner} {reads : Bool} {floor : Nat}

/-! ## Settling -/

/-- Where a scanner settles that has come to a position in or behind a span. -/
inductive Settles (position : Extent) (previous : Option Span) (span : Span) (after : List Span) :
    Extent × Option Span × List Span → Prop where
  | stays (inside : position.bytes < span.stop.bytes) :
      Settles position previous span after (position, previous, span :: after)
  | enters {passed rest : List Span} {next last : Span} (behind : Passed position.bytes span)
      (split : after = passed ++ next :: rest)
      (empty : ∀ other ∈ passed, other.stop.bytes ≤ other.start.bytes)
      (final : (span :: passed).getLast? = some last)
      (shows : next.start.bytes < next.stop.bytes) :
      Settles position previous span after (next.start, some last, next :: rest)
  | ends {last : Option Span} (behind : Passed position.bytes span)
      (empty : ∀ other ∈ after, other.stop.bytes ≤ other.start.bytes) :
      Settles position previous span after
        ((after.getLast?.map Span.start).getD position, last, [])

theorem settles_settle (position : Extent) (previous : Option Span) (span : Span)
    (after : List Span) :
    Settles position previous span after (settle position previous (span :: after)) := by
  induction after generalizing position previous span with
  | nil =>
      rw [settle]
      split
      · rename_i here
        exact .stays here.1
      · exact .ends (by unfold Passed; omega) (by simp)
  | cons next rest ih =>
      rw [settle]
      split
      · rename_i here
        exact .stays here.1
      · have behind : Passed position.bytes span := by
          unfold Passed
          omega
        have onward := ih next.start (some span) next
        generalize settle next.start (some span) (next :: rest) = result at onward
        cases onward with
        | stays inside =>
            exact @Settles.enters _ _ _ _ [] _ _ _ behind rfl (by simp) rfl inside
        | @enters passed later other last gone split empty final shows =>
            refine @Settles.enters _ _ _ _ (next :: passed) _ _ _ behind ?_ ?_ ?_ shows
            · rw [split, List.cons_append]
            · refine List.forall_mem_cons.mpr ⟨?_, empty⟩
              exact gone.elim id id
            · rw [List.getLast?_cons_cons]
              exact final
        | @ends last gone empty =>
            have bare : ∀ other ∈ next :: rest, other.stop.bytes ≤ other.start.bytes :=
              List.forall_mem_cons.mpr ⟨gone.elim id id, empty⟩
            have ended := @Settles.ends position previous span _ last behind bare
            rw [List.getLast?_cons, Option.map_some, Option.getD_some] at ended
            cases final : rest.getLast? with
            | none => simpa [final] using ended
            | some span => simpa [final] using ended

variable {position place : Extent} {previous last : Option Span} {before after ahead : List Span}
  {span : Span} {final : Nat}

/-- Where included text ends a token ends as it should, and so it does at the place reached if there
is no text any more. -/
theorem Settles.endsAt (settles : Settles position previous span after (place, last, ahead))
    (cut : text.Cut 0 (before ++ span :: after))
    (included : text.Includes (before ++ span :: after) final) (reached : position.bytes = final + 1)
    (begun : span.start.bytes ≤ final) (inside : final < span.stop.bytes) :
    text.EndsAt (before ++ span :: after) (boundary place last ahead).bytes ∧
      (text.size ≤ place.bytes → text.EndsAt (before ++ span :: after) place.bytes) := by
  cases settles with
  | stays short =>
      have entered : ¬position.bytes = span.start.bytes := by omega
      have here : boundary position previous (span :: after) = position := by
        cases previous with
        | none => rfl
        | some other => exact if_neg entered
      rw [here, reached]
      exact ⟨included.endsAt, fun _ => included.endsAt⟩
  | @enters passed rest next latest behind split empty found shows =>
      subst split
      have ends : span.stop.bytes = final + 1 := by
        unfold Passed at behind
        omega
      refine ⟨?_, fun beyond => included.endsAt_bare cut ends empty (Or.inr beyond)⟩
      change text.EndsAt _ (if next.start.bytes = next.start.bytes then latest.stop
        else next.start).bytes
      rw [if_pos rfl]
      rcases List.getLast?_eq_some_iff.mp found with ⟨earlier, split⟩
      cases earlier with
      | nil =>
          obtain ⟨rfl, rfl⟩ := List.cons.inj split
          rw [ends]
          exact included.endsAt
      | cons first earlier =>
          rw [List.cons_append, List.cons.injEq] at split
          rcases split with ⟨rfl, rfl⟩
          rw [List.append_assoc, List.singleton_append] at cut included ⊢
          have bare := empty latest (List.mem_append_right _ (List.mem_singleton_self _))
          have same : latest.start.bytes = latest.stop.bytes := by
            have forward := cut.tail.start_le_stop
            omega
          rw [← same]
          refine included.endsAt_bare cut ends (fun other member => ?_) (Or.inl bare)
          exact empty other (List.mem_append_left _ member)
  | ends behind empty =>
      have ended : text.EndsAt (before ++ span :: after)
          ((after.getLast?.map Span.start).getD position).bytes := by
        have ends : span.stop.bytes = final + 1 := by
          unfold Passed at behind
          omega
        cases found : after.getLast? with
        | none =>
            change text.EndsAt _ position.bytes
            rw [reached]
            exact included.endsAt
        | some latest =>
            rcases List.getLast?_eq_some_iff.mp found with ⟨earlier, rfl⟩
            refine included.endsAt_bare cut ends (fun other member => ?_) (Or.inl ?_)
            · exact empty other (List.mem_append_left _ member)
            · exact empty latest (List.mem_append_right _ (List.mem_singleton_self _))
      exact ⟨ended, fun _ => ended⟩

/-! ## Steps -/

/-- Reading changes where a token ends only where it finds the end of the text. -/
theorem tokenBoundary_load (scanner : Scanner) :
    scanner.load.tokenBoundary =
      if scanner.text.size ≤ scanner.position.bytes then scanner.position
      else scanner.tokenBoundary := by
  unfold load
  cases read : Utf8.next? scanner.text scanner.position.bytes with
  | none => rw [if_pos (Utf8.next_eq_none_iff.mp read)]; rfl
  | some decoded =>
      have more : ¬scanner.text.size ≤ scanner.position.bytes := by
        intro beyond
        rw [Utf8.next_eq_none_iff.mpr beyond] at read
        cases read
      rw [if_neg more]
      rfl

/-- A token that is complete behind a step ends behind the character, or at a span without text. -/
theorem Sighted.endsAt_step (cut : text.Cut 0 spans) (sighted : scanner.Sighted text spans)
    (more : scanner.ahead ≠ []) (skip : Bool) :
    text.EndsAt spans (scanner.step skip).tokenBoundary.bytes := by
  rcases sighted.place with ended | ⟨before, span, after, rfl, ahead, previous, begun, inside⟩
  · exact absurd ended more
  · rcases sighted.sees more with ⟨decoded, read, loaded⟩
    rcases Utf8.next_spec read with ⟨positive, within, _⟩
    have short := cut.size_le begun inside read
    have bytes := bytes_past scanner.position decoded.char decoded.size
    have included : text.Includes (before ++ span :: after)
        (scanner.position.bytes + decoded.size - 1) :=
      ⟨by omega, span, by simp, by omega, by omega⟩
    have settles := settles_settle (past scanner.position decoded.char decoded.size)
      before.getLast? span after
    rw [← previous, ← ahead] at settles
    rcases reached : settle (past scanner.position decoded.char decoded.size) scanner.previous
      scanner.ahead with ⟨place, last, later⟩
    rw [reached] at settles
    rcases settles.endsAt cut included (by omega) (by omega) (by omega) with ⟨ends, ended⟩
    rw [step_eq loaded reached]
    split
    · exact ends
    · rw [tokenBoundary_load]
      by_cases beyond : text.size ≤ place.bytes
      · rw [if_pos (sighted.text_eq.symm ▸ beyond)]
        exact ended beyond
      · rw [if_neg (sighted.text_eq.symm ▸ beyond)]
        exact ends

/-! ## Tokens -/

/-- The scanner seeks a token, and if there is text between the beginning of the token and where it
would end now, or is marked to end, it ends as it should. -/
structure Bounded (text : Text) (spans : List Span) (floor : Nat) (scanner : Scanner) : Prop
    extends Seeks text spans floor scanner where
  here : scanner.tokenStart.bytes < scanner.tokenBoundary.bytes →
    text.EndsAt spans scanner.tokenBoundary.bytes
  marked : ∀ stop, scanner.tokenStop = some stop → scanner.tokenStart.bytes < stop.bytes →
    text.EndsAt spans stop.bytes

theorem Course.endsAt_advance (cut : text.Cut 0 spans) (course : Course text spans true scanner)
    (more : scanner.ahead ≠ []) (skip : Bool) :
    text.EndsAt spans (scanner.advance skip).tokenBoundary.bytes := by
  rw [Scanner.advance, if_neg (by simp [atEnd_eq_false.mpr more])]
  exact ((course.report _).sighted cut.ordered).endsAt_step cut more skip

theorem Bounded.advance (cut : text.Cut 0 spans) (bounded : scanner.Bounded text spans floor)
    (skip : Bool) : (scanner.advance skip).Bounded text spans floor := by
  by_cases ended : scanner.ahead = []
  · rw [Scanner.advance, if_pos (atEnd_eq_true.mpr ended)]
    exact bounded
  · have stepped := bounded.course.steppedFrom_advance cut.ordered ended skip
    refine ⟨bounded.toSeeks.advance cut.ordered skip,
      fun _ => bounded.course.endsAt_advance cut ended skip, fun stop marked longer => ?_⟩
    rw [stepped.tokenStop_eq] at marked
    refine bounded.marked stop marked (Nat.lt_of_le_of_lt ?_ longer)
    have forward := stepped.le_boundary
    have low := ((bounded.course.advance skip).located cut.ordered).tokenBoundary_le cut.ordered
    rw [stepped.tokenStart_eq]
    split
    · rcases bounded.begun with ⟨_, same⟩ | ⟨_, _, le⟩ <;> omega
    · exact Nat.le_refl _

theorem Bounded.markEnd (cut : text.Cut 0 spans) (bounded : scanner.Bounded text spans floor) :
    scanner.markEnd.Bounded text spans floor := by
  refine ⟨bounded.toSeeks.markEnd cut.ordered, bounded.here, fun stop marked longer => ?_⟩
  obtain rfl : scanner.tokenBoundary = stop := Option.some.inj marked
  exact bounded.here longer

theorem Bounded.accept (cut : text.Cut 0 spans) (bounded : scanner.Bounded text spans floor)
    (symbol : Nat) : (scanner.accept symbol).Bounded text spans floor := by
  have named : ({ scanner with symbol } : Scanner).Bounded text spans floor :=
    ⟨bounded.toSeeks.named symbol, bounded.here, bounded.marked⟩
  exact named.markEnd cut

theorem stable_bounded (cut : text.Cut 0 spans) :
    Stable fun scanner => scanner.Bounded text spans floor where
  advance skip bounded := bounded.advance cut skip
  markEnd bounded := bounded.markEnd cut
  accept symbol bounded := bounded.accept cut symbol

end Scanner

end Reparse
