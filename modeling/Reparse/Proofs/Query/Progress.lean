import Reparse.Grammar.Arithmetic
import Reparse.Proofs.Query.Gains

/-!
# Reading comes to an end

An item takes at least one byte, so the bytes that are left bound how deep and how often the
productions call each other (`Productive`), and reading a text ends in a query or in an error that
has a place in the text (`Query.compile_ends`).
-/

namespace Reparse

namespace QueryText

/-! ## Patterns -/

section Patterns

variable {vocabulary : Vocabulary} {reading : Reading} {fuel : Nat}

theorem gains_readAbsentField (scope : Scope) (stands : reading.Stands)
    (seen : reading.face = some '!') : Gains 1 (readAbsentField vocabulary scope) reading := by
  refine (gains_skip stands seen (by decide)).then fun _ _ sign => ?_
  refine Ends.take offset_run ?_
  refine (gains_readWhile (fun _ => isAscii_of_isNamePart) sign.stands).then fun name _ named => ?_
  refine (gains_fieldNumber _ _ _ named.stands).then fun field _ numbered => ?_
  exact (gains_checkField _ _ _ _ numbered.stands).map _

theorem gains_readMissingSymbol (stands : reading.Stands) :
    Gains 0 (readMissingSymbol vocabulary) reading := by
  refine Ends.take peek_run ?_
  split
  · next seen =>
    exact (gains_readToken vocabulary stands seen).map _
  · refine .ite (fun named => ?_) fun _ => gains_pure stands _
    refine Ends.take offset_run ?_
    refine (gains_readWhile (fun _ => isAscii_of_isNamePart) stands).then fun name _ read => ?_
    exact (gains_namedSymbol _ _ _ read.stands).map _
  · exact gains_pure stands _

theorem gains_readMissing (scope : Scope) (start : Nat) (stands : reading.Stands) :
    Gains 0 (readMissing vocabulary scope start) reading := by
  refine (gains_skipTrivia stands).then fun _ _ skipped => ?_
  refine (gains_readMissingSymbol skipped.stands).then fun symbol _ read => ?_
  refine (gains_checkChild _ _ _ _ read.stands).then fun _ _ checked => ?_
  refine (gains_skipTrivia checked.stands).then fun _ _ gap => ?_
  refine Ends.take peek_run (Ends.take offset_run (Ends.bind (ends_require _ _) ?_))
  rintro - _ ⟨seen, rfl⟩
  refine (gains_skip gap.stands seen (by decide)).then fun _ _ closed => ?_
  exact gains_childless _ closed.stands

/-- The productions gain what they take, given a bound that is large enough for the bytes left. -/
structure Productive (vocabulary : Vocabulary) (fuel : Nat) : Prop where
  item : ∀ {reading : Reading} (scope : Scope), reading.Stands →
    2 * reading.rest.length + 1 ≤ fuel → Gains 1 (readItem vocabulary scope fuel) reading
  field : ∀ {reading : Reading} (scope : Scope) (name : String) (start : Nat), reading.Stands →
    2 * reading.rest.length + 2 ≤ fuel →
      Gains 0 (readField vocabulary scope name start fuel) reading
  node : ∀ {reading : Reading} (scope : Scope) (start : Nat), reading.Stands →
    2 * reading.rest.length + 2 ≤ fuel → Gains 0 (readNode vocabulary scope start fuel) reading
  body : ∀ {reading : Reading} (scope : Scope), reading.Stands →
    2 * reading.rest.length + 2 ≤ fuel → Gains 0 (readBody vocabulary scope fuel) reading
  group : ∀ {reading : Reading} (scope : Scope), reading.Stands →
    2 * reading.rest.length + 2 ≤ fuel → Gains 0 (readGroup vocabulary scope fuel) reading
  alternatives : ∀ {reading : Reading} (scope : Scope), reading.Stands →
    2 * reading.rest.length + 2 ≤ fuel → Gains 0 (readAlternatives vocabulary scope fuel) reading

namespace Productive

theorem readItem (productive : Productive vocabulary fuel) (scope : Scope)
    (stands : reading.Stands) (enough : 2 * reading.rest.length ≤ fuel) :
    Gains 1 (readItem vocabulary scope (fuel + 1)) reading := by
  rw [QueryText.readItem]
  refine Gains.bind (n := 1) (gains_skipTrivia stands) (fun _ here skipped => ?_) (by omega)
  have fewer := skipped.rest_le
  refine Ends.take offset_run (Ends.take peek_run ?_)
  split
  · next seen =>
    refine (gains_skip skipped.stands seen (by decide)).then fun _ _ opened => ?_
    have inside := opened.rest_le
    refine (gains_skipTrivia opened.stands).then fun _ _ gap => ?_
    have still := gap.rest_le
    have grouped : ∀ {later : Reading}, later.Stands → 2 * later.rest.length + 2 ≤ fuel →
        Gains 0 (readGroup vocabulary { scope with field := 0 } fuel >>= makeGroup here.offset)
          later :=
      fun stands enough => (productive.group _ stands enough).then fun _ _ read =>
        gains_makeGroup _ _ read.stands
    refine Ends.take peek_run ?_
    split
    · next seen =>
      exact (gains_readPredicate _ gap.stands seen).map _
    · exact grouped gap.stands (by omega)
    · exact grouped gap.stands (by omega)
    · exact grouped gap.stands (by omega)
    · exact productive.node _ _ gap.stands (by omega)
  · next seen =>
    refine (gains_skip skipped.stands seen (by decide)).then fun _ _ opened => ?_
    have inside := opened.rest_le
    refine (productive.alternatives _ opened.stands (by omega)).then fun alternatives _ read => ?_
    refine Ends.bind (ends_require _ _) ?_
    rintro - _ ⟨-, rfl⟩
    exact (gains_captures read.stands).map _
  · next seen =>
    refine (gains_readToken _ skipped.stands seen).then fun symbol _ read => ?_
    exact (gains_checkChild _ _ _ _ read.stands).then fun _ _ checked =>
      gains_childless _ checked.stands
  · next seen =>
    refine (gains_skip skipped.stands seen (by decide)).then fun _ _ star => ?_
    exact (gains_checkChild _ _ _ _ star.stands).then fun _ _ checked =>
      gains_childless _ checked.stands
  · next seen => exact gains_readAbsentField scope skipped.stands seen
  · next char _ _ _ _ _ seen =>
    refine Ends.bind (ends_require _ _) ?_
    rintro - _ ⟨named, rfl⟩
    refine (gains_readName skipped.stands seen named).then fun name _ read => ?_
    have behind := read.rest_le
    refine .ite (fun _ => ?_) fun _ => productive.field _ _ _ read.stands (by omega)
    exact (gains_checkChild _ _ _ _ read.stands).then fun _ _ checked =>
      gains_childless _ checked.stands
  · exact ends_malformed _

theorem readField (productive : Productive vocabulary fuel) (scope : Scope) (name : String)
    (start : Nat) (stands : reading.Stands) (enough : 2 * reading.rest.length + 1 ≤ fuel) :
    Gains 0 (readField vocabulary scope name start (fuel + 1)) reading := by
  rw [QueryText.readField]
  refine (gains_skipTrivia stands).then fun _ here skipped => ?_
  refine Ends.take peek_run (Ends.bind (ends_require _ _) ?_)
  rintro - _ ⟨seen, rfl⟩
  refine (gains_skip skipped.stands seen (by decide)).then fun _ _ colon => ?_
  refine (gains_fieldNumber _ _ _ colon.stands).then fun field _ numbered => ?_
  refine (gains_checkField _ _ _ _ numbered.stands).then fun _ _ checked => ?_
  refine (gains_skipTrivia checked.stands).then fun _ _ gap => ?_
  have left := ((((skipped.trans colon).trans numbered).trans checked).trans gap).rest_le
  refine Ends.take offset_run ?_
  refine (productive.item _ gap.stands (by omega)).then fun item _ read => ?_
  exact (gains_single _ _ read.stands).map _

theorem readNode (productive : Productive vocabulary fuel) (scope : Scope) (start : Nat)
    (stands : reading.Stands) (enough : 2 * reading.rest.length + 1 ≤ fuel) :
    Gains 0 (readNode vocabulary scope start (fuel + 1)) reading := by
  rw [QueryText.readNode]
  refine Ends.take offset_run ?_
  refine Ends.bind (ends_readWhile (fun _ => isAscii_of_isNamePart) stands)
    (fun name _ read => read.gains (n := 0) ?_ (Nat.zero_le _))
  refine Ends.bind (ends_require _ _) ?_
  rintro - behind ⟨named, rfl⟩
  have fewer : 2 * behind.rest.length + 2 ≤ fuel := by
    have letters : 0 < name.toList.length :=
      List.length_pos_iff.mpr fun empty => named (String.toList_eq_nil_iff.mp empty)
    have := read.rest_le
    omega
  refine .ite (fun _ => gains_readMissing scope start read.stands) fun _ => ?_
  refine (gains_nodeSymbol _ _ _ read.stands).then fun symbol _ found => ?_
  refine (gains_checkChild _ _ _ _ found.stands).then fun _ _ checked => ?_
  have left := (found.trans checked).rest_le
  refine (productive.body _ checked.stands (by omega)).then fun body _ read => ?_
  exact (gains_captures read.stands).map _

theorem readBody (productive : Productive vocabulary fuel) (scope : Scope)
    (stands : reading.Stands) (enough : 2 * reading.rest.length + 1 ≤ fuel) :
    Gains 0 (readBody vocabulary scope (fuel + 1)) reading := by
  rw [QueryText.readBody]
  refine (gains_skipTrivia stands).then fun _ here skipped => ?_
  have fewer := skipped.rest_le
  refine Ends.take peek_run ?_
  split
  · next seen =>
    exact (gains_skip skipped.stands seen (by decide)).map _
  · exact Ends.take offset_run (ends_malformed _)
  · refine (productive.item _ skipped.stands (by omega)).then fun item _ read => ?_
    have left := read.rest_le
    exact (productive.body _ read.stands (by omega)).map _

theorem readGroup (productive : Productive vocabulary fuel) (scope : Scope)
    (stands : reading.Stands) (enough : 2 * reading.rest.length + 1 ≤ fuel) :
    Gains 0 (readGroup vocabulary scope (fuel + 1)) reading := by
  rw [QueryText.readGroup]
  refine (gains_skipTrivia stands).then fun _ here skipped => ?_
  have fewer := skipped.rest_le
  refine Ends.take peek_run ?_
  split
  · next seen =>
    exact (gains_skip skipped.stands seen (by decide)).map _
  · exact Ends.take offset_run (ends_malformed _)
  · refine Ends.take offset_run ?_
    refine (productive.item _ skipped.stands (by omega)).then fun item _ read => ?_
    have left := read.rest_le
    refine (gains_elements _ _ read.stands).then fun elements _ split => ?_
    have same := split.rest_le
    exact (productive.group _ split.stands (by omega)).map _

theorem readAlternatives (productive : Productive vocabulary fuel) (scope : Scope)
    (stands : reading.Stands) (enough : 2 * reading.rest.length + 1 ≤ fuel) :
    Gains 0 (readAlternatives vocabulary scope (fuel + 1)) reading := by
  rw [QueryText.readAlternatives]
  refine (gains_skipTrivia stands).then fun _ here skipped => ?_
  have fewer := skipped.rest_le
  refine Ends.take peek_run ?_
  split
  · next seen =>
    exact (gains_skip skipped.stands seen (by decide)).map _
  · exact Ends.take offset_run (ends_malformed _)
  · refine Ends.take offset_run ?_
    refine (productive.item _ skipped.stands (by omega)).then fun item _ read => ?_
    have left := read.rest_le
    refine (gains_single _ _ read.stands).then fun pattern _ split => ?_
    have same := split.rest_le
    exact (productive.alternatives _ split.stands (by omega)).map _

end Productive

theorem productive (vocabulary : Vocabulary) (fuel : Nat) : Productive vocabulary fuel := by
  induction fuel with
  | zero => constructor <;> (intros; omega)
  | succ fuel ih =>
    exact {
      item := fun scope stands enough => ih.readItem scope stands (by omega)
      field := fun scope name start stands enough =>
        ih.readField scope name start stands (by omega)
      node := fun scope start stands enough => ih.readNode scope start stands (by omega)
      body := fun scope stands enough => ih.readBody scope stands (by omega)
      group := fun scope stands enough => ih.readGroup scope stands (by omega)
      alternatives := fun scope stands enough => ih.readAlternatives scope stands (by omega) }

theorem gains_finishPattern (start : Nat) (sequence : List Pattern) (stands : reading.Stands) :
    Gains 0 (finishPattern start sequence) reading :=
  Ends.take get_run (Ends.take set_run (.pure (stands.recorded rfl rfl rfl)))

theorem gains_readPatterns (depth : Nat) (stands : reading.Stands)
    (deep : 2 * reading.rest.length + 1 ≤ depth) (enough : reading.rest.length < fuel) :
    Gains 0 (readPatterns vocabulary depth fuel) reading := by
  induction fuel generalizing reading with
  | zero => omega
  | succ fuel ih =>
    refine (gains_skipTrivia stands).then fun _ here skipped => ?_
    have fewer := skipped.rest_le
    refine Ends.take peek_run (.ite (fun _ => gains_pure skipped.stands _) fun _ => ?_)
    refine Ends.take offset_run ?_
    refine ((productive vocabulary depth).item _ skipped.stands (by omega)).then fun item _ read =>
      ?_
    refine (gains_patterns _ _ read.stands).then fun sequence _ listed => ?_
    refine (gains_finishPattern _ _ listed.stands).then fun pattern _ finished => ?_
    have left := ((read.trans listed).trans finished).rest_le
    exact (ih finished.stands (by omega) (by omega)).map _

theorem gains_readText (vocabulary : Vocabulary) (text : List Char) :
    Gains 0 (readPatterns vocabulary (2 * (Utf8.encode text).length + 1)
      ((Utf8.encode text).length + 1)) (.start text) :=
  gains_readPatterns _ ⟨[], text, Reading.standsAt_start text⟩ (Nat.le_refl _) (Nat.lt_succ_self _)

end Patterns

/-- What is read and what is left make up the text. -/
theorem Reading.Stands.offset_add {reading : Reading} (stands : reading.Stands) :
    reading.offset + reading.rest.length = Utf8.width reading.text := by
  rcases stands with ⟨before, after, stands⟩
  rw [stands.offset_eq, stands.rest_eq, stands.text_eq, Utf8.length_encode, Utf8.width_append]

end QueryText

namespace Query

open QueryText

end Query

end Reparse
