import Mathlib.Data.List.Infix
import Reparse.Grammar.Arithmetic
import Reparse.Proofs.Document.Obtained

/-!
# Documents of whole texts

A parse without spans sees the whole text, and its document says so by one span, from the first byte
to the end of everything. Parses take subtrees over only from documents with the spans that they see
themselves. An edit never moves the end of that span. Its start is a position like others, however:
text that is inserted before the first byte pushes it back, and the document looks as if its parse
had not seen that text.
-/

namespace Reparse

/-- The edit inserts text before the first byte of the document and removes none. -/
def Edit.GrowsFront (edit : Edit) : Prop :=
  edit.oldStop.bytes = 0 ∧ edit.newStop ≠ Extent.zero

instance (edit : Edit) : Decidable edit.GrowsFront := instDecidableAnd

/-- The start of a document moves to the end of what is inserted there. -/
theorem Edit.shift_zero (edit : Edit) :
    edit.shift Extent.zero = if edit.oldStop.bytes = 0 then edit.newStop else Extent.zero := by
  rcases edit with ⟨start, ⟨oldBytes, oldPoint⟩, ⟨newBytes, newPoint⟩⟩
  rcases Nat.eq_zero_or_pos oldBytes with rfl | positive
  · have gone : (Extent.zero - (⟨0, oldPoint⟩ : Extent)) = Extent.zero := by
      show Extent.mk _ (Point.difference _ _) = _
      simp [Extent.zero, Point.zero, Point.difference]
    have kept : (⟨newBytes, newPoint⟩ : Extent) + Extent.zero = ⟨newBytes, newPoint⟩ := by
      show Extent.mk _ (Point.append _ _) = _
      simp [Extent.zero, Point.zero, Point.append]
    simp only [Edit.shift, gone, kept]
    simp
  · have later : ¬ oldBytes ≤ Extent.zero.bytes := by
      simp only [Extent.zero]
      omega
    have inside : ¬ start.bytes < Extent.zero.bytes := by simp [Extent.zero]
    have nonzero : oldBytes ≠ 0 := by omega
    simp [Edit.shift, later, inside, nonzero]

namespace Span

/-- An edit does not move the end of a span that goes to the end of everything. -/
theorem stop_shift_whole (edit : Edit) : (whole.shift edit).stop = Extent.max := by
  simp [shift, whole, Extent.max]

/-- The span of everything stays as it is if and only if nothing is inserted before the first byte. -/
theorem shift_whole_eq_iff (edit : Edit) : whole.shift edit = whole ↔ ¬ edit.GrowsFront := by
  have end_ : whole.stop = Extent.max := rfl
  have start : (whole.shift edit).start = edit.shift Extent.zero := rfl
  constructor
  · rintro same ⟨front, grown⟩
    apply grown
    rw [same, Edit.shift_zero, if_pos front] at start
    exact start.symm
  · intro keeps
    have stays : edit.shift Extent.zero = Extent.zero := by
      rw [Edit.shift_zero]
      split
      · rename_i front
        by_contra grown
        exact keeps ⟨front, grown⟩
      · rfl
    rw [stays] at start
    calc whole.shift edit = ⟨(whole.shift edit).start, (whole.shift edit).stop⟩ := rfl
      _ = whole := by rw [start, stop_shift_whole]; rfl

/-- A list of spans does not differ from itself when it is that of everything. -/
theorem symmetricDifference_whole : symmetricDifference [whole] [whole] = [] := by
  simp [symmetricDifference, boundaries, differences, whole]

end Span

namespace Document

variable {parser : Parser} {language : Language} {text : Text} {old : Option Document}
  {parsed : Parsed}

/-- The document after several edits, the first of the list first. -/
def editAll (document : Document) (edits : List Edit) : Document := edits.foldl Document.edit document

/-- The document says that its parse has seen the whole text. -/
def IsWhole (document : Document) : Prop := document.spans = [Span.whole]

instance (document : Document) : Decidable document.IsWhole :=
  inferInstanceAs (Decidable (document.spans = [Span.whole]))

theorem language_editAll (document : Document) (edits : List Edit) :
    (document.editAll edits).language = document.language := by
  induction edits generalizing document with
  | nil => rfl
  | cons edit rest ih => exact ih (document.edit edit)

/-- One edit. -/
theorem IsWhole.edit_iff {document : Document} (all : document.IsWhole) (edit : Edit) :
    (document.edit edit).IsWhole ↔ ¬ edit.GrowsFront := by
  have spans : (document.edit edit).spans = [Span.whole.shift edit] := by
    simp only [Document.edit, show document.spans = [Span.whole] from all, List.map_cons, List.map_nil]
  rw [IsWhole, spans, List.cons.injEq]
  simp [Span.shift_whole_eq_iff]

/-- Edits that never insert before the first byte. -/
theorem IsWhole.editAll {document : Document} (all : document.IsWhole) {edits : List Edit}
    (keep : ∀ edit ∈ edits, ¬ edit.GrowsFront) : (document.editAll edits).IsWhole := by
  induction edits generalizing document with
  | nil => exact all
  | cons edit rest ih =>
      rcases List.forall_mem_cons.mp keep with ⟨first, later⟩
      exact ih ((all.edit_iff edit).mpr first) later

/-- A document stays that of a whole text at every stage of a list of edits if and only if none of
them inserts before the first byte. -/
theorem IsWhole.editAll_iff {document : Document} (all : document.IsWhole) (edits : List Edit) :
    (∀ made, made <+: edits → (document.editAll made).IsWhole) ↔
      ∀ edit ∈ edits, ¬ edit.GrowsFront := by
  constructor
  · intro stages
    induction edits generalizing document with
    | nil => simp
    | cons edit rest ih =>
        have first : (document.edit edit).IsWhole := stages [edit] (by simp)
        have later : ∀ made, made <+: rest → ((document.edit edit).editAll made).IsWhole := by
          intro made front
          exact stages (edit :: made) (List.cons_prefix_cons.mpr ⟨rfl, front⟩)
        intro other among
        rcases List.mem_cons.mp among with rfl | among
        · exact (all.edit_iff other).mp first
        · exact ih first later other among
  · intro keep made front
    apply all.editAll
    intro edit among
    exact keep edit (front.subset among)

end Document

namespace Parser

variable {parser : Parser} {language : Language} {text : Text} {old : Option Document}
  {parsed : Parsed}

/-- What a parse remembers of its language and of the spans it has seen. -/
theorem recalls_parseIn (run : parser.parseIn language text old = .ok parsed) :
    parsed.document.language = language ∧ parsed.document.spans = parser.included := by
  unfold parseIn at run
  simp only at run
  split at run
  · cases run
  · cases run
    exact ⟨rfl, rfl⟩

theorem included_of_unbound (unbound : parser.spans = []) : parser.included = [Span.whole] := by
  simp [included, unbound]

/-- The document of a parse that was not given any spans is that of a whole text. -/
theorem isWhole_parseIn (unbound : parser.spans = [])
    (run : parser.parseIn language text old = .ok parsed) : parsed.document.IsWhole :=
  (recalls_parseIn run).2.trans (included_of_unbound unbound)

/-- A parse without spans may take over subtrees of a document of its language if and only if that is
the document of a whole text. -/
theorem reusableTree_eq_some_iff (unbound : parser.spans = []) (older : Document) :
    parser.reusableTree older.language (some older) = some older.tree ↔ older.IsWhole := by
  have same : older.language.isSame older.language = true := by simp [Language.isSame]
  simp [reusableTree, same, included_of_unbound unbound, Document.IsWhole]

end Parser

/-- The document of a parse without spans stays that of a whole text through all stages of a list of
edits if and only if no edit inserts before the first byte. It is then open to the next parse without
spans, whose document does not differ from it in its spans. -/
theorem whole_through_edits_iff {parser : Parser} {language : Language} {text : Text}
    {old : Option Document} {parsed : Parsed} (unbound : parser.spans = [])
    (run : parser.parseIn language text old = .ok parsed) (edits : List Edit) :
    ((∀ made, made <+: edits → (parsed.document.editAll made).spans = [Span.whole]) ↔
        ∀ edit ∈ edits, ¬ edit.GrowsFront) ∧
      ∀ next : Parser, next.spans = [] →
        (next.reusableTree language (some (parsed.document.editAll edits)) =
            some (parsed.document.editAll edits).tree ↔
          (parsed.document.editAll edits).spans = [Span.whole]) ∧
        ((parsed.document.editAll edits).spans = [Span.whole] →
          ∀ newText reparsed,
            next.parseIn language newText (some (parsed.document.editAll edits)) = .ok reparsed →
            Span.symmetricDifference (parsed.document.editAll edits).spans
              reparsed.document.spans = []) := by
  have all := Parser.isWhole_parseIn unbound run
  have same : (parsed.document.editAll edits).language = language :=
    (Document.language_editAll _ _).trans (Parser.recalls_parseIn run).1
  refine ⟨all.editAll_iff edits, ?_⟩
  intro next free
  constructor
  · have open_ := Parser.reusableTree_eq_some_iff free (parsed.document.editAll edits)
    rwa [same] at open_
  · intro stays newText reparsed rerun
    rw [stays, Parser.isWhole_parseIn free rerun]
    exact Span.symmetricDifference_whole

/-- The digit in `1+2` is replaced and the text after it removed. -/
theorem whole_through_edits_iff_replaced :
    ∃ parsed, Parser.new.spans = [] ∧
      Parser.new.parseIn (Language.arithmetic 0) #[49, 43, 50] none = .ok parsed ∧
      ∀ made, made <+: [⟨⟨0, ⟨0, 0⟩⟩, ⟨1, ⟨0, 1⟩⟩, ⟨2, ⟨0, 2⟩⟩⟩, ⟨⟨2, ⟨0, 2⟩⟩, ⟨4, ⟨0, 4⟩⟩, ⟨2, ⟨0, 2⟩⟩⟩] →
        (parsed.document.editAll made).spans = [Span.whole] := by
  have well : (Parser.new.parseIn (Language.arithmetic 0) #[49, 43, 50] none).isOk = true := by
    decide +kernel
  rcases exists_ok_of_isOk well with ⟨parsed, run⟩
  refine ⟨parsed, rfl, run, ?_⟩
  apply (whole_through_edits_iff rfl run _).1.mpr
  decide

/-- A blank is inserted before `1`. The document, of a parse without spans, then has a span that
begins after the blank, the next parse without spans takes nothing over from it, and it differs in its
spans from the document of that parse. -/
theorem whole_lost_at_front :
    ∃ parsed reparsed, Parser.new.spans = [] ∧
      Parser.new.parseIn (Language.arithmetic 0) #[49] none = .ok parsed ∧
      (parsed.document.edit ⟨⟨0, ⟨0, 0⟩⟩, ⟨0, ⟨0, 0⟩⟩, ⟨1, ⟨0, 1⟩⟩⟩).spans =
        [⟨⟨1, ⟨0, 1⟩⟩, Extent.max⟩] ∧
      Parser.new.reusableTree (Language.arithmetic 0)
        (some (parsed.document.edit ⟨⟨0, ⟨0, 0⟩⟩, ⟨0, ⟨0, 0⟩⟩, ⟨1, ⟨0, 1⟩⟩⟩)) = none ∧
      Parser.new.parseIn (Language.arithmetic 0) #[32, 49]
        (some (parsed.document.edit ⟨⟨0, ⟨0, 0⟩⟩, ⟨0, ⟨0, 0⟩⟩, ⟨1, ⟨0, 1⟩⟩⟩)) = .ok reparsed ∧
      Span.symmetricDifference
        (parsed.document.edit ⟨⟨0, ⟨0, 0⟩⟩, ⟨0, ⟨0, 0⟩⟩, ⟨1, ⟨0, 1⟩⟩⟩).spans
        reparsed.document.spans = [⟨⟨0, ⟨0, 0⟩⟩, ⟨1, ⟨0, 1⟩⟩⟩] := by
  let edit : Edit := ⟨⟨0, ⟨0, 0⟩⟩, ⟨0, ⟨0, 0⟩⟩, ⟨1, ⟨0, 1⟩⟩⟩
  have facts : (match Parser.new.parseIn (Language.arithmetic 0) #[49] none with
      | .ok parsed =>
        match Parser.new.parseIn (Language.arithmetic 0) #[32, 49]
          (some (parsed.document.edit edit)) with
        | .ok reparsed =>
          (Parser.new.reusableTree (Language.arithmetic 0)
              (some (parsed.document.edit edit))).isNone &&
            decide ((parsed.document.edit edit).spans = [⟨⟨1, ⟨0, 1⟩⟩, Extent.max⟩] ∧
              Span.symmetricDifference (parsed.document.edit edit).spans reparsed.document.spans =
                [⟨⟨0, ⟨0, 0⟩⟩, ⟨1, ⟨0, 1⟩⟩⟩])
        | .error _ => false
      | .error _ => false) = true := by decide +kernel
  cases run : Parser.new.parseIn (Language.arithmetic 0) #[49] none with
  | error fault => simp [run] at facts
  | ok parsed =>
      cases rerun : Parser.new.parseIn (Language.arithmetic 0) #[32, 49]
          (some (parsed.document.edit edit)) with
      | error fault => simp [run, rerun] at facts
      | ok reparsed =>
          simp only [run, rerun, Bool.and_eq_true, Option.isNone_iff_eq_none,
            decide_eq_true_eq] at facts
          rcases facts with ⟨refused, spans, differs⟩
          exact ⟨parsed, reparsed, rfl, rfl, spans, refused, rerun, differs⟩

end Reparse
