import Reparse.Proofs.Arithmetic.Run
import Reparse.Proofs.Arithmetic.Transport
import Reparse.Proofs.Document.Obtained

/-!
# Parsing again after edits

A text of the arithmetic language is parsed in rounds, each of them from scratch or with the document
of an earlier round that was edited along with its text (`Arithmetic.Round`). Every round comes to
the root of the derivation of its text, so it does not matter which subtrees it took over: parsing
an edited text with the edited document gives the tree that parsing it from scratch gives
(`Arithmetic.reparse_eq_parse`).

All this is about texts short enough that the place behind the last byte that a scan looks at, which
is one past the end of the text, has a number.
-/

namespace Reparse

/-- A parser that may see all of a text and work on it without a limit. -/
structure Parser.Unconfined (parser : Parser) : Prop where
  spans_eq : parser.spans = []
  limit_eq : parser.limit = 0

namespace Arithmetic

variable {parser : Parser} {identity : Nat} {document current : Document}
  {text currentText : Text}

/-- The tree of a document is the root of the derivation of a text. -/
def Derives (document : Document) (text : Text) : Prop :=
  ∃ items, Expressions text 0 items ∧ document.tree = Tree.root vocabulary items

/-- An operand that no edit touched was derived from text that the edited text still has where the
operand lies now. -/
theorem Derives.operand_of_unmarked (derives : Derives document text) (obtained : document.Obtained)
    (revised : document.Revised text current currentText) {path : List Nat} {offset : Nat}
    {found : Tree} (at_ : current.tree.At path offset found)
    (state : found.info.state = operandState) (unmarked : found.info.changed = false) :
    ∃ source stop, Operand text source found stop ∧
      text.Mirrors currentText source offset stop ∧ (source = 0 → offset = 0) := by
  rcases derives with ⟨items, expressions, treeEq⟩
  rcases expressions.root with ⟨operands, fronted⟩
  rw [← treeEq] at operands fronted
  rcases revised.agree obtained at_ unmarked with ⟨source, before, agree⟩
  rcases operands path source found before state with ⟨stop, operand⟩
  rw [Nat.zero_add] at operand
  have looks := operand.looks
  have wide := operand.part.bytes_total
  refine ⟨source, stop, operand, ?_, fun zero =>
    at_.zero_of_first (before.first_of_zero fronted zero)⟩
  intro place image begun inside moved
  have same := agree (place - source) (by simp only [Tree.reach]; omega)
  rw [show source + (place - source) = place by omega,
    show offset + (place - source) = image by omega] at same
  exact same

/-- An operand without an error that no edit touched is an operand of the edited text where it lies
now. -/
theorem Derives.reliable (derives : Derives document text) (obtained : document.Obtained)
    (revised : document.Revised text current currentText) :
    Reliable currentText (some current.tree) := by
  intro tree same offset found search
  cases same
  rcases Tree.at_of_findReusable search with ⟨path, at_, suits⟩
  have costless : found.info.cost = 0 := by simpa [Info.hasError] using suits.clean
  rcases derives.operand_of_unmarked obtained revised at_ suits.state_eq suits.unmarked with
    ⟨source, stop, operand, mirrors, beginning⟩
  have wide := operand.lt
  exact ⟨offset + (stop - source), operand.along mirrors beginning costless (Nat.le_refl _)
    (Nat.le_refl _) (Nat.add_comm _ _) (by omega)⟩

/-- A parser gives the tree that its grammar comes to. -/
theorem exists_parsed_of_run {old : Option Document} {tree : Tree} {after : Context}
    (run : (Parsing.wholeTree grammar).run
      (Context.new vocabulary program text parser.included
        (parser.reusableTree (Language.arithmetic identity) old) parser.limit) =
          .ok (tree, after)) :
    ∃ parsed, parser.parseIn (Language.arithmetic identity) text old = .ok parsed ∧
      parsed.document.tree = tree := by
  have whole : StateT.run (Parsing.wholeTree (Language.arithmetic identity).grammar)
      (Context.new (Language.arithmetic identity).vocabulary (Language.arithmetic identity).program
        text parser.included (parser.reusableTree (Language.arithmetic identity) old)
        parser.limit) = .ok (tree, after) := run
  refine ⟨⟨Document.new (Language.arithmetic identity) text tree parser.included,
    after.scanner.log.reverse, after.remarks.reverse⟩, ?_, rfl⟩
  dsimp only [Parser.parseIn]
  rw [whole]

/-- A parse comes to the root of the derivation of its text if what it may take over can be relied
on. -/
theorem exists_derives_of_reliable {old : Option Document} (unconfined : parser.Unconfined)
    (short : text.size < maxOffset)
    (reliable : Reliable text (parser.reusableTree (Language.arithmetic identity) old)) :
    ∃ parsed, parser.parseIn (Language.arithmetic identity) text old = .ok parsed ∧
      Derives parsed.document text := by
  rcases run_wholeTree short reliable with ⟨items, after, run, expressions⟩
  have included : parser.included = [Span.whole] := by simp [Parser.included, unconfined.spans_eq]
  rw [← included, ← unconfined.limit_eq] at run
  rcases exists_parsed_of_run run with ⟨parsed, parse, tree⟩
  exact ⟨parsed, parse, items, expressions, tree⟩

theorem exists_derives_of_scratch (unconfined : parser.Unconfined) (short : text.size < maxOffset) :
    ∃ parsed, parser.parseIn (Language.arithmetic identity) text none = .ok parsed ∧
      Derives parsed.document text :=
  exists_derives_of_reliable unconfined short (by simp [Reliable, Parser.reusableTree])

theorem Derives.exists_reparse (derives : Derives document text) (obtained : document.Obtained)
    (revised : document.Revised text current currentText) (unconfined : parser.Unconfined)
    (short : currentText.size < maxOffset) :
    ∃ parsed, parser.parseIn (Language.arithmetic identity) currentText (some current) =
        .ok parsed ∧ Derives parsed.document currentText := by
  apply exists_derives_of_reliable unconfined short
  intro tree taken
  have same : tree = current.tree := by
    dsimp only [Parser.reusableTree] at taken
    split at taken
    · exact (Option.some.inj taken).symm
    · cases taken
  subst same
  exact derives.reliable obtained revised current.tree rfl

/-- A text has one tree, but for the record of what was looked at. -/
theorem Derives.unique {other : Document} (derives : Derives document text)
    (again : Derives other text) : document.tree.bare = other.tree.bare := by
  rcases derives with ⟨items, expressions, treeEq⟩
  rcases again with ⟨others, expressionsAgain, treeEqAgain⟩
  rw [treeEq, treeEqAgain, ← Tree.bare_root, expressions.unique expressionsAgain, Tree.bare_root]

/-! ## Rounds -/

/-- The documents of the language that rounds of parsing lead to, each with its text: a round parses
a text from scratch, or again with the document of an earlier round that was edited like the text. -/
inductive Round (identity : Nat) : Document → Text → Prop where
  | scratch {parser : Parser} {text : Text} {parsed : Parsed} (unconfined : parser.Unconfined)
      (short : text.size < maxOffset)
      (run : parser.parseIn (Language.arithmetic identity) text none = .ok parsed) :
      Round identity parsed.document text
  | again {parser : Parser} {document current : Document} {text currentText : Text}
      {parsed : Parsed} (round : Round identity document text)
      (revised : document.Revised text current currentText) (unconfined : parser.Unconfined)
      (short : currentText.size < maxOffset)
      (run : parser.parseIn (Language.arithmetic identity) currentText (some current) =
        .ok parsed) : Round identity parsed.document currentText

theorem Round.obtained (round : Round identity document text) : document.Obtained := by
  induction round with
  | scratch _ _ run => exact .parsed byInterface_grammar (by simp) run
  | again _ revised _ _ run ih =>
      refine .parsed byInterface_grammar ?_ run
      intro older same
      cases same
      exact revised.obtained ih

/-- The invariant of the rounds: whatever was taken over, the tree is the one of the derivation. -/
theorem Round.derives (round : Round identity document text) : Derives document text := by
  induction round with
  | scratch unconfined short run =>
      rcases exists_derives_of_scratch unconfined short with ⟨parsed, again, derives⟩
      rw [run, Except.ok.injEq] at again
      exact again ▸ derives
  | again round revised unconfined short run ih =>
      rcases ih.exists_reparse round.obtained revised unconfined short with
        ⟨parsed, again, derives⟩
      rw [run, Except.ok.injEq] at again
      exact again ▸ derives

/-- Parsing an edited text with the edited document comes to the tree of a parse from scratch. Only
the record of the bytes that scans looked at may differ. -/
theorem reparse_eq_parse (round : Round identity document text)
    (revised : document.Revised text current currentText) (unconfined : parser.Unconfined)
    (short : currentText.size < maxOffset) :
    ∃ reparsed parsed,
      parser.parseIn (Language.arithmetic identity) currentText (some current) = .ok reparsed ∧
      parser.parseIn (Language.arithmetic identity) currentText none = .ok parsed ∧
      reparsed.document.tree.bare = parsed.document.tree.bare := by
  rcases round.derives.exists_reparse round.obtained revised unconfined short with
    ⟨reparsed, again, derives⟩
  rcases exists_derives_of_scratch unconfined short with ⟨parsed, run, derivesFresh⟩
  exact ⟨reparsed, parsed, again, run, derives.unique derivesFresh⟩

/-- In `12+(3)`, whose first number is replaced by `457`, the operand in parentheses is taken over. -/
theorem reparse_eq_parse_replaced :
    ∃ old reparsed parsed,
      Parser.new.parseIn (Language.arithmetic 0) #[49, 50, 43, 40, 51, 41] none = .ok old ∧
      Parser.new.parseIn (Language.arithmetic 0) #[52, 53, 55, 43, 40, 51, 41]
        (some (old.document.edit ⟨⟨0, ⟨0, 0⟩⟩, ⟨2, ⟨0, 2⟩⟩, ⟨3, ⟨0, 3⟩⟩⟩)) = .ok reparsed ∧
      Notice.reused "expression" ∈ reparsed.log ∧
      Parser.new.parseIn (Language.arithmetic 0) #[52, 53, 55, 43, 40, 51, 41] none = .ok parsed ∧
      reparsed.document.tree.bare = parsed.document.tree.bare := by
  let edit : Edit := ⟨⟨0, ⟨0, 0⟩⟩, ⟨2, ⟨0, 2⟩⟩, ⟨3, ⟨0, 3⟩⟩⟩
  have facts : (match Parser.new.parseIn (Language.arithmetic 0) #[49, 50, 43, 40, 51, 41] none with
      | .ok old =>
        match Parser.new.parseIn (Language.arithmetic 0) #[52, 53, 55, 43, 40, 51, 41]
          (some (old.document.edit edit)) with
        | .ok reparsed => decide (Notice.reused "expression" ∈ reparsed.log)
        | .error _ => false
      | .error _ => false) = true := by decide +kernel
  have unconfined : Parser.new.Unconfined := ⟨rfl, rfl⟩
  cases run : Parser.new.parseIn (Language.arithmetic 0) #[49, 50, 43, 40, 51, 41] none with
  | error fault => simp [run] at facts
  | ok old =>
      simp only [run] at facts
      have fits : edit.Fits #[49, 50, 43, 40, 51, 41] #[52, 53, 55] :=
        ⟨by decide, by decide, by decide⟩
      rcases reparse_eq_parse (.scratch unconfined (by decide) run) (.edited .unedited fits)
        unconfined (by decide) with ⟨reparsed, parsed, again, fresh, same⟩
      have again : Parser.new.parseIn (Language.arithmetic 0) #[52, 53, 55, 43, 40, 51, 41]
          (some (old.document.edit edit)) = .ok reparsed := again
      rw [again] at facts
      exact ⟨old, reparsed, parsed, rfl, again, of_decide_eq_true facts, fresh, same⟩

end Arithmetic

end Reparse
