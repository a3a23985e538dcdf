import Reparse.Proofs.Document.Points

/-!
# Documents that are kept up with their text

The document of a whole text is kept up with the text if it is edited as the text is
(`Document.KeptUp`). What rows and columns the edits tell plays no part in this: a parse takes over
only subtrees that no edit marked, and those read the bytes that they were parsed from
(`Tree.IntactOver`). So the tree that a parse makes of a text is measured by it, whatever the parse
takes over from a document that is kept up (`Parser.measured_parseIn_of_keptUp`).
-/

namespace Reparse

namespace Tree

/-- Every unmarked subtree is measured by the text where it lies. -/
def IntactOver (text : Text) (tree : Tree) : Prop :=
  ∀ ⦃path : List Nat⦄ ⦃offset : Nat⦄ ⦃found : Tree⦄, tree.At path offset found →
    found.info.changed = false → found.Measured text offset

variable {text : Text} {tree : Tree}

theorem Measured.intactOver (measured : tree.Measured text 0) : tree.IntactOver text := by
  intro path offset found at_ _
  rw [← Nat.zero_add offset]
  exact at_.measured measured

/-- Only unmarked subtrees are taken over. -/
theorem IntactOver.lendsOver (intact : tree.IntactOver text) : tree.LendsOver text := by
  intro position state found search
  rcases at_of_findReusable search with ⟨path, at_, suits⟩
  exact intact at_ suits.unmarked

/-- A subtree that an edit does not mark goes along with its text. -/
theorem IntactOver.edit {inserted : Text} {edit : Edit} (intact : tree.IntactOver text)
    (sound : tree.Sound) (fits : edit.Fits text inserted) :
    (tree.edit edit).IntactOver (edit.apply text inserted) := by
  intro path offset found at_ unmarked
  rcases At.of_edit fits.forward unmarked tree sound at_ with ⟨source, before, carries⟩
  refine (intact before unmarked).congr found (before.everywhere sound.laid) fun index inside => ?_
  have within : index < found.reach := Nat.lt_of_lt_of_le inside (Nat.le_add_right _ _)
  exact (carries.same_bytes fits within).symm

end Tree

namespace Document

/-- The documents of a text that parses of whole texts lead to, and edits made alike to text and
document. A parse may go by any document, but it takes over subtrees only from one that is kept up
with its text. -/
inductive KeptUp : Document → Text → Prop where
  | parsed {parser : Parser} {language : Language} {text : Text} {old : Option Document}
      {result : Parsed} (everything : parser.spans = []) (short : text.size < maxOffset)
      (byInterface : Parsing.ByInterface language.grammar)
      (keeps : language.grammar.KeepsHandles (parser.begun language text old))
      (older : ∀ document, old = some document → document.Obtained)
      (upheld : ∀ document, old = some document →
        (parser.reusableTree language old).isSome = true → KeptUp document text)
      (run : parser.parseIn language text old = .ok result) : KeptUp result.document text
  | edited {document : Document} {text inserted : Text} {edit : Edit}
      (kept : KeptUp document text) (fits : edit.Fits text inserted) :
      KeptUp (document.edit edit) (edit.apply text inserted)
  | copied {document : Document} {text : Text} (kept : KeptUp document text) :
      KeptUp document.copy text
  | handedOut {document : Document} {text : Text} (kept : KeptUp document text) (node : Node) :
      KeptUp (document.handOut node).2 text

variable {document : Document} {text : Text}

theorem KeptUp.obtained (kept : document.KeptUp text) : document.Obtained := by
  induction kept with
  | parsed _ _ byInterface _ older _ run => exact .parsed byInterface older run
  | edited _ fits ih => exact ih.edited fits.forward
  | copied _ ih => exact ih.copied
  | handedOut _ node ih => exact ih.handedOut node

end Document

namespace Parser

variable {parser : Parser} {language : Language} {text : Text} {old : Option Document}
  {result : Parsed} {tree : Tree}

/-- What holds of the documents that a parse may take subtrees over from holds of their trees. -/
theorem reusableTree_in {family : Tree → Prop}
    (holds : ∀ document, old = some document →
      (parser.reusableTree language old).isSome = true → family document.tree)
    (present : parser.reusableTree language old = some tree) : family tree := by
  have some_ : (parser.reusableTree language old).isSome = true := by rw [present]; rfl
  cases old with
  | none => cases present
  | some document =>
      have own := holds document rfl some_
      unfold reusableTree at present
      dsimp only at present
      split at present
      · rw [Option.some.injEq] at present
        exact present ▸ own
      · cases present

/-- A parse of a whole text that goes by a document whose unmarked subtrees are measured by the text
makes a tree that is. -/
theorem measured_parseIn_of_intact (everything : parser.spans = []) (short : text.size < maxOffset)
    (keeps : language.grammar.KeepsHandles (parser.begun language text old))
    (older : ∀ document, old = some document → document.Obtained)
    (intact : ∀ document, old = some document →
      (parser.reusableTree language old).isSome = true → document.tree.IntactOver text)
    (run : parser.parseIn language text old = .ok result) :
    result.document.tree.Measured text 0 := by
  refine (measured_parseIn_of_lends everything short keeps ?_ ?_ run).1
  · exact lends_of_reusableTree fun document present =>
      Tree.isFamily_sound.isHereditary.lends (older document present).sound
  · intro tree present
    exact (reusableTree_in intact present).lendsOver

end Parser

namespace Document

variable {document : Document} {text : Text}

/-- The unmarked subtrees of a document that is kept up with a text are measured by it. -/
theorem KeptUp.intactOver (kept : document.KeptUp text) : document.tree.IntactOver text := by
  induction kept with
  | parsed everything short _ keeps older _ run ih =>
      exact (Parser.measured_parseIn_of_intact everything short keeps older ih run).intactOver
  | edited kept fits ih => exact Tree.IntactOver.edit ih kept.obtained.sound fits
  | copied _ ih => exact ih
  | handedOut _ node ih =>
      rw [tree_handOut]
      exact ih

end Document

/-- What a parse makes of a whole text is measured by the text, if the document that it takes subtrees
over from is kept up with the text. -/
theorem Parser.measured_parseIn_of_keptUp {parser : Parser} {language : Language} {text : Text}
    {old : Option Document} {result : Parsed} (everything : parser.spans = [])
    (short : text.size < maxOffset)
    (keeps : language.grammar.KeepsHandles (parser.begun language text old))
    (older : ∀ document, old = some document → document.Obtained)
    (upheld : ∀ document, old = some document →
      (parser.reusableTree language old).isSome = true → document.KeptUp text)
    (run : parser.parseIn language text old = .ok result) :
    result.document.tree.Measured text 0 :=
  measured_parseIn_of_intact everything short keeps older
    (fun document present reusable => (upheld document present reusable).intactOver) run

end Reparse
