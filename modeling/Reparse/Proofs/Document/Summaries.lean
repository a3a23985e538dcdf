import Reparse.Proofs.Arithmetic.Scan
import Reparse.Proofs.Document.Obtained
import Reparse.Proofs.Query.Enumeration
import Reparse.Proofs.Scanner.Marks
import Reparse.Proofs.Tree.Summary

/-!
# What a node says about the nodes below it

A node answers from its record how many visible and named children it has, how many visible nodes are
below it, and whether there is an error. In every document of languages that never take a token for an
error, these answers are right at every node (`Document.ObtainedIn.summaries`): they are what one finds
by going to the children and to all nodes below. It does not matter whether subtrees were taken over
from older trees, or which edits were made.
-/

namespace Reparse

/-- Grammars of the language go by the interface, and no token is taken for an error. -/
structure Language.SparesError (language : Language) : Prop where
  byInterface : Parsing.ByInterface language.grammar
  spares : language.program.Spares errorSymbol

/-- The tokens that a program scans are priced if it takes none for an error. -/
theorem ScanProgram.Spares.scansIn_priced {program : ScanProgram}
    (spares : program.Spares errorSymbol) : program.ScansIn Tree.Priced := by
  intro context after token same scanned
  rcases Context.exists_of_scanToken scanned with ⟨found, scanner, reached, run, made, _⟩
  have priced : (Context.tokenOf context.vocabulary found scanner context.position).1.Priced := by
    refine Context.tokenOf_cases (motive := fun made => made.1.Priced) _ _ (fun accepted => ?_)
      (fun _ => Tree.priced_leaf (by decide) _ _ _ _ _)
      fun _ => Tree.isHereditary_priced.unexpected _ _ _ _
    subst accepted
    have proper := spares _ _ (same ▸ run)
    rw [← Scanner.symbol_finish] at proper
    exact Tree.priced_leaf proper _ _ _ _ _
  rwa [made] at priced

namespace Document

/-- The documents that parses in some languages lead to, with whatever edits, copies and handing out
of nodes. A parse may take over subtrees of such documents. -/
inductive ObtainedIn (languages : Language → Prop) : Document → Prop where
  | parsed {parser : Parser} {language : Language} {text : Text} {old : Option Document}
      {result : Parsed} (admitted : languages language)
      (older : ∀ document, old = some document → ObtainedIn languages document)
      (run : parser.parseIn language text old = .ok result) : ObtainedIn languages result.document
  | edited {document : Document} (obtained : ObtainedIn languages document) (edit : Edit) :
      ObtainedIn languages (document.edit edit)
  | copied {document : Document} (obtained : ObtainedIn languages document) :
      ObtainedIn languages document.copy
  | handedOut {document : Document} (obtained : ObtainedIn languages document) (node : Node) :
      ObtainedIn languages (document.handOut node).2

variable {document : Document}

/-- What all parses hand on and all edits keep holds of the trees of all documents. -/
theorem ObtainedIn.tree_in {languages : Language → Prop} {family : Tree → Prop}
    (closed : Tree.IsHereditary family)
    (scans : ∀ language, languages language → language.program.ScansIn family)
    (byInterface : ∀ language, languages language → Parsing.ByInterface language.grammar)
    (edits : ∀ tree edit, family tree → family (tree.edit edit))
    (obtained : document.ObtainedIn languages) : family document.tree := by
  induction obtained with
  | parsed admitted _ run ih =>
      exact Parser.in_parseIn_of_scans closed (scans _ admitted) (byInterface _ admitted) ih run
  | edited _ edit ih => exact edits _ edit ih
  | copied _ ih => exact ih
  | handedOut _ node ih =>
      rw [tree_handOut]
      exact ih

theorem ObtainedIn.counted (obtained : document.ObtainedIn Language.SparesError) :
    document.tree.Counted :=
  obtained.tree_in Tree.isFamily_counted.isHereditary
    (fun language _ => Tree.isFamily_counted.scansIn language.program)
    (fun _ spares => spares.byInterface) fun _ edit counted => counted.edit edit

theorem ObtainedIn.priced (obtained : document.ObtainedIn Language.SparesError) :
    document.tree.Priced :=
  obtained.tree_in Tree.isHereditary_priced (fun _ spares => spares.spares.scansIn_priced)
    (fun _ spares => spares.byInterface) fun _ edit priced => priced.edit edit

end Document

namespace Node

/-! ## Children -/

/-- The number of named nodes among some children. -/
def countNamed (children : List Child) : Nat :=
  (children.filter (·.node.info.named)).length

theorem countNamed_cons (child : Child) (rest : List Child) :
    countNamed (child :: rest) = (if child.node.info.named then 1 else 0) + countNamed rest := by
  rw [countNamed, List.filter_cons]
  split
  · rw [List.length_cons, Nat.add_comm]
    rfl
  · exact (Nat.zero_add _).symm

theorem countNamed_append (left right : List Child) :
    countNamed (left ++ right) = countNamed left + countNamed right := by
  rw [countNamed, List.filter_append, List.length_append]
  rfl

mutual

theorem countNamed_shownBelow (trail : List Nat) (start : Extent) (inherited : Nat) :
    (tree : Tree) → tree.Counted →
      countNamed (shownBelow trail start inherited tree) = tree.info.namedChildren
  | .node info children, counted => by
    rcases Tree.everywhere_node.mp counted with ⟨here, among⟩
    rw [shownBelow, countNamed_shownFrom trail 0 start inherited children among]
    exact here.named.symm

/-- Children show as many named nodes as their parent sums up. -/
theorem countNamed_shownFrom (trail : List Nat) (index : Nat) (place : Extent) (inherited : Nat) :
    (edges : List (Edge Tree)) → Tree.EverywhereAmong Tree.IsCounted edges →
      countNamed (shownFrom trail index place inherited edges) = Tree.sumOf Tree.namedShown edges
  | [], _ => by
    rw [shownFrom]
    rfl
  | ⟨own, child⟩ :: rest, counted => by
    rcases Tree.everywhereAmong_cons.mp counted with ⟨here, behind⟩
    have below (inherited : Nat) :=
      countNamed_shownBelow (index :: trail) (startOf index place child) inherited child here
    have later (inherited : Nat) := countNamed_shownFrom trail (index + 1)
      (startOf index place child + child.info.size) inherited rest behind
    rw [shownFrom, Tree.sumOf_cons]
    split
    · rename_i visible
      rw [countNamed_cons, later, Tree.namedShown, if_pos visible]
      rfl
    · rename_i hidden
      rw [Tree.Counted.namedShown_eq here (by simpa using hidden)]
      split
      · rw [countNamed_append, below, later]
      · -- a hidden node that shows nothing shows nothing named
        rename_i none
        have empty : shownBelow (index :: trail) (startOf index place child) 0 child = [] := by
          by_contra some
          exact none ((shownBelow_ne_nil here _ _ _).mp some)
        have unnamed := below 0
        rw [empty] at unnamed
        rw [later, ← unnamed]
        exact (Nat.zero_add _).symm

end

end Node

namespace Document

/-- Every node of such a document counts the visible and named children that it shows and the visible
nodes below it, and has an error if and only if it or a node below it is an error or missing. -/
theorem ObtainedIn.summaries {document : Document}
    (obtained : document.ObtainedIn Language.SparesError) {node : Node}
    (lies : node.LiesIn document.tree) :
    node.info.visibleChildren = node.children.length ∧
      node.info.namedChildren = (node.childrenOf true).length ∧
      node.info.visibleDescendants =
        (node.tree.descendants.filter (·.info.visible)).length ∧
      (node.info.hasError = true ↔ ∃ found ∈ node.tree :: node.tree.descendants,
        found.info.isError = true ∨ found.info.missing = true) := by
  have counted := lies.counted obtained.counted
  have priced := lies.tree_in (fun _ => Tree.Priced.children) obtained.priced
  refine ⟨?_, ?_, counted.visibleDescendants_eq, priced.hasError_iff⟩
  · rw [node.children_eq_shownBelow]
    exact (Node.length_shownBelow _ _ _ _ counted).symm
  · rw [Node.childrenOf, node.children_eq_shownBelow]
    exact (Node.countNamed_shownBelow _ _ _ _ counted).symm

end Document

namespace Arithmetic

/-- The arithmetic language never takes a token for an error. -/
theorem sparesError_arithmetic (identity : Nat) : (Language.arithmetic identity).SparesError where
  byInterface := byInterface_grammar
  spares := ScanProgram.spares_of_accepts (by decide) <| acceptsOnly_program fun symbol own same =>
    absurd (same ▸ own) (by decide : ¬errorSymbol ≤ comment)

end Arithmetic

namespace Document

/-- The last number is taken away from `1+2` and the rest parsed again, with the old tree. -/
theorem ObtainedIn.summaries_cut :
    ∃ first second : Parsed, ∃ node : Node,
      Parser.new.parseIn (Language.arithmetic 0) #[49, 43, 50] none = .ok first ∧
      Parser.new.parseIn (Language.arithmetic 0) #[49, 43]
        (some (first.document.edit ⟨⟨2, ⟨0, 2⟩⟩, ⟨3, ⟨0, 3⟩⟩, ⟨2, ⟨0, 2⟩⟩⟩)) = .ok second ∧
      node.LiesIn second.document.tree ∧ node.info.hasError = true ∧
      node.info.visibleChildren = node.children.length ∧
      node.info.namedChildren = (node.childrenOf true).length ∧
      node.info.visibleDescendants =
        (node.tree.descendants.filter (·.info.visible)).length ∧
      ∃ found ∈ node.tree :: node.tree.descendants,
        found.info.isError = true ∨ found.info.missing = true := by
  let edit : Edit := ⟨⟨2, ⟨0, 2⟩⟩, ⟨3, ⟨0, 3⟩⟩, ⟨2, ⟨0, 2⟩⟩⟩
  have facts : (match Parser.new.parseIn (Language.arithmetic 0) #[49, 43, 50] none with
      | .ok first =>
        match Parser.new.parseIn (Language.arithmetic 0) #[49, 43]
          (some (first.document.edit edit)) with
        | .ok second => second.document.tree.info.hasError
        | .error _ => false
      | .error _ => false) = true := by decide +kernel
  cases run : Parser.new.parseIn (Language.arithmetic 0) #[49, 43, 50] none with
  | error fault => simp [run] at facts
  | ok first =>
      cases rerun : Parser.new.parseIn (Language.arithmetic 0) #[49, 43]
          (some (first.document.edit edit)) with
      | error fault => simp [run, rerun] at facts
      | ok second =>
          simp only [run, rerun] at facts
          have spares := Arithmetic.sparesError_arithmetic 0
          have older : (first.document.edit edit).ObtainedIn Language.SparesError :=
            .edited (.parsed spares (by simp) run) edit
          have obtained : second.document.ObtainedIn Language.SparesError := by
            refine .parsed spares ?_ rerun
            rintro document ⟨⟩
            exact older
          have lies := Node.liesIn_root second.document.tree
          rcases obtained.summaries lies with ⟨visible, named, below, flawed⟩
          exact ⟨first, second, _, rfl, rerun, lies, facts, visible, named, below,
            flawed.mp facts⟩

end Document

end Reparse
