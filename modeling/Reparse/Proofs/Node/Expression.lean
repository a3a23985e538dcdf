import Reparse.Proofs.Node.Kinship
import Reparse.Syntax.Expression

/-!
# The S-expression is what navigation shows

The S-expression of a tree is written along all children, hidden ones too, and hands the names of
fields down through nodes that it does not write. Navigation hands their numbers down, and passes
hidden nodes over. `Node.rendering` writes what navigation shows: a node, and then its children that
are named or missing, each behind the name of the field it is shown in.

In a language whose tables fit its trees (`Tree.IsLegible`) the two are the same at every visible
named node of a document (`Document.expression_eq_rendering`).
-/

namespace Reparse

/-- No field, or one that the language has a name for. -/
def Vocabulary.NamesField (vocabulary : Vocabulary) (field : Nat) : Prop :=
  field ≠ 0 → (vocabulary.fieldName? field).isSome = true

namespace Node

/-- What stands behind the opening parenthesis of a node. -/
def label (vocabulary : Vocabulary) (node : Node) : String :=
  let name := vocabulary.symbolName node.info.symbol
  if node.info.missing ∧ node.children.isEmpty then
    "MISSING " ++ if node.info.named then name else "\"" ++ name ++ "\""
  else
    match node.info.unexpected with
    | some char =>
      if node.info.isError ∧ node.children.isEmpty ∧ 0 < node.info.size.bytes then
        "UNEXPECTED " ++ shownUnexpected char
      else name
    | none => name

/-- What stands before a node in a field. -/
def fieldLabel (vocabulary : Vocabulary) (field : Nat) : String :=
  if field = 0 then "" else (vocabulary.fieldName? field).getD "" ++ ": "

/-- The S-expression of what navigation shows: the node, and behind it each child that is named or
missing. -/
def rendering (vocabulary : Vocabulary) (node : Node) : String :=
  "(" ++ node.label vocabulary ++
    String.join (node.children.attach.map fun child =>
      if child.1.node.info.named || child.1.node.info.missing then
        " " ++ fieldLabel vocabulary child.1.field ++ child.1.node.rendering vocabulary
      else "") ++ ")"
termination_by node.tree.count
decreasing_by exact count_lt_of_children node child.1 child.2

/-- What a child adds to the rendering of its parent. -/
def entry (vocabulary : Vocabulary) (child : Child) : String :=
  if child.node.info.named || child.node.info.missing then
    " " ++ fieldLabel vocabulary child.field ++ child.node.rendering vocabulary
  else ""

/-- What some children add. -/
def entries (vocabulary : Vocabulary) (children : List Child) : String :=
  String.join (children.map (entry vocabulary))

theorem rendering_eq (vocabulary : Vocabulary) (node : Node) :
    node.rendering vocabulary =
      "(" ++ node.label vocabulary ++ entries vocabulary node.children ++ ")" := by
  rw [rendering, entries]
  conv_rhs => rw [← List.attach_map_subtype_val node.children, List.map_map]
  rfl

@[simp]
theorem entries_nil (vocabulary : Vocabulary) : entries vocabulary [] = "" := rfl

theorem entries_cons (vocabulary : Vocabulary) (child : Child) (rest : List Child) :
    entries vocabulary (child :: rest) = entry vocabulary child ++ entries vocabulary rest :=
  String.join_cons

theorem entries_append (vocabulary : Vocabulary) (left right : List Child) :
    entries vocabulary (left ++ right) = entries vocabulary left ++ entries vocabulary right := by
  rw [entries, List.map_append, String.join_append]
  rfl

end Node

namespace Tree

/-- The tables of the language fit a node: it is visible if it is missing, the fields of its children
have names, and it has no children if it is visible and not named. -/
structure IsLegible (vocabulary : Vocabulary) (info : Info) (children : List (Edge Tree)) :
    Prop where
  missing : info.missing = true → info.visible = true
  fields : ∀ edge ∈ children, vocabulary.NamesField edge.field
  anonymous : info.visible = true → info.named = false → children = []

instance (vocabulary : Vocabulary) (info : Info) (children : List (Edge Tree)) :
    Decidable (IsLegible vocabulary info children) :=
  decidable_of_iff ((info.missing = true → info.visible = true) ∧
    (∀ edge ∈ children, edge.field ≠ 0 → (vocabulary.fieldName? edge.field).isSome = true) ∧
    (info.visible = true → info.named = false → children.isEmpty = true))
    ⟨fun ⟨missing, fields, anonymous⟩ =>
      ⟨missing, fields, fun visible named => List.isEmpty_iff.mp (anonymous visible named)⟩,
    fun ⟨missing, fields, anonymous⟩ =>
      ⟨missing, fields, fun visible named => List.isEmpty_iff.mpr (anonymous visible named)⟩⟩

/-- Only leaves are missing or unexpected, and none is both. -/
structure MarksLeaves (info : Info) (children : List (Edge Tree)) : Prop where
  missing : info.missing = true → children = [] ∧ info.unexpected = none
  unexpected : info.unexpected ≠ none → children = []

/-- All that the two ways to write a node need to be the same. -/
structure IsWritable (vocabulary : Vocabulary) (info : Info) (children : List (Edge Tree)) : Prop
    extends IsLegible vocabulary info children, IsCounted info children where
  marks : MarksLeaves info children

/-! ## Writing behind what is written -/

section Written

variable (vocabulary : Vocabulary) {info : Info} {children : List (Edge Tree)}

theorem writeExpression_of_shown (written : String) (field : Option String) (outermost : Bool)
    (shown : isShown info = true) :
    writeExpression vocabulary written field outermost (node info children) =
      writeChildren vocabulary
        (written ++ (if outermost then "" else " ") ++ field.elim "" (· ++ ": ") ++ "(" ++
          heading vocabulary info children) true field children ++ ")" := by
  rw [writeExpression, if_pos shown]
  cases outermost <;> cases field <;> simp [String.append_assoc]

theorem writeExpression_of_not_shown (written : String) (field : Option String) (outermost : Bool)
    (hidden : isShown info = false) :
    writeExpression vocabulary written field outermost (node info children) =
      writeChildren vocabulary written false field children := by
  rw [writeExpression, if_neg (by simp [hidden])]

theorem heading_eq (written : IsWritable vocabulary info children) (start : Extent)
    (trail : List Nat) :
    heading vocabulary info children =
      (Node.mk (node info children) start trail).label vocabulary := by
  have leaf : (Node.mk (node info []) start trail).children.isEmpty = true := rfl
  unfold heading Node.label
  by_cases missing : info.missing = true
  · rcases written.marks.missing missing with ⟨rfl, plain⟩
    simp only [Node.info, info_node, plain, missing, leaf, if_true, and_self]
    rfl
  · cases found : info.unexpected with
    | none => simp [Node.info, found, missing]
    | some char =>
        obtain rfl := written.marks.unexpected (by simp [found])
        simp only [Node.info, info_node, found, missing, leaf]
        simp

end Written

theorem namesField_handed {vocabulary : Vocabulary} {inherited own : Nat}
    (known : vocabulary.NamesField inherited) (named : vocabulary.NamesField own) (child : Info) :
    vocabulary.NamesField (if child.extra then 0 else if own = 0 then inherited else own) := by
  split
  · exact absurd rfl
  · split
    · exact known
    · exact named

/-- A child is written in the field that navigation shows it in. -/
theorem shownField_eq {vocabulary : Vocabulary} {parentShown : Bool} {name : Option String}
    {inherited own : Nat} {child : Info}
    (named : vocabulary.NamesField own)
    (handed : vocabulary.fieldName? inherited = if parentShown then none else name) :
    shownField vocabulary parentShown name own child =
      vocabulary.fieldName? (if child.extra then 0 else if own = 0 then inherited else own) := by
  unfold shownField
  split
  · rfl
  · by_cases none : own = 0
    · rw [if_pos none, ← handed, none]
      rfl
    · rcases Option.isSome_iff_exists.mp (named none) with ⟨own_name, found⟩
      rw [if_neg none, found]
      rfl

end Tree

namespace Node

open Tree (isShown writeExpression writeChildren Everywhere EverywhereAmong IsWritable
  everywhere_node everywhereAmong_cons)

variable {vocabulary : Vocabulary}

theorem fieldLabel_eq {field : Nat} (named : vocabulary.NamesField field) :
    fieldLabel vocabulary field = (vocabulary.fieldName? field).elim "" (· ++ ": ") := by
  unfold fieldLabel
  split
  · rename_i none
    rw [none]
    rfl
  · rename_i some_
    rcases Option.isSome_iff_exists.mp (named some_) with ⟨name, found⟩
    rw [found]
    rfl

theorem entry_of_shown {child : Child} (shown : isShown child.node.info = true)
    (named : vocabulary.NamesField child.field) :
    entry vocabulary child = " " ++ (vocabulary.fieldName? child.field).elim "" (· ++ ": ") ++
      child.node.rendering vocabulary := by
  have listed : (child.node.info.named || child.node.info.missing) = true := by
    simp only [isShown, Bool.or_eq_true, Bool.and_eq_true] at shown ⊢
    exact shown.elim Or.inr fun both => Or.inl both.2
  rw [entry, if_pos listed, fieldLabel_eq named]

theorem entry_of_not_shown {child : Child} (hidden : isShown child.node.info = false)
    (visible : child.node.info.visible = true) : entry vocabulary child = "" := by
  simp only [isShown, visible, Bool.true_and, Bool.or_eq_false_iff] at hidden
  rw [entry, hidden.1, hidden.2]
  rfl

/-- A visible node that is not written has no children. -/
theorem childless_of_not_shown {tree : Tree} (legible : tree.Everywhere (IsWritable vocabulary))
    (hidden : isShown tree.info = false) (visible : tree.info.visible = true) :
    tree.children = [] := by
  rcases tree with ⟨info, children⟩
  rw [Tree.info_node] at hidden visible
  simp only [isShown, visible, Bool.true_and, Bool.or_eq_false_iff] at hidden
  exact (everywhere_node.mp legible).1.anonymous visible hidden.2

theorem visible_of_shown {tree : Tree} (legible : tree.Everywhere (IsWritable vocabulary))
    (shown : isShown tree.info = true) : tree.info.visible = true := by
  rcases tree with ⟨info, children⟩
  simp only [Tree.info_node, isShown, Bool.or_eq_true, Bool.and_eq_true] at shown
  exact shown.elim (everywhere_node.mp legible).1.missing And.left

theorem counted_of_writable {tree : Tree} (writable : tree.Everywhere (IsWritable vocabulary)) :
    tree.Counted :=
  Everywhere.imp (fun _ _ here => here.toIsCounted) tree writable

/-- What navigation shows at an edge: the child itself, or what it passes through if it is hidden. -/
def shownAt (trail : List Nat) (start : Extent) (field : Nat) (child : Tree) : List Child :=
  if child.info.visible then [⟨⟨child, start, trail⟩, field⟩]
  else if 0 < child.info.visibleChildren then shownBelow trail start field child
  else []

theorem shownFrom_cons_eq (trail : List Nat) (index : Nat) (place : Extent)
    (inherited own : Nat) (child : Tree) (rest : List (Edge Tree)) :
    shownFrom trail index place inherited (⟨own, child⟩ :: rest) =
      shownAt (index :: trail) (startOf index place child)
          (if child.info.extra then 0 else if own = 0 then inherited else own) child ++
        shownFrom trail (index + 1) (startOf index place child + child.info.size) inherited
          rest := by
  rw [shownFrom, shownAt]
  split
  · rfl
  · split <;> rfl

section ShownAt

variable {child : Tree} (writable : child.Everywhere (IsWritable vocabulary)) (start : Extent)
  (trail : List Nat) {field : Nat}

include writable

theorem entries_shownAt_of_shown (shown : isShown child.info = true)
    (named : vocabulary.NamesField field) :
    entries vocabulary (shownAt trail start field child) =
      " " ++ (vocabulary.fieldName? field).elim "" (· ++ ": ") ++
        (Node.mk child start trail).rendering vocabulary := by
  rw [shownAt, if_pos (visible_of_shown writable shown), entries_cons, entries_nil,
    String.append_empty]
  exact @entry_of_shown _ ⟨⟨child, start, trail⟩, field⟩ shown named

/-- A child that is not written adds what is below it: there is nothing if the child is visible. -/
theorem entries_shownAt_of_not_shown (hidden : isShown child.info = false) :
    entries vocabulary (shownAt trail start field child) =
      entries vocabulary (shownBelow trail start field child) := by
  rw [shownAt]
  split
  · next visible =>
    have none := childless_of_not_shown writable hidden visible
    rw [entries_cons, @entry_of_not_shown _ ⟨⟨child, start, trail⟩, field⟩ hidden visible]
    cases child
    rw [Tree.children_node] at none
    rw [none]
    rfl
  · split
    · rfl
    · next empty =>
      have none := mt (shownBelow_ne_nil (counted_of_writable writable) trail start field).mp empty
      rw [not_not.mp none]

end ShownAt

mutual

/-- A node that is written is written as navigation shows it. -/
theorem writeExpression_shown (start : Extent) (trail : List Nat) : (tree : Tree) →
    tree.Everywhere (IsWritable vocabulary) → isShown tree.info = true →
      ∀ written field outermost, writeExpression vocabulary written field outermost tree =
        written ++ (if outermost then "" else " ") ++ field.elim "" (· ++ ": ") ++
          (Node.mk tree start trail).rendering vocabulary
  | .node info children, writable, shown, written, field, outermost => by
    rcases everywhere_node.mp writable with ⟨here, among⟩
    rw [Tree.info_node] at shown
    rw [Tree.writeExpression_of_shown vocabulary written field outermost shown,
      writeChildren_eq trail 0 start 0 (absurd rfl) children among here.fields _ true field rfl,
      Tree.heading_eq vocabulary here start trail, rendering_eq]
    simp only [String.append_assoc]
    rfl

/-- A node that is not written shows what navigation passes through it. -/
theorem writeExpression_hidden (start : Extent) (trail : List Nat) (inherited : Nat)
    (named : vocabulary.NamesField inherited) : (tree : Tree) →
      tree.Everywhere (IsWritable vocabulary) → isShown tree.info = false →
      ∀ written outermost,
        writeExpression vocabulary written (vocabulary.fieldName? inherited) outermost tree =
          written ++ entries vocabulary (shownBelow trail start inherited tree)
  | .node info children, writable, hidden, written, outermost => by
    rcases everywhere_node.mp writable with ⟨here, among⟩
    rw [Tree.info_node] at hidden
    rw [Tree.writeExpression_of_not_shown vocabulary written _ outermost hidden, shownBelow]
    exact writeChildren_eq trail 0 start inherited named children among here.fields written false _
      rfl

/-- Some children are written as navigation shows them. -/
theorem writeChildren_eq (trail : List Nat) (index : Nat) (place : Extent) (inherited : Nat)
    (known : vocabulary.NamesField inherited) : (edges : List (Edge Tree)) →
      EverywhereAmong (IsWritable vocabulary) edges →
      (∀ edge ∈ edges, vocabulary.NamesField edge.field) →
      ∀ written parentShown name,
        vocabulary.fieldName? inherited = (if parentShown then none else name) →
        writeChildren vocabulary written parentShown name edges =
          written ++ entries vocabulary (shownFrom trail index place inherited edges)
  | [], _, _, written, parentShown, name, _ => by
    rw [writeChildren, shownFrom, entries_nil, String.append_empty]
  | ⟨own, child⟩ :: rest, writable, named, written, parentShown, name, handed => by
    rcases everywhereAmong_cons.mp writable with ⟨here, behind⟩
    have own_named := named ⟨own, child⟩ List.mem_cons_self
    have rest_named := fun edge member => named edge (List.mem_cons_of_mem _ member)
    let start := startOf index place child
    let field := if child.info.extra then 0 else if own = 0 then inherited else own
    have field_named : vocabulary.NamesField field :=
      Tree.namesField_handed known own_named child.info
    have shown_in : Tree.shownField vocabulary parentShown name own child.info =
        vocabulary.fieldName? field := Tree.shownField_eq own_named handed
    have later (written : String) := writeChildren_eq trail (index + 1) (start + child.info.size)
      inherited known rest behind rest_named written parentShown name handed
    have once : writeExpression vocabulary written (vocabulary.fieldName? field) false child =
        written ++ entries vocabulary (shownAt (index :: trail) start field child) := by
      cases shown : isShown child.info with
      | true =>
          rw [entries_shownAt_of_shown here start (index :: trail) shown field_named,
            writeExpression_shown start (index :: trail) child here shown]
          simp only [String.append_assoc]
          rfl
      | false =>
          rw [entries_shownAt_of_not_shown here start (index :: trail) shown]
          exact writeExpression_hidden start (index :: trail) field field_named child here shown
            written false
    rw [writeChildren, shown_in, later, once, shownFrom_cons_eq, entries_append,
      String.append_assoc]

end

/-- The S-expression of a node that it is written for is its rendering. -/
theorem expression_eq_rendering_of_writable {node : Node}
    (writable : node.tree.Everywhere (IsWritable vocabulary)) (shown : isShown node.info = true) :
    node.tree.expression vocabulary = node.rendering vocabulary := by
  rw [Tree.expression, writeExpression_shown node.start node.trail node.tree writable shown]
  rfl

end Node

namespace Tree

/-! ## Leaves of parses -/

section Everywhere

variable {property other : Info → List (Edge Tree) → Prop}

mutual

theorem Everywhere.and : {tree : Tree} → tree.Everywhere property → tree.Everywhere other →
    tree.Everywhere fun info children => property info children ∧ other info children
  | node _ _, left, right => by
    rcases everywhere_node.mp left with ⟨here, below⟩
    rcases everywhere_node.mp right with ⟨also, under⟩
    exact everywhere_node.mpr ⟨⟨here, also⟩, EverywhereAmong.and below under⟩

theorem EverywhereAmong.and : {children : List (Edge Tree)} → EverywhereAmong property children →
    EverywhereAmong other children →
      EverywhereAmong (fun info children => property info children ∧ other info children) children
  | [], _, _ => everywhereAmong_nil
  | _ :: _, left, right => by
    rcases everywhereAmong_cons.mp left with ⟨here, below⟩
    rcases everywhereAmong_cons.mp right with ⟨also, under⟩
    exact everywhereAmong_cons.mpr ⟨Everywhere.and here also, EverywhereAmong.and below under⟩

end

mutual

/-- It can be decided of every node of a tree what can be decided of one. -/
def decideEverywhere (decide : ∀ info children, Decidable (property info children)) :
    (tree : Tree) → Decidable (tree.Everywhere property)
  | node info children =>
    have := decide info children
    have := decideEverywhereAmong decide children
    decidable_of_iff _ everywhere_node.symm

def decideEverywhereAmong (decide : ∀ info children, Decidable (property info children)) :
    (children : List (Edge Tree)) → Decidable (EverywhereAmong property children)
  | [] => .isTrue everywhereAmong_nil
  | edge :: rest =>
    have := decideEverywhere decide edge.tree
    have := decideEverywhereAmong decide rest
    decidable_of_iff _ everywhereAmong_cons.symm

end

instance [decide : ∀ info children, Decidable (property info children)] (tree : Tree) :
    Decidable (tree.Everywhere property) := decideEverywhere decide tree

theorem Everywhere.children {tree : Tree} (everywhere : tree.Everywhere property) :
    Among (Everywhere property) tree.children := by
  cases tree with
  | node info children => exact everywhereAmong_iff.mp (everywhere_node.mp everywhere).2

end Everywhere

theorem everywhere_leaf {property : Info → List (Edge Tree) → Prop} {info : Info}
    (here : property info []) : (node info []).Everywhere property :=
  everywhere_node.mpr ⟨here, everywhereAmong_nil⟩

/-- A node that is neither missing nor unexpected may have children. -/
theorem marksLeaves_of_proper {info : Info} {children : List (Edge Tree)}
    (found : info.missing = false) (expected : info.unexpected = none) :
    MarksLeaves info children :=
  ⟨by simp [found], by simp [expected]⟩

theorem isHereditary_marksLeaves : IsHereditary (Everywhere MarksLeaves) where
  ending _ := everywhere_leaf (marksLeaves_of_proper rfl rfl)
  unexpected _ _ _ _ := everywhere_leaf ⟨nofun, fun _ => rfl⟩
  missing _ _ := everywhere_leaf ⟨fun _ => ⟨rfl, rfl⟩, fun _ => rfl⟩
  branch among :=
    everywhere_node.mpr ⟨marksLeaves_of_proper rfl rfl, everywhereAmong_iff.mpr among⟩
  children := Everywhere.children

theorem marksLeaves_shape {info : Info} {children : List (Edge Tree)} :
    MarksLeaves info.shape (shapeAll children) ↔ MarksLeaves info children := by
  have empty : shapeAll children = [] ↔ children = [] := by
    cases children <;> simp [shapeAll]
  constructor
  · rintro ⟨missing, unexpected⟩
    exact ⟨fun absent => (missing absent).imp empty.mp id, fun marked => empty.mp (unexpected marked)⟩
  · rintro ⟨missing, unexpected⟩
    exact ⟨fun absent => (missing absent).imp empty.mpr id,
      fun marked => empty.mpr (unexpected marked)⟩

end Tree

namespace Document

open Tree (Everywhere IsLegible MarksLeaves IsWritable)

variable {document : Document}

theorem ObtainedIn.marksLeaves
    (obtained : document.ObtainedIn fun language => Parsing.ByInterface language.grammar) :
    document.tree.Everywhere MarksLeaves :=
  obtained.tree_in Tree.isHereditary_marksLeaves
    (fun language _ => Tree.isHereditary_marksLeaves.scansIn (fun _ _ _ _ _ _ =>
      Tree.everywhere_leaf (Tree.marksLeaves_of_proper rfl rfl)) language.program)
    (fun _ byInterface => byInterface) fun _ edit marks =>
      Everywhere.edit (fun _ _ => Tree.marksLeaves_shape) marks edit

/-- In a language whose tables fit the tree of a document, the S-expression of every visible named
node is what navigation shows of it. -/
theorem expression_eq_rendering
    (obtained : document.ObtainedIn fun language => Parsing.ByInterface language.grammar)
    (legible : document.tree.Everywhere (IsLegible document.language.vocabulary)) {node : Node}
    (lies : node.LiesIn document.tree) (visible : node.info.visible = true)
    (named : node.info.named = true) :
    node.tree.expression document.language.vocabulary =
      node.rendering document.language.vocabulary := by
  have writable : document.tree.Everywhere (IsWritable document.language.vocabulary) := by
    have all := (legible.and (counted_of_obtainedIn obtained)).and obtained.marksLeaves
    exact Everywhere.imp (fun _ _ here => ⟨here.1.1, here.1.2, here.2⟩) _ all
  apply Node.expression_eq_rendering_of_writable
  · exact lies.tree_in (fun _ => Everywhere.children) writable
  · simp [Tree.isShown, visible, named]

/-- A number in parentheses, the last of which is missing. -/
theorem expression_eq_rendering_unclosed :
    ∃ result : Parsed,
      Parser.new.parseIn (Language.arithmetic 0) #[40, 49] none = .ok result ∧
      let document := result.document
      (document.ObtainedIn fun language => Parsing.ByInterface language.grammar) ∧
      document.tree.Everywhere (IsLegible document.language.vocabulary) ∧
      document.root.LiesIn document.tree ∧ document.root.info.visible = true ∧
      document.root.info.named = true ∧
      document.tree.expression document.language.vocabulary =
        "(expression (expression (number)) (MISSING \")\"))" ∧
      document.tree.expression document.language.vocabulary =
        document.root.rendering document.language.vocabulary := by
  have facts : (match Parser.new.parseIn (Language.arithmetic 0) #[40, 49] none with
      | .ok result =>
        let document := result.document
        decide (document.tree.Everywhere (IsLegible document.language.vocabulary) ∧
          document.root.info.visible = true ∧ document.root.info.named = true ∧
          document.tree.expression document.language.vocabulary =
            "(expression (expression (number)) (MISSING \")\"))")
      | .error _ => false) = true := by decide +kernel
  cases run : Parser.new.parseIn (Language.arithmetic 0) #[40, 49] none with
  | error fault => simp [run] at facts
  | ok result =>
      simp only [run] at facts
      rcases of_decide_eq_true facts with ⟨legible, visible, named, written⟩
      have obtained : result.document.ObtainedIn fun language =>
          Parsing.ByInterface language.grammar :=
        .parsed Arithmetic.byInterface_grammar (by simp) run
      have lies := Node.liesIn_root result.document.tree
      exact ⟨result, rfl, obtained, legible, lies, visible, named, written,
        expression_eq_rendering obtained legible lies visible named⟩

end Document

end Reparse
