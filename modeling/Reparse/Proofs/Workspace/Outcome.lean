import Reparse.Workspace.Cursor
import Reparse.Workspace.Query
import Reparse.Proofs.Query.Run

/-!
# What operations do to a document

The nodes that a document has handed out are of some kind, and so are those that navigation finds
from them (`NodeKind`). Operations on the document then hand out nodes of this kind only, and they
leave the tree as it is (`Work.Safe`). This holds for the nodes that lie in the current tree
(`nodeKind_current`) as well as for those that lie in any tree of its shape (`nodeKind_shape`).
-/

namespace Reparse

namespace Work

variable {α β : Type}

/-- The result of an operation and the workspace after it. -/
def outcome (work : Work α) (workspace : Workspace) : Except Failure α × Workspace :=
  (ExceptT.run work).run workspace

/-- The workspace after an operation, whether it failed or not. -/
def after (work : Work α) (workspace : Workspace) : Workspace := (work.outcome workspace).2

theorem outcome_get (workspace : Workspace) :
    (get : Work Workspace).outcome workspace = (.ok workspace, workspace) := rfl

theorem outcome_bind (work : Work α) (next : α → Work β) (workspace : Workspace) :
    (work >>= next).outcome workspace =
      match work.outcome workspace with
      | (.ok value, between) => (next value).outcome between
      | (.error failure, between) => (.error failure, between) := by
  unfold outcome
  rw [ExceptT.run_bind, StateT.run_bind]
  rcases (ExceptT.run work).run workspace with ⟨failure | value, between⟩ <;> rfl

/-- What is made of a result does not show in the workspace. -/
theorem after_bind_pure (work : Work α) (make : α → β) (workspace : Workspace) :
    (work >>= fun value => pure (make value)).after workspace = work.after workspace := by
  unfold after
  rw [outcome_bind]
  rcases work.outcome workspace with ⟨failure | value, between⟩ <;> rfl

/-- The operation keeps the invariant, and its results meet the condition. -/
def Safe (invariant : Workspace → Prop) (work : Work α) (condition : α → Prop) : Prop :=
  ∀ workspace, invariant workspace →
    invariant (work.after workspace) ∧
      ∀ value, (work.outcome workspace).1 = .ok value → condition value

/-- The operation changes nothing. -/
def Reads (work : Work α) : Prop := ∀ workspace, work.after workspace = workspace

section Rules

variable {invariant : Workspace → Prop} {condition : α → Prop} {further : β → Prop} {work : Work α}
  {next : α → Work β}

theorem Safe.bind (first : work.Safe invariant condition)
    (second : ∀ value, condition value → (next value).Safe invariant further) :
    (work >>= next).Safe invariant further := by
  intro workspace holds
  rcases first workspace holds with ⟨kept, result⟩
  unfold after at kept ⊢
  rw [outcome_bind]
  rcases outcome : work.outcome workspace with ⟨result_ | value, between⟩
  · rw [outcome] at kept
    exact ⟨kept, nofun⟩
  · rw [outcome] at kept result
    exact second value (result value rfl) between kept

theorem safe_pure {value : α} (met : condition value) :
    (pure value : Work α).Safe invariant condition := by
  intro workspace holds
  refine ⟨holds, ?_⟩
  intro other same
  cases same
  exact met

theorem safe_throw (failure : Failure) : (throw failure : Work α).Safe invariant condition :=
  fun _ holds => ⟨holds, nofun⟩

theorem Safe.weaken (safe : work.Safe invariant condition) :
    work.Safe invariant fun _ => True :=
  fun workspace holds => ⟨(safe workspace holds).1, fun _ _ => trivial⟩

theorem Reads.safe (reads : work.Reads) : work.Safe invariant fun _ => True := by
  intro workspace holds
  rw [reads workspace]
  exact ⟨holds, fun _ _ => trivial⟩

theorem Reads.bind (first : work.Reads) (second : ∀ value, (next value).Reads) :
    (work >>= next).Reads := by
  intro workspace
  have kept := first workspace
  unfold after at kept ⊢
  rw [outcome_bind]
  rcases outcome : work.outcome workspace with ⟨failure | value, between⟩
  · rw [outcome] at kept
    exact kept
  · rw [outcome] at kept
    have last := second value between
    exact last.trans kept

theorem reads_pure (value : α) : (pure value : Work α).Reads := fun _ => rfl

theorem reads_throw (failure : Failure) : (throw failure : Work α).Reads := fun _ => rfl

theorem reads_get : (get : Work Workspace).Reads := fun _ => rfl

end Rules

theorem reads_document (ref : DocumentRef) : (document ref).Reads := by
  unfold document
  refine reads_get.bind fun workspace => ?_
  split
  · exact reads_pure _
  · exact reads_throw _

theorem reads_node (ref : NodeRef) : (node ref).Reads := by
  unfold node
  refine (reads_document _).bind fun document => ?_
  split
  · exact reads_pure _
  · exact reads_throw _

theorem reads_vocabularyOf (ref : NodeRef) : (vocabularyOf ref).Reads :=
  ((reads_document _).bind fun _ => reads_pure _).bind fun _ => reads_pure _

theorem reads_checked {result : Except UnknownSymbol α} : (checked result).Reads := by
  cases result with
  | ok => exact reads_pure _
  | error => exact reads_throw _

theorem reads_brief (ref : NodeRef) : (brief ref).Reads :=
  (reads_vocabularyOf ref).bind fun _ => (reads_node ref).bind fun _ => reads_checked

theorem reads_shownNode (ref : NodeRef) : (shownNode ref).Reads :=
  (reads_vocabularyOf ref).bind fun _ => (reads_node ref).bind fun _ => reads_checked

theorem reads_childFieldNames (ref : NodeRef) : (childFieldNames ref).Reads :=
  (reads_vocabularyOf ref).bind fun _ => (reads_node ref).bind fun _ => reads_pure _

end Work

/-- A kind of nodes that those of a tree belong to, and whatever navigation finds from nodes of the
kind. -/
structure NodeKind (tree : Tree) (kind : Node → Prop) : Prop where
  current : ∀ node, node.LiesIn tree → kind node
  children : ClosedBelow kind
  target : ∀ vocabulary node move found, kind node →
    Work.Move.target vocabulary (Node.root tree) node move = some found → kind found
  walks : ∀ node, kind node → (Cursor.new node).Keeps kind

/-- Where a move leads to lies in the tree of the node or in the tree of the root. -/
theorem Work.Move.liesIn_target {vocabulary : Vocabulary} {tree current : Tree} {node found : Node}
    {move : Work.Move} (lies : node.LiesIn tree)
    (target : move.target vocabulary (Node.root current) node = some found) :
    found.LiesIn tree ∨ found.LiesIn current := by
  cases move with
  | child number namedOnly =>
      simp only [Move.target, Option.map_eq_some_iff] at target
      rcases target with ⟨child, at_, rfl⟩
      exact Or.inl (lies.child? at_)
  | field name => exact Or.inl (lies.childInField target)
  | fieldNumber field => exact Or.inl (lies.childInField target)
  | parent => exact Or.inr (Node.liesIn_of_parent target)
  | next namedOnly => exact Or.inr (Node.liesIn_of_next target)
  | previous namedOnly => exact Or.inr (Node.liesIn_of_previous target)
  | descendant first stop anonymous => exact Or.inl (lies.smallest target)

theorem nodeKind_current (tree : Tree) : NodeKind tree fun node => node.LiesIn tree where
  current _ lies := lies
  children _ lies := lies.children
  target _ _ _ _ lies target := (Work.Move.liesIn_target lies target).elim id id
  walks _ lies := ⟨tree, Cursor.liesIn_new lies, fun _ lies => lies⟩

/-- The node lies in a tree of the same shape. -/
def Node.Fits (tree : Tree) (node : Node) : Prop :=
  ∃ other, other.shape = tree.shape ∧ node.LiesIn other

theorem nodeKind_shape (tree : Tree) : NodeKind tree fun node => node.Fits tree where
  current _ lies := ⟨tree, rfl, lies⟩
  children := by
    rintro node ⟨other, same, lies⟩ child member
    exact ⟨other, same, lies.children child member⟩
  target := by
    rintro vocabulary node move found ⟨other, same, lies⟩ target
    rcases Work.Move.liesIn_target lies target with there | here
    · exact ⟨other, same, there⟩
    · exact ⟨tree, rfl, here⟩
  walks := by
    rintro node ⟨other, same, lies⟩
    exact ⟨other, Cursor.liesIn_new lies, fun _ lies => ⟨other, same, lies⟩⟩

/-! ## Operations on one document -/

/-- The document has the tree, and all nodes it has handed out are of the kind. -/
def Document.HasHandedOut (tree : Tree) (kind : Node → Prop) (document : Document) : Prop :=
  document.tree = tree ∧ ∀ node ∈ document.records, kind node

/-- The workspace has an accepted document. -/
def Workspace.Holds (ref : DocumentRef) (accepted : Document → Prop)
    (workspace : Workspace) : Prop :=
  ∃ document, workspace.documents[ref.index]? = some document ∧ accepted document

/-- Documents with the tree are accepted that have handed out nodes of the kind only, and they are
still accepted after they have handed out another one. -/
structure Handing (tree : Tree) (kind : Node → Prop) (accepted : Document → Prop) : Prop
    extends NodeKind tree kind where
  handedOut : ∀ {document}, accepted document → document.HasHandedOut tree kind
  handOut : ∀ {document node}, accepted document → kind node →
    accepted (document.handOut node).2

section Operations

variable {ref : DocumentRef} {tree : Tree} {kind : Node → Prop} {accepted : Document → Prop}

/-- A node that is not known yet gets a record. -/
theorem Document.handOut_of_unknown {document : Document} {node : Node}
    (unknown : document.numbers[node.trail]? = none) :
    (document.handOut node).2 =
      { document with
        records := document.records.push node
        numbers := document.numbers.insert node.trail document.records.size } := by
  unfold Document.handOut
  rw [unknown]

theorem Document.HasHandedOut.handOut {document : Document} {node : Node}
    (handedOut : document.HasHandedOut tree kind) (known : kind node) :
    (document.handOut node).2.HasHandedOut tree kind := by
  unfold Document.handOut
  split
  · exact handedOut
  · refine ⟨handedOut.1, ?_⟩
    intro other member
    rcases Array.mem_push.mp member with before | rfl
    · exact handedOut.2 other before
    · exact known

theorem NodeKind.handing (nodes : NodeKind tree kind) :
    Handing tree kind fun document => document.HasHandedOut tree kind where
  toNodeKind := nodes
  handedOut handedOut := handedOut
  handOut handedOut known := handedOut.handOut known

theorem Handing.handOutAll (handing : Handing tree kind accepted) {nodes : List Node}
    {document : Document} (good : accepted document) (known : ∀ node ∈ nodes, kind node) :
    accepted (document.handOutAll nodes).2 := by
  induction nodes generalizing document with
  | nil => exact good
  | cons node rest ih =>
      rcases List.forall_mem_cons.mp known with ⟨first, others⟩
      exact ih (handing.handOut good first) others

namespace Work

theorem outcome_document {workspace : Workspace} {found : Document}
    (at_ : workspace.documents[ref.index]? = some found) :
    (document ref).outcome workspace = (.ok found, workspace) := by
  unfold document
  rw [outcome_bind, outcome_get]
  dsimp only
  rw [at_]
  rfl

theorem safe_document : (document ref).Safe (Workspace.Holds ref accepted) accepted := by
  intro workspace holds
  refine ⟨by rw [reads_document ref workspace]; exact holds, ?_⟩
  rcases holds with ⟨document, found, good⟩
  intro value same
  rw [outcome_document found] at same
  cases same
  exact good

theorem safe_node (handing : Handing tree kind accepted) {node : NodeRef}
    (of : node.document = ref) :
    (Work.node node).Safe (Workspace.Holds ref accepted) kind := by
  unfold Work.node
  rw [of]
  refine safe_document.bind fun document good => ?_
  split
  · rename_i found at_
    exact safe_pure ((handing.handedOut good).2 found (Array.mem_of_getElem? at_))
  · exact safe_throw _

theorem document_after_update {α : Type} {workspace : Workspace} {found : Document}
    (at_ : workspace.documents[ref.index]? = some found) (change : Document → α × Document) :
    ((update ref change).after workspace).documents[ref.index]? = some (change found).2 := by
  have result : (update ref change).after workspace =
      { workspace with
        documents := workspace.documents.setIfInBounds ref.index (change found).2 } := by
    unfold update after
    rw [outcome_bind, outcome_document at_]
    rfl
  rw [result]
  exact Array.getElem?_setIfInBounds_self_of_lt (Array.getElem?_eq_some_iff.mp at_).1

theorem document_after_handOut {workspace : Workspace} {found : Document}
    (at_ : workspace.documents[ref.index]? = some found) (node : Node) :
    ((handOut ref node).after workspace).documents[ref.index]? =
      some (found.handOut node).2 := by
  unfold handOut
  rw [after_bind_pure]
  exact document_after_update at_ _

theorem document_after_root {workspace : Workspace} {found : Document}
    (at_ : workspace.documents[ref.index]? = some found) :
    ((root ref).after workspace).documents[ref.index]? = some (found.handOut found.root).2 := by
  have result : (root ref).after workspace = (handOut ref found.root).after workspace := by
    unfold root after
    rw [outcome_bind, outcome_document at_]
  rw [result]
  exact document_after_handOut at_ _

theorem outcome_node {workspace : Workspace} {found : Document} {number : Nat} {record : Node}
    (at_ : workspace.documents[ref.index]? = some found)
    (recorded : found.records[number]? = some record) :
    (node ⟨ref, number⟩).outcome workspace = (.ok record, workspace) := by
  unfold node
  rw [outcome_bind, outcome_document at_]
  dsimp only
  rw [recorded]
  rfl

theorem safe_update {α : Type} {change : Document → α × Document}
    (keeps : ∀ document : Document, accepted document → accepted (change document).2) :
    (update ref change).Safe (Workspace.Holds ref accepted) fun _ => True := by
  intro workspace holds
  refine ⟨?_, fun _ _ => trivial⟩
  rcases holds with ⟨document, found, good⟩
  exact ⟨(change document).2, document_after_update found change, keeps document good⟩

theorem safe_handOut (handing : Handing tree kind accepted) {node : Node} (known : kind node) :
    (handOut ref node).Safe (Workspace.Holds ref accepted) fun handed => handed.document = ref := by
  have updates : (update ref fun document => document.handOut node).Safe
      (Workspace.Holds ref accepted) fun _ => True :=
    safe_update fun document good => handing.handOut good known
  exact updates.bind fun _ _ => safe_pure rfl

theorem safe_handOutAll (handing : Handing tree kind accepted) {nodes : List Node}
    (known : ∀ node ∈ nodes, kind node) :
    (handOutAll ref nodes).Safe (Workspace.Holds ref accepted) fun handed =>
      ∀ node ∈ handed, node.document = ref := by
  have updates : (update ref fun document => document.handOutAll nodes).Safe
      (Workspace.Holds ref accepted) fun _ => True :=
    safe_update fun document good => handing.handOutAll good known
  refine updates.bind fun numbers _ => safe_pure ?_
  intro node member
  rcases List.mem_map.mp member with ⟨number, _, rfl⟩
  rfl

theorem safe_root (handing : Handing tree kind accepted) :
    (root ref).Safe (Workspace.Holds ref accepted) fun handed => handed.document = ref := by
  refine safe_document.bind fun document good => ?_
  apply safe_handOut handing
  rw [Document.root, (handing.handedOut good).1]
  exact handing.current _ (Node.liesIn_root tree)

theorem safe_children (handing : Handing tree kind accepted) {node : NodeRef} (of : node.document = ref)
    (namedOnly : Bool) :
    (children node namedOnly).Safe (Workspace.Holds ref accepted) fun handed =>
      ∀ child ∈ handed, child.document = ref := by
  refine (safe_node handing of).bind fun found known => ?_
  rw [of]
  apply safe_handOutAll handing
  intro child member
  rcases List.mem_map.mp member with ⟨inner, among, rfl⟩
  exact handing.children found known inner (List.mem_filter.mp among).1

theorem safe_move (handing : Handing tree kind accepted) {node : NodeRef} (of : node.document = ref)
    (move : Move) :
    (Work.move node move).Safe (Workspace.Holds ref accepted) fun _ => True := by
  unfold Work.move
  rw [of]
  refine safe_document.bind fun document good => ?_
  refine (safe_node handing of).bind fun found known => ?_
  split
  · rename_i target leads
    rw [Document.root, (handing.handedOut good).1] at leads
    have handed : (handOut ref target).Safe (Workspace.Holds ref accepted) fun _ => True :=
      (safe_handOut handing (handing.target _ found move target known leads)).weaken
    exact handed.bind fun _ _ => safe_pure trivial
  · exact safe_pure trivial

mutual

theorem safe_outlineFrom (handing : Handing tree kind accepted) (node : NodeRef) (of : node.document = ref)
    (depth : Nat) (field : Option String) :
    (fuel : Nat) → (outlineFrom node depth field fuel).Safe (Workspace.Holds ref accepted)
      fun _ => True
  | 0 => by
    rw [outlineFrom]
    exact safe_pure trivial
  | fuel + 1 => by
    rw [outlineFrom]
    refine (safe_node handing of).weaken.bind fun _ _ => ?_
    refine (reads_brief node).safe.bind fun _ _ => ?_
    refine (safe_children handing of false).bind fun handed belong => ?_
    refine (reads_childFieldNames node).safe.bind fun fields _ => ?_
    refine (safe_outlineAll handing (depth + 1) handed belong fields fuel).bind fun _ _ => ?_
    exact safe_pure trivial

theorem safe_outlineAll (handing : Handing tree kind accepted) (depth : Nat) (refs : List NodeRef)
    (belong : ∀ node ∈ refs, node.document = ref) (fields : List (Option String)) :
    (fuel : Nat) → (outlineAll depth refs fields fuel).Safe (Workspace.Holds ref accepted)
      fun _ => True
  | 0 => by
    rw [outlineAll]
    exact safe_pure trivial
  | fuel + 1 => by
    cases refs with
    | nil =>
        rw [outlineAll]
        · exact safe_pure trivial
        · simp
    | cons node rest =>
        cases fields with
        | nil =>
            rw [outlineAll]
            · exact safe_pure trivial
            · simp
        | cons field further =>
            rw [outlineAll]
            rcases List.forall_mem_cons.mp belong with ⟨first, others⟩
            refine (safe_outlineFrom handing node first depth field fuel).bind fun _ _ => ?_
            refine (safe_outlineAll handing depth rest others further fuel).bind fun _ _ => ?_
            exact safe_pure trivial

end

theorem safe_outline (handing : Handing tree kind accepted) {node : NodeRef} (of : node.document = ref) :
    (outline node).Safe (Workspace.Holds ref accepted) fun _ => True :=
  (safe_node handing of).weaken.bind fun _ _ => safe_outlineFrom handing node of 0 none _

end Work

/-! ## Cursors and queries on the document -/

/-- The cursor walks on the document, among nodes of the kind. -/
def DocumentCursor.Keeps (ref : DocumentRef) (kind : Node → Prop) (walk : DocumentCursor) : Prop :=
  walk.document = ref ∧ walk.cursor.Keeps kind

/-- The run of the query cursor is one on the document, among nodes of the kind. -/
def QueryCursor.Keeps (ref : DocumentRef) (kind : Node → Prop) (cursor : QueryCursor) : Prop :=
  ∀ place run, cursor.run = some (place, run) → place = ref ∧ run.Keeps kind

namespace DocumentCursor

theorem Keeps.move {walk : DocumentCursor} (keeps : walk.Keeps ref kind) (move : Move) :
    (walk.move move).2.Keeps ref kind := by
  refine ⟨keeps.1, ?_⟩
  cases move with
  | firstChild => exact keeps.2.imp fun _ lies => lies.firstChild
  | lastChild => exact keeps.2.imp fun _ lies => lies.lastChild
  | parent => exact keeps.2.imp fun _ lies => lies.toParent
  | next => exact keeps.2.imp fun _ lies => lies.nextSibling
  | previous => exact keeps.2.imp fun _ lies => lies.previousSibling
  | childPastByte goal =>
      refine keeps.2.imp fun tree lies => ?_
      simp only [DocumentCursor.move, Move.perform]
      cases found : walk.cursor.childPastByte? goal with
      | none => exact lies
      | some result => exact Cursor.LiesIn.seek _ _ lies _ rfl result found
  | childPastPoint goal =>
      refine keeps.2.imp fun tree lies => ?_
      simp only [DocumentCursor.move, Move.perform]
      cases found : walk.cursor.childPastPoint? goal with
      | none => exact lies
      | some result => exact Cursor.LiesIn.seek _ _ lies _ rfl result found

theorem safe_new (handing : Handing tree kind accepted) {node : NodeRef} (of : node.document = ref) :
    (new node).Safe (Workspace.Holds ref accepted) fun walk => walk.Keeps ref kind :=
  (Work.safe_node handing of).bind fun found known => Work.safe_pure ⟨of, handing.walks found known⟩

theorem safe_current (handing : Handing tree kind accepted) {walk : DocumentCursor}
    (keeps : walk.Keeps ref kind) :
    walk.current.Safe (Workspace.Holds ref accepted) fun _ => True := by
  unfold current
  rw [keeps.1]
  exact (Work.safe_handOut handing keeps.2.standing).weaken

theorem safe_summary (handing : Handing tree kind accepted) {walk : DocumentCursor}
    (keeps : walk.Keeps ref kind) :
    walk.summary.Safe (Workspace.Holds ref accepted) fun _ => True := by
  unfold summary
  refine (safe_current handing keeps).bind fun node _ => ?_
  exact (Work.reads_shownNode node).safe.bind fun _ _ => Work.safe_pure trivial

end DocumentCursor

namespace QueryCursor

variable {cursor : QueryCursor} {query : Query} {node : NodeRef}

theorem Keeps.setBytes (keeps : cursor.Keeps ref kind) (bytes : Nat × Nat) :
    (cursor.setBytes bytes).Keeps ref kind := by
  intro place run same
  rcases Option.map_eq_some_iff.mp same with ⟨⟨before, former⟩, going, changed⟩
  rcases keeps before former going with ⟨here, kept⟩
  cases changed
  exact ⟨here, kept.root, kept.cursor, kept.queue, kept.pending⟩

theorem Keeps.setPoints (keeps : cursor.Keeps ref kind) (points : Point × Point) :
    (cursor.setPoints points).Keeps ref kind := by
  intro place run same
  rcases Option.map_eq_some_iff.mp same with ⟨⟨before, former⟩, going, changed⟩
  rcases keeps before former going with ⟨here, kept⟩
  cases changed
  exact ⟨here, kept.root, kept.cursor, kept.queue, kept.pending⟩

theorem keeps_of_run {run : QueryRun} {started : QueryCursor} (kept : run.Keeps kind)
    (same : started.run = some (ref, run)) : started.Keeps ref kind := by
  intro place other again
  rw [same] at again
  cases again
  exact ⟨rfl, kept⟩

/-- A query that is started on a node walks from this node in the tree of the document. -/
theorem safe_exec (handing : Handing tree kind accepted) (of : node.document = ref) :
    (cursor.exec query node).Safe (Workspace.Holds ref accepted) fun started =>
      started.Keeps ref kind := by
  unfold exec
  rw [of]
  refine Work.safe_document.bind fun document good => ?_
  split
  · exact Work.safe_throw _
  · refine (Work.safe_node handing of).bind fun found known => Work.safe_pure ?_
    refine keeps_of_run ?_ rfl
    exact ⟨⟨tree, congrArg Node.root (handing.handedOut good).1, handing.current⟩, handing.walks found known,
      List.forall_mem_nil _, List.forall_mem_nil _⟩

theorem safe_deliver (handing : Handing tree kind accepted) {found : RawMatch} (known : found.Keeps kind) :
    (deliver ref found).Safe (Workspace.Holds ref accepted) fun _ => True := by
  refine (Work.safe_handOutAll handing ?_).bind fun _ _ => Work.safe_pure trivial
  intro node member
  rcases List.mem_map.mp member with ⟨capture, among, rfl⟩
  exact known capture among

theorem reads_captureRanges (captures : List (Nat × NodeRef)) :
    (captureRanges captures).Reads := by
  induction captures with
  | nil => exact Work.reads_pure _
  | cons capture rest ih =>
      exact (Work.reads_node capture.2).bind fun _ => ih.bind fun _ => Work.reads_pure _

theorem reads_isSatisfied (found : QueryMatch) (source : Text) :
    (isSatisfied query found source).Reads :=
  (reads_captureRanges found.captures).bind fun _ => Work.reads_pure _

theorem safe_deliverSatisfied (handing : Handing tree kind accepted) {source : Text} {matched : List RawMatch}
    (known : ∀ found ∈ matched, found.Keeps kind) :
    (deliverSatisfied query ref source matched).Safe (Workspace.Holds ref accepted)
      fun _ => True := by
  induction matched with
  | nil => exact Work.safe_pure trivial
  | cons found rest ih =>
      rcases List.forall_mem_cons.mp known with ⟨first, others⟩
      rw [deliverSatisfied]
      refine (safe_deliver handing first).bind fun delivered _ => ?_
      refine (reads_isSatisfied delivered source).safe.bind fun satisfied _ => ?_
      split
      · exact (ih others).bind fun _ _ => Work.safe_pure trivial
      · exact ih others

theorem safe_deliverCaptures (handing : Handing tree kind accepted) {source : Text} {captured : List (RawMatch × Nat)}
    (known : ∀ found ∈ captured, found.1.Keeps kind) :
    (deliverCaptures query ref source captured).Safe (Workspace.Holds ref accepted)
      fun _ => True := by
  induction captured with
  | nil => exact Work.safe_pure trivial
  | cons found rest ih =>
      rcases List.forall_mem_cons.mp known with ⟨first, others⟩
      rw [deliverCaptures]
      refine (safe_deliver handing first).bind fun delivered _ => ?_
      refine (reads_isSatisfied delivered source).safe.bind fun satisfied _ => ?_
      split
      · exact (ih others).bind fun _ _ => Work.safe_pure trivial
      · exact ih others

theorem safe_nextMatch (handing : Handing tree kind accepted) (keeps : cursor.Keeps ref kind) :
    cursor.nextMatch.Safe (Workspace.Holds ref accepted) fun result =>
      result.2.Keeps ref kind := by
  unfold nextMatch
  split
  · exact Work.safe_pure keeps
  · rename_i place run going
    rcases keeps place run going with ⟨rfl, kept⟩
    rcases kept.nextMatch handing.children with ⟨after, here⟩
    split
    · rename_i last ended
      rw [ended] at after
      exact Work.safe_pure (keeps_of_run after rfl)
    · rename_i found next ended
      rw [ended] at after here
      exact (safe_deliver handing (here found rfl)).bind fun _ _ => Work.safe_pure (keeps_of_run after rfl)

theorem safe_nextCapture (handing : Handing tree kind accepted) (keeps : cursor.Keeps ref kind) :
    cursor.nextCapture.Safe (Workspace.Holds ref accepted) fun result =>
      result.2.Keeps ref kind := by
  unfold nextCapture
  split
  · exact Work.safe_pure keeps
  · rename_i place run going
    rcases keeps place run going with ⟨rfl, kept⟩
    rcases kept.nextCapture handing.children with ⟨after, here⟩
    split
    · rename_i last ended
      rw [ended] at after
      exact Work.safe_pure (keeps_of_run after rfl)
    · rename_i found index next ended
      rw [ended] at after here
      exact (safe_deliver handing (here (found, index) rfl)).bind fun _ _ =>
        Work.safe_pure (keeps_of_run after rfl)

theorem safe_allMatches (handing : Handing tree kind accepted) (of : node.document = ref)
    (cursor : QueryCursor) (query : Query) (source : Text) :
    (cursor.allMatches query node source).Safe (Workspace.Holds ref accepted) fun result =>
      result.2.Keeps ref kind := by
  refine (safe_exec handing of).bind fun started keeps => ?_
  split
  · exact Work.safe_pure keeps
  · rename_i place run going
    rcases keeps place run going with ⟨rfl, kept⟩
    rcases kept.allMatches handing.children with ⟨after, here⟩
    exact (safe_deliverSatisfied handing here).bind fun _ _ => Work.safe_pure (keeps_of_run after rfl)

theorem safe_allCaptures (handing : Handing tree kind accepted) (of : node.document = ref)
    (cursor : QueryCursor) (query : Query) (source : Text) :
    (cursor.allCaptures query node source).Safe (Workspace.Holds ref accepted) fun result =>
      result.2.Keeps ref kind := by
  refine (safe_exec handing of).bind fun started keeps => ?_
  split
  · exact Work.safe_pure keeps
  · rename_i place run going
    rcases keeps place run going with ⟨rfl, kept⟩
    rcases kept.allCaptures handing.children with ⟨after, here⟩
    exact (safe_deliverCaptures handing here).bind fun _ _ => Work.safe_pure (keeps_of_run after rfl)

end QueryCursor

end Operations

end Reparse
