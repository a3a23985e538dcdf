import Mathlib.Logic.Relation
import Reparse.Grammar.Arithmetic
import Reparse.Proofs.Workspace.Outcome

/-!
# Sessions on a document

A session works on one document of a workspace: it takes nodes, moves between them, walks with
cursors, runs queries and edits the document, in any order, and cursors and queries outlive edits
(`Session.Step`). A document reads the records of its nodes again when it is edited, so all of them
are up to date then. They stay so as long as no cursor and no run of a query from before the last
edit is asked for a node (`Session.records_current`). One that is asked hands out a node in the form
it had, and the record of this node is out of date (`Session.record_out_of_date`).
-/

namespace Reparse

/-! ## Steps of a session -/

/-- A session on a document. Cursors and query cursors carry the number of edits that were made
before they were put on the document. -/
structure Session where
  workspace : Workspace
  edits : Nat
  walks : List (Nat × DocumentCursor)
  runs : List (Nat × QueryCursor)
  /-- Whether one from before the last edit was asked for a node after it. -/
  isDisturbed : Bool

namespace Session

/-- A session that begins in a workspace. -/
def start (workspace : Workspace) : Session := ⟨workspace, 0, [], [], false⟩

/-- What is done in a session between edits. The number is the one that a cursor or query cursor
carries if it is asked for a node, and that of the edits made so far otherwise. A cursor that moves
leaves a copy where it was. -/
inductive Visit (ref : DocumentRef) (session : Session) : Nat → Session → Prop where
  /-- Something that does not concern the document. -/
  | elsewhere {workspace : Workspace} (same : workspace.documents[ref.index]? =
      session.workspace.documents[ref.index]?) :
      Visit ref session session.edits { session with workspace }
  | root : Visit ref session session.edits
      { session with workspace := (Work.root ref).after session.workspace }
  | move {node : NodeRef} (of : node.document = ref) (move : Work.Move) :
      Visit ref session session.edits
        { session with workspace := (Work.move node move).after session.workspace }
  | children {node : NodeRef} (of : node.document = ref) (namedOnly : Bool) :
      Visit ref session session.edits
        { session with workspace := (Work.children node namedOnly).after session.workspace }
  | outline {node : NodeRef} (of : node.document = ref) :
      Visit ref session session.edits
        { session with workspace := (Work.outline node).after session.workspace }
  | walk {node : NodeRef} {walk : DocumentCursor} (of : node.document = ref)
      (begun : ((DocumentCursor.new node).outcome session.workspace).1 = .ok walk) :
      Visit ref session session.edits
        { session with walks := (session.edits, walk) :: session.walks }
  | step {number : Nat} {walk : DocumentCursor} (member : (number, walk) ∈ session.walks)
      (move : DocumentCursor.Move) :
      Visit ref session session.edits
        { session with walks := (number, (walk.move move).2) :: session.walks }
  | current {number : Nat} {walk : DocumentCursor} (member : (number, walk) ∈ session.walks) :
      Visit ref session number
        { session with workspace := walk.current.after session.workspace }
  | summary {number : Nat} {walk : DocumentCursor} (member : (number, walk) ∈ session.walks) :
      Visit ref session number
        { session with workspace := walk.summary.after session.workspace }
  | exec {node : NodeRef} {cursor started : QueryCursor} {query : Query}
      (of : node.document = ref)
      (begun : ((cursor.exec query node).outcome session.workspace).1 = .ok started) :
      Visit ref session session.edits
        { session with runs := (session.edits, started) :: session.runs }
  | setBytes {number : Nat} {cursor : QueryCursor} (member : (number, cursor) ∈ session.runs)
      (bytes : Nat × Nat) :
      Visit ref session session.edits
        { session with runs := (number, cursor.setBytes bytes) :: session.runs }
  | setPoints {number : Nat} {cursor : QueryCursor} (member : (number, cursor) ∈ session.runs)
      (points : Point × Point) :
      Visit ref session session.edits
        { session with runs := (number, cursor.setPoints points) :: session.runs }
  | nextMatch {number : Nat} {cursor next : QueryCursor} {found : Option QueryMatch}
      (member : (number, cursor) ∈ session.runs)
      (gone : (cursor.nextMatch.outcome session.workspace).1 = .ok (found, next)) :
      Visit ref session number
        { session with
          workspace := cursor.nextMatch.after session.workspace
          runs := (number, next) :: session.runs }
  | nextCapture {number : Nat} {cursor next : QueryCursor} {found : Option (QueryMatch × Nat)}
      (member : (number, cursor) ∈ session.runs)
      (gone : (cursor.nextCapture.outcome session.workspace).1 = .ok (found, next)) :
      Visit ref session number
        { session with
          workspace := cursor.nextCapture.after session.workspace
          runs := (number, next) :: session.runs }
  | allMatches {node : NodeRef} {cursor next : QueryCursor} {query : Query} {source : Text}
      {found : List QueryMatch} (of : node.document = ref)
      (gone : ((cursor.allMatches query node source).outcome session.workspace).1 =
        .ok (found, next)) :
      Visit ref session session.edits
        { session with
          workspace := (cursor.allMatches query node source).after session.workspace
          runs := (session.edits, next) :: session.runs }
  | allCaptures {node : NodeRef} {cursor next : QueryCursor} {query : Query} {source : Text}
      {found : List (QueryMatch × Nat)} (of : node.document = ref)
      (gone : ((cursor.allCaptures query node source).outcome session.workspace).1 =
        .ok (found, next)) :
      Visit ref session session.edits
        { session with
          workspace := (cursor.allCaptures query node source).after session.workspace
          runs := (session.edits, next) :: session.runs }

/-- A step of a session on a document: something between edits, or an edit. -/
inductive Step (ref : DocumentRef) (session : Session) : Session → Prop where
  | visit {number : Nat} {after : Session} (visit : session.Visit ref number after) :
      Step ref session
        { after with isDisturbed := session.isDisturbed || number != session.edits }
  | edit (edit : Edit) :
      Step ref session
        { session with
          workspace := (Work.edit ref edit).after session.workspace
          edits := session.edits + 1
          isDisturbed := false }

/-! ## What steps preserve -/

/-- The document is accepted, and the cursors and query cursors that carry certain numbers are among
nodes of a kind. -/
structure Keeps (ref : DocumentRef) (accepted : Document → Prop) (kind : Node → Prop)
    (usable : Nat → Prop) (session : Session) : Prop where
  holds : session.workspace.Holds ref accepted
  walks : ∀ number walk, (number, walk) ∈ session.walks → usable number → walk.Keeps ref kind
  runs : ∀ number cursor, (number, cursor) ∈ session.runs → usable number → cursor.Keeps ref kind

section Keeps

variable {ref : DocumentRef} {tree : Tree} {accepted : Document → Prop} {kind : Node → Prop}
  {usable : Nat → Prop} {session after : Session} {number : Nat}

theorem Keeps.work {α : Type} {work : Work α} {condition : α → Prop}
    (keeps : session.Keeps ref accepted kind usable)
    (safe : work.Safe (Workspace.Holds ref accepted) condition) :
    Keeps ref accepted kind usable { session with workspace := work.after session.workspace } :=
  ⟨(safe session.workspace keeps.holds).1, keeps.walks, keeps.runs⟩

theorem Keeps.walk {walk : DocumentCursor} (keeps : session.Keeps ref accepted kind usable)
    (kept : usable number → walk.Keeps ref kind) :
    Keeps ref accepted kind usable { session with walks := (number, walk) :: session.walks } := by
  refine ⟨keeps.holds, ?_, keeps.runs⟩
  intro other moved member usableOther
  rcases List.mem_cons.mp member with same | before
  · cases same
    exact kept usableOther
  · exact keeps.walks other moved before usableOther

theorem Keeps.run {cursor : QueryCursor} (keeps : session.Keeps ref accepted kind usable)
    (kept : usable number → cursor.Keeps ref kind) :
    Keeps ref accepted kind usable { session with runs := (number, cursor) :: session.runs } := by
  refine ⟨keeps.holds, keeps.walks, ?_⟩
  intro other moved member usableOther
  rcases List.mem_cons.mp member with same | before
  · cases same
    exact kept usableOther
  · exact keeps.runs other moved before usableOther

/-- Between edits a session keeps to the kind as long as whatever it asks for handing does. -/
theorem Visit.keeps (handing : Handing tree kind accepted) (visit : session.Visit ref number after)
    (asked : usable number) (keeps : session.Keeps ref accepted kind usable) :
    after.Keeps ref accepted kind usable := by
  cases visit with
  | elsewhere same =>
      rcases keeps.holds with ⟨document, found, good⟩
      exact ⟨⟨document, same.trans found, good⟩, keeps.walks, keeps.runs⟩
  | root => exact keeps.work (Work.safe_root handing)
  | move of move => exact keeps.work (Work.safe_move handing of move)
  | children of namedOnly => exact keeps.work (Work.safe_children handing of namedOnly)
  | outline of => exact keeps.work (Work.safe_outline handing of)
  | walk of begun =>
      have kept := (DocumentCursor.safe_new handing of _ keeps.holds).2 _ begun
      exact keeps.walk fun _ => kept
  | step member move => exact keeps.walk fun usable => (keeps.walks _ _ member usable).move move
  | current member =>
      exact keeps.work (DocumentCursor.safe_current handing (keeps.walks _ _ member asked))
  | summary member =>
      exact keeps.work (DocumentCursor.safe_summary handing (keeps.walks _ _ member asked))
  | exec of begun =>
      have kept := (QueryCursor.safe_exec handing of _ keeps.holds).2 _ begun
      exact keeps.run fun _ => kept
  | setBytes member bytes =>
      exact keeps.run fun usable => (keeps.runs _ _ member usable).setBytes bytes
  | setPoints member points =>
      exact keeps.run fun usable => (keeps.runs _ _ member usable).setPoints points
  | nextMatch member gone =>
      have safe := QueryCursor.safe_nextMatch handing (keeps.runs _ _ member asked)
      have kept := (safe _ keeps.holds).2 _ gone
      exact (keeps.work safe).run fun _ => kept
  | nextCapture member gone =>
      have safe := QueryCursor.safe_nextCapture handing (keeps.runs _ _ member asked)
      have kept := (safe _ keeps.holds).2 _ gone
      exact (keeps.work safe).run fun _ => kept
  | @allMatches _ cursor _ query source _ of gone =>
      have safe := QueryCursor.safe_allMatches handing of cursor query source
      have kept := (safe _ keeps.holds).2 _ gone
      exact (keeps.work safe).run fun _ => kept
  | @allCaptures _ cursor _ query source _ of gone =>
      have safe := QueryCursor.safe_allCaptures handing of cursor query source
      have kept := (safe _ keeps.holds).2 _ gone
      exact (keeps.work safe).run fun _ => kept

end Keeps

/-- The invariant of sessions: all nodes lie in trees of the shape of the current one, and as long
as nothing from before the last edit was asked for a node, they lie in the current one itself. -/
structure Sound (ref : DocumentRef) (tree : Tree) (session : Session) : Prop where
  walks : ∀ number walk, (number, walk) ∈ session.walks → number ≤ session.edits
  runs : ∀ number cursor, (number, cursor) ∈ session.runs → number ≤ session.edits
  shaped : session.Keeps ref (Document.HasHandedOut tree fun node => node.Fits tree)
    (fun node => node.Fits tree) fun _ => True
  current : session.isDisturbed = false →
    session.Keeps ref (Document.HasHandedOut tree fun node => node.LiesIn tree)
      (fun node => node.LiesIn tree) fun number => number = session.edits

section Sound

variable {ref : DocumentRef} {tree : Tree} {session after : Session} {number : Nat}

theorem Visit.edits (visit : session.Visit ref number after) : after.edits = session.edits := by
  cases visit <;> rfl

theorem Visit.isDisturbed (visit : session.Visit ref number after) :
    after.isDisturbed = session.isDisturbed := by
  cases visit <;> rfl

/-- New cursors carry the number of edits so far, and copies that of the original. -/
theorem Visit.numbers (visit : session.Visit ref number after)
    (walks : ∀ number walk, (number, walk) ∈ session.walks → number ≤ session.edits)
    (runs : ∀ number cursor, (number, cursor) ∈ session.runs → number ≤ session.edits) :
    (∀ number walk, (number, walk) ∈ after.walks → number ≤ session.edits) ∧
      ∀ number cursor, (number, cursor) ∈ after.runs → number ≤ session.edits := by
  have add {α : Type} {items : List (Nat × α)} {first : Nat} {item : α} (le : first ≤ session.edits)
      (others : ∀ number item, (number, item) ∈ items → number ≤ session.edits) :
      ∀ number item', (number, item') ∈ (first, item) :: items → number ≤ session.edits := by
    intro number other member
    rcases List.mem_cons.mp member with same | before
    · cases same
      exact le
    · exact others number other before
  cases visit with
  | elsewhere | root | move | children | outline | current | summary => exact ⟨walks, runs⟩
  | walk => exact ⟨add (Nat.le_refl _) walks, runs⟩
  | step member => exact ⟨add (walks _ _ member) walks, runs⟩
  | exec | allMatches | allCaptures => exact ⟨walks, add (Nat.le_refl _) runs⟩
  | setBytes member | setPoints member | nextMatch member | nextCapture member =>
      exact ⟨walks, add (runs _ _ member) runs⟩

theorem Sound.visit (sound : session.Sound ref tree) (visit : session.Visit ref number after) :
    Sound ref tree
      { after with isDisturbed := session.isDisturbed || number != session.edits } := by
  have numbers := visit.numbers sound.walks sound.runs
  have shaped := visit.keeps (nodeKind_shape tree).handing trivial sound.shaped
  refine ⟨?_, ?_, ⟨shaped.holds, shaped.walks, shaped.runs⟩, ?_⟩
  · simpa only [visit.edits] using numbers.1
  · simpa only [visit.edits] using numbers.2
  · intro undisturbed
    simp only [Bool.or_eq_false_iff, bne_eq_false_iff_eq] at undisturbed
    have current := visit.keeps (nodeKind_current tree).handing undisturbed.2
      (sound.current undisturbed.1)
    refine ⟨current.holds, ?_, ?_⟩
    · simpa only [visit.edits] using current.walks
    · simpa only [visit.edits] using current.runs

theorem fits_congr {other : Tree} (same : tree.shape = other.shape) :
    (fun node : Node => node.Fits tree) = fun node => node.Fits other := by
  funext node
  rw [Node.Fits, same, ← Node.Fits]

/-- The record of a node that is read again is up to date. -/
theorem liesIn_refreshed {other : Tree} {node : Node} (fits : node.Fits tree)
    (same : tree.shape = other.shape) : (Document.refreshed other node).LiesIn other := by
  rcases fits with ⟨former, alike, lies⟩
  rcases Node.exists_resolve_of_shape (alike.trans same) lies with ⟨again, resolved⟩
  rw [Document.refreshed, resolved]
  exact Node.liesIn_of_resolve resolved

/-- After an edit all records are up to date, whatever happened before. -/
theorem Sound.edit (sound : session.Sound ref tree) (edit : Edit) :
    Sound ref (tree.edit edit)
      { session with
        workspace := (Work.edit ref edit).after session.workspace
        edits := session.edits + 1
        isDisturbed := false } := by
  have same := Tree.shape_edit edit tree
  have shaped := sound.shaped
  rcases shaped.holds with ⟨document, found, treeEq, records⟩
  have current : ((Work.edit ref edit).after session.workspace).Holds ref
      (Document.HasHandedOut (tree.edit edit) fun node => node.LiesIn (tree.edit edit)) := by
    refine ⟨document.edit edit, Work.document_after_update found _, ?_, ?_⟩
    · simp only [Document.edit, treeEq]
    · intro node member
      simp only [Document.edit, Array.mem_map, treeEq] at member
      rcases member with ⟨before, among, rfl⟩
      exact liesIn_refreshed (records before among) same.symm
  refine ⟨?_, ?_, ⟨?_, ?_, ?_⟩, ?_⟩
  · exact fun number walk member => Nat.le_succ_of_le (sound.walks number walk member)
  · exact fun number cursor member => Nat.le_succ_of_le (sound.runs number cursor member)
  · rcases current with ⟨edited, at_, treeEq, records⟩
    exact ⟨edited, at_, treeEq, fun node member => ⟨_, rfl, records node member⟩⟩
  · rw [fits_congr same]
    exact shaped.walks
  · rw [fits_congr same]
    exact shaped.runs
  · intro _
    refine ⟨current, ?_, ?_⟩
    · intro number walk member usable
      have := sound.walks number walk member
      dsimp only at usable
      omega
    · intro number cursor member usable
      have := sound.runs number cursor member
      dsimp only at usable
      omega

theorem Step.sound (step : session.Step ref after) (sound : session.Sound ref tree) :
    ∃ tree, after.Sound ref tree := by
  cases step with
  | visit visit => exact ⟨tree, sound.visit visit⟩
  | edit edit => exact ⟨tree.edit edit, sound.edit edit⟩

theorem sound_of_reached {workspace : Workspace} {document : Document}
    (found : workspace.documents[ref.index]? = some document) (unused : document.records = #[])
    (reached : Relation.ReflTransGen (Step ref) (start workspace) session) :
    ∃ tree, session.Sound ref tree := by
  induction reached with
  | refl =>
      have nothing {kind : Node → Prop} {usable : Nat → Prop} :
          (start workspace).Keeps ref (Document.HasHandedOut document.tree kind) kind usable := by
        refine ⟨⟨document, found, rfl, ?_⟩, nofun, nofun⟩
        intro node member
        simp [unused] at member
      exact ⟨document.tree, nofun, nofun, nothing, fun _ => nothing⟩
  | tail _ step ih =>
      rcases ih with ⟨tree, sound⟩
      exact step.sound sound

/-- In every session that began when the document had handed out no node, the trail of each record
leads to a node of the current tree. This node is the record itself, unless a cursor or a run of a
query from before the last edit was asked for a node after it. -/
theorem records_current {workspace : Workspace} {document current : Document}
    (found : workspace.documents[ref.index]? = some document) (unused : document.records = #[])
    (reached : Relation.ReflTransGen (Step ref) (start workspace) session)
    (now : session.workspace.documents[ref.index]? = some current) :
    ∀ node ∈ current.records, ∃ again, Node.resolve current.tree node.trail = some again ∧
      (session.isDisturbed = false → again = node) := by
  intro node member
  rcases sound_of_reached found unused reached with ⟨tree, sound⟩
  rcases sound.shaped.holds with ⟨same, at_, treeEq, records⟩
  rw [now] at at_
  cases at_
  subst treeEq
  rcases records node member with ⟨other, alike, lies⟩
  rcases Node.exists_resolve_of_shape alike lies with ⟨again, resolved⟩
  refine ⟨again, resolved, fun undisturbed => ?_⟩
  rcases (sound.current undisturbed).holds with ⟨_, at_, _, records⟩
  rw [now] at at_
  cases at_
  have lies : Node.resolve current.tree node.trail = some node := records node member
  rw [resolved] at lies
  exact Option.some.inj lies

end Sound

/-! ## A session on a sum -/

section Sum

variable {ref : DocumentRef} {workspace : Workspace} {session : Session} {document : Document}

/-- The node of the first visible child of the root. -/
def firstBelow (document : Document) : Node := (Cursor.new document.root).firstChild.2.node

/-- A cursor is put on the root of a document that has handed out nothing. -/
theorem exists_walk (found : workspace.documents[ref.index]? = some document)
    (unused : document.records = #[]) (unnumbered : document.numbers = {}) :
    ∃ session, Relation.ReflTransGen (Step ref) (start workspace) session ∧
      session.workspace.documents[ref.index]? = some { document with
        records := #[document.root], numbers := document.numbers.insert [] 0 } ∧
      session.edits = 0 ∧ session.isDisturbed = false ∧
      (0, ⟨ref, Cursor.new document.root⟩) ∈ session.walks := by
  have rooted := Work.document_after_root found
  rw [Document.handOut_of_unknown (by simp [unnumbered]), unused] at rooted
  have begun : ((DocumentCursor.new ⟨ref, 0⟩).outcome
      ((Work.root ref).after workspace)).1 = .ok ⟨ref, Cursor.new document.root⟩ := by
    unfold DocumentCursor.new
    rw [Work.outcome_bind, Work.outcome_node rooted rfl]
    rfl
  have reached := (Relation.ReflTransGen.refl (r := Step ref) (a := start workspace)).tail
    (.visit .root)
  exact ⟨_, reached.tail (.visit (.walk rfl begun)), rooted, rfl, rfl, List.mem_cons_self⟩

theorem exists_edit (reached : Relation.ReflTransGen (Step ref) (start workspace) session)
    (found : session.workspace.documents[ref.index]? = some document) (edit : Edit) :
    ∃ after, Relation.ReflTransGen (Step ref) (start workspace) after ∧
      after.workspace.documents[ref.index]? = some (document.edit edit) ∧
      after.isDisturbed = false ∧ after.walks = session.walks :=
  ⟨_, reached.tail (.edit edit), Work.document_after_update found _, rfl, rfl⟩

/-- A cursor goes to the first child and is asked for the node there. -/
theorem exists_child {number : Nat} {node : Node}
    (reached : Relation.ReflTransGen (Step ref) (start workspace) session)
    (found : session.workspace.documents[ref.index]? = some document)
    (member : (number, ⟨ref, Cursor.new node⟩) ∈ session.walks) :
    ∃ after, Relation.ReflTransGen (Step ref) (start workspace) after ∧
      after.workspace.documents[ref.index]? =
        some (document.handOut (Cursor.new node).firstChild.2.node).2 := by
  have moved := reached.tail (.visit (.step member .firstChild))
  have last := moved.tail (.visit (.current List.mem_cons_self))
  exact ⟨_, last, Work.document_after_handOut found _⟩

/-- A node that a cursor from before an edit hands out after it has the record of the node that lay
in the tree before. -/
theorem exists_stale (found : workspace.documents[ref.index]? = some document)
    (unused : document.records = #[]) (unnumbered : document.numbers = {})
    (below : (firstBelow document).trail ≠ []) (edit : Edit) :
    ∃ session current, Relation.ReflTransGen (Step ref) (start workspace) session ∧
      session.workspace.documents[ref.index]? = some current ∧
      current.tree = document.tree.edit edit ∧ firstBelow document ∈ current.records := by
  rcases exists_walk found unused unnumbered with ⟨begun, reached, at_, _, _, member⟩
  rcases exists_edit reached at_ edit with ⟨edited, reached, at_, _, walks⟩
  rw [← walks] at member
  rcases exists_child reached at_ member with ⟨session, reached, at_⟩
  have unknown : (document.numbers.insert [] 0)[(firstBelow document).trail]? = none := by
    rw [Std.HashMap.getElem?_insert, unnumbered]
    simp [below]
  refine ⟨session, _, reached, at_, ?_, ?_⟩
  · rw [Document.handOut_of_unknown unknown]
    rfl
  · rw [Document.handOut_of_unknown unknown]
    exact Array.mem_push_self

/-- A document that was just parsed has handed out nothing. -/
theorem unused_of_parseIn {parser : Parser} {language : Language} {text : Text}
    {old : Option Document} {parsed : Parsed}
    (run : parser.parseIn language text old = .ok parsed) :
    parsed.document.records = #[] ∧ parsed.document.numbers = {} := by
  dsimp only [Parser.parseIn] at run
  split at run
  · cases run
  · cases run
    exact ⟨rfl, rfl⟩

/-- Text is inserted in front of a sum. A cursor that was put on the root before goes to the first
child, and the record of this child is the one from before the insertion. -/
theorem record_out_of_date :
    ∃ parsed session current node,
      Parser.new.parseIn (Language.arithmetic 0) #[49, 43, 50] none = .ok parsed ∧
      Relation.ReflTransGen (Step ⟨0⟩) (start ⟨#[parsed.document]⟩) session ∧
      session.workspace.documents[0]? = some current ∧ node ∈ current.records ∧
      Node.resolve current.tree node.trail ≠ some node := by
  have facts : (match Parser.new.parseIn (Language.arithmetic 0) #[49, 43, 50] none with
      | .ok parsed =>
        !(firstBelow parsed.document).trail.isEmpty &&
          ((Node.resolve (parsed.document.tree.edit ⟨⟨0, ⟨0, 0⟩⟩, ⟨0, ⟨0, 0⟩⟩, ⟨1, ⟨0, 1⟩⟩⟩)
            (firstBelow parsed.document).trail).map (·.start.bytes) !=
              some (firstBelow parsed.document).start.bytes)
      | .error _ => false) = true := by decide +kernel
  cases run : Parser.new.parseIn (Language.arithmetic 0) #[49, 43, 50] none with
  | error fault => simp [run] at facts
  | ok parsed =>
      simp only [run, Bool.and_eq_true, Bool.not_eq_true', List.isEmpty_eq_false_iff,
        bne_iff_ne] at facts
      rcases unused_of_parseIn run with ⟨unused, unnumbered⟩
      have found : (Workspace.mk #[parsed.document]).documents[(DocumentRef.mk 0).index]? =
        some parsed.document := rfl
      rcases exists_stale found unused unnumbered facts.1 ⟨⟨0, ⟨0, 0⟩⟩, ⟨0, ⟨0, 0⟩⟩, ⟨1, ⟨0, 1⟩⟩⟩
        with ⟨session, current, reached, at_, treeEq, member⟩
      refine ⟨parsed, session, current, _, rfl, reached, at_, member, ?_⟩
      intro resolved
      rw [treeEq] at resolved
      exact facts.2 (by rw [resolved]; rfl)

/-- If the cursor is asked for the child before the insertion, both records are up to date. -/
theorem records_current_sum :
    ∃ parsed session current,
      Parser.new.parseIn (Language.arithmetic 0) #[49, 43, 50] none = .ok parsed ∧
      Relation.ReflTransGen (Step ⟨0⟩) (start ⟨#[parsed.document]⟩) session ∧
      session.workspace.documents[0]? = some current ∧ current.records.size = 2 ∧
      ∀ node ∈ current.records, Node.resolve current.tree node.trail = some node := by
  have facts : (match Parser.new.parseIn (Language.arithmetic 0) #[49, 43, 50] none with
      | .ok parsed => !(firstBelow parsed.document).trail.isEmpty
      | .error _ => false) = true := by decide +kernel
  cases run : Parser.new.parseIn (Language.arithmetic 0) #[49, 43, 50] none with
  | error fault => simp [run] at facts
  | ok parsed =>
      simp only [run, Bool.not_eq_true', List.isEmpty_eq_false_iff] at facts
      rcases unused_of_parseIn run with ⟨unused, unnumbered⟩
      have found : (Workspace.mk #[parsed.document]).documents[(DocumentRef.mk 0).index]? =
        some parsed.document := rfl
      rcases exists_walk found unused unnumbered with ⟨begun, reached, at_, _, _, member⟩
      rcases exists_child reached at_ member with ⟨asked, reached, at_⟩
      rcases exists_edit reached at_ ⟨⟨0, ⟨0, 0⟩⟩, ⟨0, ⟨0, 0⟩⟩, ⟨1, ⟨0, 1⟩⟩⟩ with
        ⟨session, reached, at_, undisturbed, _⟩
      have unknown : (parsed.document.numbers.insert [] 0)[(firstBelow parsed.document).trail]? =
          none := by
        rw [Std.HashMap.getElem?_insert, unnumbered]
        simp [facts]
      refine ⟨parsed, session, _, rfl, reached, at_, ?_, ?_⟩
      · rw [Document.handOut_of_unknown unknown]
        simp [Document.edit]
      · intro node member
        rcases records_current found unused reached at_ node member with ⟨again, resolved, same⟩
        rw [resolved, same undisturbed]

end Sum

end Session

end Reparse
