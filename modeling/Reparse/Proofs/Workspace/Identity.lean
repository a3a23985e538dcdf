import Reparse.Proofs.Occurrence
import Reparse.Proofs.Workspace.Session

/-!
# The numbers of nodes

A document numbers the nodes it hands out by their trails. Its records and its table of numbers say
the same (`Document.Numbered`): handing out a node keeps this, and so does an edit, which reads the
records again but leaves their trails as they are. In a session every node that is handed out gets
the place of its trail among all trails so far, in the order in which they came first
(`Session.identity_follows_trail`).
-/

namespace Reparse

/-! ## Documents -/

namespace Document

/-- The records and the table number the trails that have occurred by their first occurrences. -/
structure Numbered (document : Document) (seen : List (List Nat)) : Prop where
  records : document.records.toList.map (·.trail) = seen.eraseDups
  numbers : ∀ (trail : List Nat) (number : Nat),
    document.numbers[trail]? = some number ↔ seen.eraseDups[number]? = some trail

variable {document : Document} {seen : List (List Nat)} {node : Node}

theorem numbered_new (unused : document.records = #[]) (unnumbered : document.numbers = {}) :
    document.Numbered [] where
  records := by simp [unused]
  numbers := by simp [unnumbered]

theorem Numbered.size (numbered : document.Numbered seen) :
    document.records.size = seen.eraseDups.length := by
  rw [← numbered.records, List.length_map, Array.length_toList]

theorem Numbered.number_of_mem (numbered : document.Numbered seen) {trail : List Nat}
    (known : trail ∈ seen) : document.numbers[trail]? = some (seen.eraseDups.idxOf trail) :=
  (numbered.numbers _ _).mpr (List.getElem?_idxOf (List.mem_eraseDups.mpr known))

theorem Numbered.number_eq_none (numbered : document.Numbered seen) {trail : List Nat}
    (new : trail ∉ seen) : document.numbers[trail]? = none := by
  by_contra known
  rcases Option.ne_none_iff_exists'.mp known with ⟨number, at_⟩
  have listed := List.mem_of_getElem? ((numbered.numbers trail number).mp at_)
  exact new (List.mem_eraseDups.mp listed)

/-- The number of a node is the place of its trail, which is behind all others if it is new. -/
theorem Numbered.fst_handOut (numbered : document.Numbered seen) (node : Node) :
    (document.handOut node).1 = (seen ++ [node.trail]).eraseDups.idxOf node.trail := by
  by_cases known : node.trail ∈ seen
  · rw [Document.handOut, numbered.number_of_mem known, eraseDups_snoc_of_mem known]
  · rw [Document.handOut, numbered.number_eq_none known, idxOf_eraseDups_snoc known]
    exact numbered.size

theorem getElem?_concat_eq_some {trails : List (List Nat)} {last trail : List Nat} {number : Nat} :
    (trails ++ [last])[number]? = some trail ↔
      trails[number]? = some trail ∨ number = trails.length ∧ trail = last := by
  grind

theorem Numbered.handOut (numbered : document.Numbered seen) (node : Node) :
    (document.handOut node).2.Numbered (seen ++ [node.trail]) := by
  by_cases known : node.trail ∈ seen
  · rw [Document.handOut, numbered.number_of_mem known]
    have same := eraseDups_snoc_of_mem known
    exact ⟨same ▸ numbered.records, same ▸ numbered.numbers⟩
  · rw [handOut_of_unknown (numbered.number_eq_none known)]
    have longer := eraseDups_snoc_of_notMem known
    refine ⟨by simp [numbered.records, longer], fun trail number => ?_⟩
    rw [Std.HashMap.getElem?_insert, numbered.size, longer, getElem?_concat_eq_some]
    by_cases same : node.trail = trail
    · rw [if_pos (beq_iff_eq.mpr same), Option.some.injEq, eq_comm]
      refine ⟨fun last => Or.inr ⟨last, same.symm⟩, fun either => either.elim ?_ And.left⟩
      intro at_
      have listed := List.mem_eraseDups.mp (List.mem_of_getElem? at_)
      exact absurd listed (same ▸ known)
    · rw [if_neg (by simpa using same), numbered.numbers]
      exact ⟨Or.inl, fun either => either.elim id fun last => absurd last.2.symm same⟩

theorem Numbered.handOutAll {nodes : List Node} (numbered : document.Numbered seen) :
    (document.handOutAll nodes).2.Numbered (seen ++ nodes.map (·.trail)) := by
  induction nodes generalizing document seen with
  | nil => exact (List.append_nil seen).symm ▸ numbered
  | cons node rest ih =>
      rw [List.map_cons, List.append_cons]
      exact ih (numbered.handOut node)

/-- The numbers that nodes get are the places of their trails. -/
theorem Numbered.fst_handOutAll {nodes : List Node} (numbered : document.Numbered seen) :
    (document.handOutAll nodes).1 =
      nodes.map fun node => (seen ++ nodes.map (·.trail)).eraseDups.idxOf node.trail := by
  induction nodes generalizing document seen with
  | nil => rfl
  | cons node rest ih =>
      have whole : seen ++ (node :: rest).map (·.trail) =
          (seen ++ [node.trail]) ++ rest.map (·.trail) := List.append_cons ..
      have occurred : node.trail ∈ seen ++ [node.trail] := by simp
      rw [whole, List.map_cons, idxOf_eraseDups_append occurred, ← numbered.fst_handOut,
        ← ih (numbered.handOut node)]
      rfl

theorem trail_refreshed (tree : Tree) (record : Node) :
    (refreshed tree record).trail = record.trail := by
  rw [refreshed]
  cases resolved : Node.resolve tree record.trail with
  | none => rfl
  | some node => simpa [Node.root] using Node.trail_of_follow resolved

/-- An edit leaves the trails of the records as they are. -/
theorem Numbered.edit (numbered : document.Numbered seen) (edit : Edit) :
    (document.edit edit).Numbered seen where
  records := by simp [Document.edit, ← numbered.records, trail_refreshed]
  numbers := numbered.numbers

theorem handOutAll_append (document : Document) (nodes more : List Node) :
    (document.handOutAll (nodes ++ more)).2 =
      ((document.handOutAll nodes).2.handOutAll more).2 := by
  induction nodes generalizing document with
  | nil => rfl
  | cons node rest ih => exact ih (document.handOut node).2

theorem length_handOutAll (document : Document) (nodes : List Node) :
    (document.handOutAll nodes).1.length = nodes.length := by
  induction nodes generalizing document with
  | nil => rfl
  | cons node rest ih => exact congrArg (· + 1) (ih (document.handOut node).2)

end Document

/-- What is answered when a document is asked for a node. -/
theorem Work.fst_outcome_handOut {ref : DocumentRef} {workspace : Workspace} {document : Document}
    (at_ : workspace.documents[ref.index]? = some document) (node : Node) :
    ((handOut ref node).outcome workspace).1 = .ok ⟨ref, (document.handOut node).1⟩ := by
  unfold handOut update
  rw [outcome_bind, outcome_bind, outcome_document at_]
  rfl

theorem Work.fst_outcome_handOutAll {ref : DocumentRef} {workspace : Workspace}
    {document : Document} (at_ : workspace.documents[ref.index]? = some document)
    (nodes : List Node) :
    ((handOutAll ref nodes).outcome workspace).1 =
      .ok ((document.handOutAll nodes).1.map fun number => ⟨ref, number⟩) := by
  unfold handOutAll update
  rw [outcome_bind, outcome_bind, outcome_document at_]
  rfl

/-! ## Sessions -/

/-- From one workspace to another a document handed out these nodes in this order, each under a
name, and nothing else was done to it. -/
def Workspace.HandsOut (ref : DocumentRef) (before after : Workspace)
    (given : List (Node × NodeRef)) : Prop :=
  ∃ document, before.documents[ref.index]? = some document ∧
    given.map (·.2) =
      (document.handOutAll (given.map (·.1))).1.map (fun number => ⟨ref, number⟩) ∧
    after.documents[ref.index]? = some (document.handOutAll (given.map (·.1))).2

namespace Session

/-- The nodes that a document has handed out in a session so far, in order, with the names that they
got. -/
inductive Gives (ref : DocumentRef) (workspace : Workspace) :
    List (Node × NodeRef) → Session → Prop where
  | start : Gives ref workspace [] (start workspace)
  | visit {given more : List (Node × NodeRef)} {session after : Session} {number : Nat}
      (gives : Gives ref workspace given session) (visit : session.Visit ref number after)
      (handsOut : session.workspace.HandsOut ref after.workspace more) :
      Gives ref workspace (given ++ more)
        { after with isDisturbed := session.isDisturbed || number != session.edits }
  | edit {given : List (Node × NodeRef)} {session : Session}
      (gives : Gives ref workspace given session) (edit : Edit) :
      Gives ref workspace given
        { session with
          workspace := (Work.edit ref edit).after session.workspace
          edits := session.edits + 1
          isDisturbed := false }

/-- The trails of the nodes that were handed out. -/
def trailsOf (given : List (Node × NodeRef)) : List (List Nat) := given.map (·.1.trail)

/-- A document identifies nodes by their trails. -/
structure Identifies (ref : DocumentRef) (given : List (Node × NodeRef)) (document : Document) :
    Prop where
  /-- There is one record for each trail, in the order in which the trails came first. -/
  records : document.records.toList.map (·.trail) = (trailsOf given).eraseDups
  distinct : (document.records.toList.map (·.trail)).Nodup
  handedOut : ∀ trail, (∃ record ∈ document.records, record.trail = trail) ↔
    ∃ one ∈ given, one.1.trail = trail
  /-- The table of numbers says the same as the records. -/
  numbers : ∀ (trail : List Nat) (number : Nat), document.numbers[trail]? = some number ↔
    document.records[number]?.map (·.trail) = some trail
  /-- Two nodes that were handed out are equal if they have the same trail, and only then. -/
  equal : ∀ one ∈ given, ∀ other ∈ given, one.2 = other.2 ↔ one.1.trail = other.1.trail
  /-- The name that a node got still leads to a record with its trail. -/
  lasting : ∀ one ∈ given, one.2.document = ref ∧
    document.records[one.2.number]?.map (·.trail) = some one.1.trail
  /-- Every trail that is kept leads to a node of the tree. -/
  resolves : ∀ record ∈ document.records,
    ∃ node, Node.resolve document.tree record.trail = some node

section Gives

variable {ref : DocumentRef} {workspace : Workspace} {session after : Session} {tree : Tree}
  {document : Document} {given : List (Node × NodeRef)} {number : Nat}

/-- Whatever is done between edits, the document does nothing but hand out nodes. -/
theorem Visit.exists_handsOut (visit : session.Visit ref number after)
    (sound : session.Sound ref tree) :
    ∃ more, session.workspace.HandsOut ref after.workspace more := by
  rcases sound.shaped.holds with ⟨origin, at_, handedOut⟩
  let accepted (document : Document) : Prop :=
    document.HasHandedOut tree (fun node => node.Fits tree) ∧
      ∃ nodes, document = (origin.handOutAll nodes).2
  have handing : Handing tree (fun node => node.Fits tree) accepted := by
    refine ⟨nodeKind_shape tree, And.left, ?_⟩
    rintro document node ⟨handedOut, nodes, rfl⟩ fits
    exact ⟨handedOut.handOut fits, nodes ++ [node], (origin.handOutAll_append nodes [node]).symm⟩
  have keeps : session.Keeps ref accepted (fun node => node.Fits tree) fun _ => True :=
    ⟨⟨origin, at_, handedOut, [], rfl⟩, sound.shaped.walks, sound.shaped.runs⟩
  rcases (visit.keeps handing trivial keeps).holds with ⟨_, now, _, nodes, rfl⟩
  let refs := (origin.handOutAll nodes).1.map fun number => (⟨ref, number⟩ : NodeRef)
  have long : nodes.length = refs.length := by
    rw [List.length_map, origin.length_handOutAll]
  have nodesOf : (nodes.zip refs).map (·.1) = nodes := List.map_fst_zip (Nat.le_of_eq long)
  have refsOf : (nodes.zip refs).map (·.2) = refs := List.map_snd_zip (Nat.le_of_eq long.symm)
  exact ⟨nodes.zip refs, origin, at_, by rw [nodesOf, refsOf], by rw [nodesOf, now]⟩

theorem exists_gives (found : workspace.documents[ref.index]? = some document)
    (unused : document.records = #[])
    (reached : Relation.ReflTransGen (Step ref) (start workspace) session) :
    ∃ given, Gives ref workspace given session := by
  induction reached with
  | refl => exact ⟨[], .start⟩
  | tail earlier step ih =>
      rcases ih with ⟨given, gives⟩
      rcases sound_of_reached found unused earlier with ⟨tree, sound⟩
      cases step with
      | visit visit =>
          rcases visit.exists_handsOut sound with ⟨more, handsOut⟩
          exact ⟨given ++ more, gives.visit visit handsOut⟩
      | edit edit => exact ⟨given, gives.edit edit⟩

/-- The invariant: the document is numbered by the trails of what it has handed out, and every name
is that of the place of the trail. -/
theorem Gives.numbered (gives : Gives ref workspace given session)
    (found : workspace.documents[ref.index]? = some document) (unused : document.records = #[])
    (unnumbered : document.numbers = {}) :
    ∃ current, session.workspace.documents[ref.index]? = some current ∧
      current.Numbered (trailsOf given) ∧
      ∀ one ∈ given, one.2 = ⟨ref, (trailsOf given).eraseDups.idxOf one.1.trail⟩ := by
  induction gives with
  | start => exact ⟨document, found, Document.numbered_new unused unnumbered, by simp⟩
  | @visit given more session after _ _ _ handsOut ih =>
      rcases ih with ⟨current, at_, numbered, names⟩
      rcases handsOut with ⟨same, again, refs, now⟩
      obtain rfl : same = current := Option.some.inj (again.symm.trans at_)
      have trails : trailsOf (given ++ more) =
          trailsOf given ++ (more.map (·.1)).map (·.trail) := by
        simp [trailsOf]
      rw [numbered.fst_handOutAll, List.map_map, List.map_map, List.map_inj_left] at refs
      rw [trails]
      refine ⟨_, now, numbered.handOutAll, fun one member => ?_⟩
      rcases List.mem_append.mp member with earlier | later
      · have known : one.1.trail ∈ trailsOf given := List.mem_map_of_mem earlier
        rw [idxOf_eraseDups_append known]
        exact names one earlier
      · exact refs one later
  | edit _ edit ih =>
      rcases ih with ⟨current, at_, numbered, names⟩
      exact ⟨_, Work.document_after_update at_ _, numbered.edit edit, names⟩

/-- Whatever is done in a session on a document that had handed out nothing before, the document
identifies nodes by their trails. A node that it is asked for gets the place of its trail among those
that came before, or the first place behind them, and so does each of several nodes. -/
theorem identity_follows_trail (found : workspace.documents[ref.index]? = some document)
    (unused : document.records = #[]) (unnumbered : document.numbers = {})
    (reached : Relation.ReflTransGen (Step ref) (start workspace) session) :
    (∃ given, Gives ref workspace given session) ∧
      ∀ given, Gives ref workspace given session →
        ∃ current, session.workspace.documents[ref.index]? = some current ∧
          Identifies ref given current ∧
          (∀ node, ((Work.handOut ref node).outcome session.workspace).1 =
            .ok ⟨ref, (trailsOf given ++ [node.trail]).eraseDups.idxOf node.trail⟩) ∧
          ∀ nodes, ((Work.handOutAll ref nodes).outcome session.workspace).1 =
            .ok (nodes.map fun node =>
              ⟨ref, (trailsOf given ++ nodes.map (·.trail)).eraseDups.idxOf node.trail⟩) := by
  refine ⟨exists_gives found unused reached, fun given gives => ?_⟩
  rcases gives.numbered found unused unnumbered with ⟨current, at_, numbered, names⟩
  have place {one : Node × NodeRef} (member : one ∈ given) :
      one.1.trail ∈ (trailsOf given).eraseDups :=
    List.mem_eraseDups.mpr (List.mem_map_of_mem member)
  have recorded (number : Nat) :
      current.records[number]?.map (·.trail) = (trailsOf given).eraseDups[number]? := by
    simp [← numbered.records]
  refine ⟨current, at_, ⟨numbered.records, ?_, ?_, ?_, ?_, ?_, ?_⟩, ?_, ?_⟩
  · exact numbered.records ▸ nodup_eraseDups _
  · intro trail
    have among : trail ∈ current.records.toList.map (·.trail) ↔ trail ∈ trailsOf given := by
      rw [numbered.records, List.mem_eraseDups]
    simpa [trailsOf] using among
  · intro trail number
    rw [recorded, numbered.numbers]
  · intro one member other among
    rw [names one member, names other among, NodeRef.mk.injEq, List.idxOf_inj (place member)]
    exact and_iff_right rfl
  · intro one member
    rw [names one member, recorded]
    exact ⟨rfl, List.getElem?_idxOf (place member)⟩
  · intro record member
    rcases sound_of_reached found unused reached with ⟨tree, sound⟩
    rcases sound.shaped.holds with ⟨same, again, rfl, fits⟩
    obtain rfl : same = current := Option.some.inj (again.symm.trans at_)
    rcases fits record member with ⟨other, alike, lies⟩
    exact Node.exists_resolve_of_shape alike lies
  · intro node
    rw [Work.fst_outcome_handOut at_, numbered.fst_handOut]
  · intro nodes
    rw [Work.fst_outcome_handOutAll at_, numbered.fst_handOutAll, List.map_map]
    rfl

/-- A cursor on the root of a sum is asked for the first child after text was inserted in front of
the sum: the document has two records, of the root and of the child. -/
theorem identity_follows_trail_sum :
    ∃ parsed session given current,
      Parser.new.parseIn (Language.arithmetic 0) #[49, 43, 50] none = .ok parsed ∧
      Relation.ReflTransGen (Step ⟨0⟩) (start ⟨#[parsed.document]⟩) session ∧
      Gives ⟨0⟩ ⟨#[parsed.document]⟩ given session ∧
      session.workspace.documents[0]? = some current ∧ current.records.size = 2 ∧
      Identifies ⟨0⟩ given current := by
  have facts : (match Parser.new.parseIn (Language.arithmetic 0) #[49, 43, 50] none with
      | .ok parsed => !(firstBelow parsed.document).trail.isEmpty
      | .error _ => false) = true := by decide +kernel
  cases run : Parser.new.parseIn (Language.arithmetic 0) #[49, 43, 50] none with
  | error fault => simp [run] at facts
  | ok parsed =>
      simp only [run, Bool.not_eq_true', List.isEmpty_eq_false_iff] at facts
      rcases unused_of_parseIn run with ⟨unused, unnumbered⟩
      have found : (Workspace.mk #[parsed.document]).documents[(DocumentRef.mk 0).index]? =
        some parsed.document := rfl
      rcases exists_walk found unused unnumbered with ⟨begun, reached, at_, _, _, member⟩
      rcases exists_edit reached at_ ⟨⟨0, ⟨0, 0⟩⟩, ⟨0, ⟨0, 0⟩⟩, ⟨1, ⟨0, 1⟩⟩⟩ with
        ⟨edited, reached, at_, _, walks⟩
      rw [← walks] at member
      rcases exists_child reached at_ member with ⟨session, reached, now⟩
      rcases identity_follows_trail found unused unnumbered reached with ⟨⟨given, gives⟩, all⟩
      rcases all given gives with ⟨current, same, identifies, _⟩
      refine ⟨parsed, session, given, current, rfl, reached, gives, same, ?_, identifies⟩
      have unknown : (parsed.document.numbers.insert [] 0)[(firstBelow parsed.document).trail]? =
          none := by
        rw [Std.HashMap.getElem?_insert, unnumbered]
        simp [facts]
      rw [same] at now
      rw [Option.some.inj now, Document.handOut_of_unknown unknown]
      simp [Document.edit]

end Gives

end Session

end Reparse
