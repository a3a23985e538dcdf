import Mathlib.Logic.Function.Basic
import Reparse.Proofs.Parse.Folding
import Reparse.Proofs.Parse.Interface

/-!
# Building a tree directly

A parser need not record events. It may keep the nodes that are open, with the parts that each of
them has so far (`Draft`): `start` opens a node, `complete` closes the innermost one around
everything added since, `abandon` leaves its parts to the node around it, and `precede` opens a node
that begins just before a complete one.

`Builds` runs the calls of the parsing interface on a parse and on a draft side by side, as long as
they are made in order: open nodes are completed or abandoned innermost first, `precede` is applied
to a complete node that lies directly in the innermost open one and takes the handle of that node,
and a node that was opened by `precede` is not abandoned.
-/

namespace Reparse

/-- What is said about a complete node from outside: the field of the node around it in which it
stands, and the state in which it may be used again. -/
structure Tag where
  field : Nat
  state : Nat

def Tag.plain : Tag := ⟨0, noState⟩

/-- A part of a tree in the making. It has a name, under which its tag is kept. -/
inductive Sketch where
  | leaf (name : Nat) (tree : Tree)
  | node (name symbol : Nat) (parts : List Sketch)

namespace Sketch

def name : Sketch → Nat
  | leaf name _ => name
  | node name _ _ => name

mutual

/-- The tree that a sketch stands for. A leaf keeps the state that it carries. -/
def tree (vocabulary : Vocabulary) (tags : Nat → Tag) : Sketch → Tree
  | leaf _ tree => tree
  | node name symbol parts =>
    Event.built vocabulary symbol (tags name).state (edges vocabulary tags parts)

def edges (vocabulary : Vocabulary) (tags : Nat → Tag) : List Sketch → List (Edge Tree)
  | [] => []
  | sketch :: rest =>
    ⟨(tags sketch.name).field, sketch.tree vocabulary tags⟩ :: edges vocabulary tags rest

end

mutual

/-- The trees at the leaves, from left to right. -/
def leaves : Sketch → List Tree
  | leaf _ tree => [tree]
  | node _ _ parts => leavesAmong parts

def leavesAmong : List Sketch → List Tree
  | [] => []
  | sketch :: rest => sketch.leaves ++ leavesAmong rest

end

variable {vocabulary : Vocabulary} {tags : Nat → Tag}

@[simp]
theorem edges_append (left right : List Sketch) :
    edges vocabulary tags (left ++ right) =
      edges vocabulary tags left ++ edges vocabulary tags right := by
  induction left with
  | nil => simp [edges]
  | cons sketch rest ih => simp [edges, ih]

@[simp]
theorem leavesAmong_append (left right : List Sketch) :
    leavesAmong (left ++ right) = leavesAmong left ++ leavesAmong right := by
  induction left with
  | nil => simp [leavesAmong]
  | cons sketch rest ih => simp [leavesAmong, ih]

@[simp]
theorem leavesAmong_leaf (name : Nat) (tree : Tree) : leavesAmong [leaf name tree] = [tree] := by
  simp [leavesAmong, leaves]

@[simp]
theorem leavesAmong_node (name symbol : Nat) (parts : List Sketch) :
    leavesAmong [node name symbol parts] = leavesAmong parts := by
  simp [leavesAmong, leaves]

/-- An error node carries no state, and its children stand in no fields. -/
theorem tree_error (name : Nat) (parts : List Sketch) :
    ((node name errorSymbol parts).tree vocabulary tags).info.state = noState ∧
      ∀ edge ∈ ((node name errorSymbol parts).tree vocabulary tags).children, edge.field = 0 := by
  constructor
  · simp [tree, Event.built, Tree.error, Tree.branch]
  · intro edge member
    simp only [tree, Event.built, if_true, Tree.error, Tree.branch, Tree.children_node,
      List.mem_map] at member
    rcases member with ⟨_, _, rfl⟩
    rfl

end Sketch

/-! ## Drafts -/

/-- An open node: the complete node that it was opened around, if it was, and the parts that the
node around it had before. -/
structure Level where
  name : Nat
  wraps : Option CompleteNode
  before : List Sketch

/-- A tree in the making, as the innermost open node shows it. -/
structure Draft where
  /-- The parts of the innermost open node so far, those outside of all nodes if none is open. -/
  inner : List Sketch
  /-- The open nodes, innermost first. -/
  around : List Level
  tags : Nat → Tag
  /-- The complete nodes whose handles the parser holds. -/
  held : List CompleteNode
  /-- The leaves that were consumed, in this order. -/
  consumed : List Tree

namespace Draft

def empty : Draft := ⟨[], [], fun _ => Tag.plain, [], []⟩

def hold (draft : Draft) (node : CompleteNode) : Draft :=
  { draft with held := node :: draft.held }

def add (draft : Draft) (name : Nat) (tree : Tree) : Draft :=
  { draft with
    inner := draft.inner ++ [.leaf name tree]
    tags := Function.update draft.tags name Tag.plain
    consumed := draft.consumed ++ [tree] }

def addAll (draft : Draft) (name : Nat) : List Tree → Draft
  | [] => draft
  | tree :: rest => (draft.add name tree).addAll (name + 1) rest

def start (draft : Draft) (node : OpenNode) : Draft :=
  { draft with inner := [], around := ⟨node.place, none, draft.inner⟩ :: draft.around }

/-- The innermost open node closes around everything added since. -/
def complete (draft : Draft) (symbol : Nat) : Draft :=
  match draft.around with
  | [] => draft
  | level :: around =>
    { draft with
      inner := level.before ++ [.node level.name symbol draft.inner]
      around
      tags := Function.update draft.tags level.name Tag.plain }

/-- The parts of the innermost open node are left to the node around it. -/
def abandon (draft : Draft) : Draft :=
  match draft.around with
  | [] => draft
  | level :: around => { draft with inner := level.before ++ draft.inner, around }

/-- A node opens that begins just before a complete one. -/
def precede (draft : Draft) (node : CompleteNode) (wrapper : OpenNode) : Draft :=
  { draft with
    inner := draft.inner.dropWhile fun part => part.name ≠ node.place
    around :=
      ⟨wrapper.place, some node, draft.inner.takeWhile fun part => part.name ≠ node.place⟩ ::
        draft.around
    held := draft.held.filter (· ≠ node) }

def setField (draft : Draft) (node : CompleteNode) (field : Nat) : Draft :=
  { draft with
    tags := Function.update draft.tags node.place ⟨field, (draft.tags node.place).state⟩ }

def setState (draft : Draft) (node : CompleteNode) (state : Nat) : Draft :=
  { draft with
    tags := Function.update draft.tags node.place ⟨(draft.tags node.place).field, state⟩ }

/-- A token is wrapped in an error node. -/
def skip (draft : Draft) (name : Nat) (token : Tree) : Draft :=
  ((draft.start ⟨name⟩).add (name + 1) token).complete errorSymbol

def leavesAround : List Level → List Tree
  | [] => []
  | level :: around => leavesAround around ++ Sketch.leavesAmong level.before

/-- The leaves of the draft, from left to right. -/
def leaves (draft : Draft) : List Tree :=
  leavesAround draft.around ++ Sketch.leavesAmong draft.inner

end Draft

/-! ## What lies ahead of a parse -/

namespace Context

/-- The extras that are taken in before the next token shows, in at most `fuel` scans. -/
def extrasAhead (context : Context) : Nat → List Tree
  | 0 => []
  | fuel + 1 =>
    if context.isHalted ∨ context.lookahead.isSome then []
    else
      match context.scanToken with
      | none => []
      | some (token, context) =>
        if context.isHalted then []
        else if token.info.extra then token :: (context.consume token).extrasAhead fuel
        else []

section ExtrasAhead

variable {context next : Context} {token : Tree} {fuel : Nat}

theorem extrasAhead_still (still : context.isHalted = true ∨ context.lookahead.isSome = true) :
    context.extrasAhead (fuel + 1) = [] := by
  rw [extrasAhead, if_pos still]

variable (idle : context.Idle) (scanned : context.scanToken = some (token, next))

include idle scanned

theorem extrasAhead_halted (halted : next.isHalted = true) :
    context.extrasAhead (fuel + 1) = [] := by
  rw [extrasAhead, if_neg idle.not_still, scanned]
  exact if_pos halted

theorem extrasAhead_extra (running : next.isHalted = false) (extra : token.info.extra = true) :
    context.extrasAhead (fuel + 1) = token :: (next.consume token).extrasAhead fuel := by
  rw [extrasAhead, if_neg idle.not_still, scanned]
  dsimp only
  rw [if_neg (by simp [running]), if_pos extra]

theorem extrasAhead_solid (running : next.isHalted = false) (solid : token.info.extra = false) :
    context.extrasAhead (fuel + 1) = [] := by
  rw [extrasAhead, if_neg idle.not_still, scanned]
  dsimp only
  rw [if_neg (by simp [running]), if_neg (by simp [solid])]

end ExtrasAhead

def extras (context : Context) : List Tree := context.extrasAhead context.budget

/-- The next token that is no extra, unless it is the end of the input. -/
def nextToken (context : Context) : Option Tree :=
  (context.fill context.budget).bind fun filled =>
    if filled.ahead = endSymbol then none else filled.lookahead

/-- The subtree of the older tree that may be taken over. -/
def reusable (context : Context) (state : Nat) : Option Tree :=
  if context.isHalted then none
  else
    context.older.bind fun older =>
      older.findReusable context.scanner.text.size context.position.bytes state

end Context

/-! ## Calls -/

/-- A call of a grammar to the parsing interface. -/
inductive Call where
  | start
  | complete (node : OpenNode) (symbol : Nat)
  | abandon (node : OpenNode)
  | precede (node : CompleteNode)
  | peek
  | bump
  | missing (symbol : Nat)
  | skipToken
  | reuse (state : Nat)
  | setField (node : CompleteNode) (field : Nat)
  | setState (node : CompleteNode) (state : Nat)

/-- The handle that a call answers with. -/
inductive Handle where
  | none
  | opened (node : OpenNode)
  | completed (node : CompleteNode)

namespace Call

/-- The call, made to a parse. -/
def perform : Call → Parsing Handle
  | start => .opened <$> Parsing.start
  | complete node symbol => .completed <$> Parsing.complete node symbol
  | abandon node => (fun _ => .none) <$> Parsing.abandon node
  | precede node => .opened <$> Parsing.precede node
  | peek => (fun _ => .none) <$> Parsing.peek
  | bump => (fun _ => .none) <$> Parsing.bump
  | missing symbol => (fun _ => .none) <$> Parsing.missing symbol
  | skipToken => (fun _ => .none) <$> Parsing.skipToken
  | reuse state => (fun found => found.elim .none .completed) <$> Parsing.reuse state
  | setField node field => (fun _ => .none) <$> Parsing.setField node field
  | setState node state => (fun _ => .none) <$> Parsing.setState node state

end Call

namespace Draft

/-- The call is made in order. -/
def Allows (draft : Draft) : Call → Prop
  | .complete node _ => ∃ level around, draft.around = level :: around ∧ level.name = node.place
  | .abandon node => ∃ level around, draft.around = level :: around ∧ level.name = node.place ∧
      level.wraps = none
  | .precede node => node ∈ draft.held ∧ ∃ part ∈ draft.inner, part.name = node.place
  | .setField node _ => node ∈ draft.held
  | .setState node _ => node ∈ draft.held
  | _ => True

/-- The draft after a call that was made to a parse and answered with a handle. Leaves without a
handle are named in the order in which they are recorded. -/
def after (draft : Draft) (context : Context) : Call → Handle → Draft
  | .start, .opened node => draft.start node
  | .complete _ symbol, .completed node => (draft.complete symbol).hold node
  | .abandon _, _ => draft.abandon
  | .precede node, .opened wrapper => draft.precede node wrapper
  | .peek, _ => draft.addAll context.events.size context.extras
  | .bump, _ => draft.addAll context.events.size (context.extras ++ context.nextToken.toList)
  | .missing symbol, _ =>
    draft.add context.events.size (Tree.missing symbol (context.vocabulary.kind symbol))
  | .skipToken, _ =>
    let seen := draft.addAll context.events.size context.extras
    match context.nextToken with
    | none => seen
    | some token => seen.skip (context.events.size + context.extras.length) token
  | .reuse state, .completed node =>
    match context.reusable state with
    | none => draft
    | some tree => (draft.add node.place tree).hold node
  | .setField node field, _ => draft.setField node field
  | .setState node state, _ => draft.setState node state
  | _, _ => draft

end Draft

/-- A parse and a draft to which the same calls were made, all of them in order. -/
inductive Builds : Context → Draft → Prop where
  | begin {context : Context} (fresh : context.events = #[]) : Builds context Draft.empty
  | call {context after : Context} {draft : Draft} {call : Call} {handle : Handle}
      (builds : Builds context draft) (allowed : draft.Allows call)
      (run : call.perform.run context = .ok (handle, after)) :
      Builds after (draft.after context call handle)

/-! ## Leaves -/

namespace Draft

variable {draft : Draft}

@[simp]
theorem leaves_add (name : Nat) (tree : Tree) :
    (draft.add name tree).leaves = draft.leaves ++ [tree] := by
  simp [leaves, add]

@[simp]
theorem consumed_add (name : Nat) (tree : Tree) :
    (draft.add name tree).consumed = draft.consumed ++ [tree] := rfl

@[simp]
theorem leaves_hold (node : CompleteNode) : (draft.hold node).leaves = draft.leaves := rfl

@[simp]
theorem consumed_hold (node : CompleteNode) : (draft.hold node).consumed = draft.consumed := rfl

@[simp]
theorem leaves_start (node : OpenNode) : (draft.start node).leaves = draft.leaves := by
  simp [leaves, start, leavesAround, Sketch.leavesAmong]

@[simp]
theorem consumed_start (node : OpenNode) : (draft.start node).consumed = draft.consumed := rfl

theorem leaves_addAll (trees : List Tree) (name : Nat) :
    (draft.addAll name trees).leaves = draft.leaves ++ trees := by
  induction trees generalizing draft name with
  | nil => simp [addAll]
  | cons tree rest ih => simp [addAll, ih]

theorem consumed_addAll (trees : List Tree) (name : Nat) :
    (draft.addAll name trees).consumed = draft.consumed ++ trees := by
  induction trees generalizing draft name with
  | nil => simp [addAll]
  | cons tree rest ih => simp [addAll, ih]

theorem leaves_complete (symbol : Nat) : (draft.complete symbol).leaves = draft.leaves := by
  unfold complete
  cases around : draft.around with
  | nil => rfl
  | cons level rest => simp [leaves, around, leavesAround]

theorem consumed_complete (symbol : Nat) : (draft.complete symbol).consumed = draft.consumed := by
  unfold complete
  cases draft.around <;> rfl

theorem leaves_abandon : draft.abandon.leaves = draft.leaves := by
  unfold abandon
  cases around : draft.around with
  | nil => rfl
  | cons level rest => simp [leaves, around, leavesAround]

theorem consumed_abandon : draft.abandon.consumed = draft.consumed := by
  unfold abandon
  cases draft.around <;> rfl

theorem leaves_precede (node : CompleteNode) (wrapper : OpenNode) :
    (draft.precede node wrapper).leaves = draft.leaves := by
  simp only [leaves, precede, leavesAround]
  rw [List.append_assoc, ← Sketch.leavesAmong_append, List.takeWhile_append_dropWhile]

/-- What a call adds to the leaves it also adds to what was consumed. -/
theorem leaves_after (context : Context) (call : Call) (handle : Handle)
    (same : draft.leaves = draft.consumed) :
    (draft.after context call handle).leaves = (draft.after context call handle).consumed := by
  have added (trees : List Tree) (name : Nat) :
      (draft.addAll name trees).leaves = (draft.addAll name trees).consumed := by
    simp [leaves_addAll, consumed_addAll, same]
  unfold after
  split
  · simpa using same
  · exact (leaves_complete _).trans (same.trans (consumed_complete _).symm)
  · exact leaves_abandon.trans (same.trans consumed_abandon.symm)
  · exact (leaves_precede _ _).trans same
  · exact added _ _
  · exact added _ _
  · simp [same]
  · dsimp only
    split
    · exact added _ _
    · refine (leaves_complete _).trans (Eq.trans ?_ (consumed_complete _).symm)
      simp [leaves_addAll, consumed_addAll, same]
  · split
    · exact same
    · simp [same]
  · exact same
  · exact same
  · exact same

end Draft

theorem Builds.leaves {context : Context} {draft : Draft} (builds : Builds context draft) :
    draft.leaves = draft.consumed := by
  induction builds with
  | begin => rfl
  | call _ _ _ ih => exact Draft.leaves_after _ _ _ ih

end Reparse
