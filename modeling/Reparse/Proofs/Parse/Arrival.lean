import Reparse.Proofs.Parse.Building
import Reparse.Proofs.Parse.Forward

/-!
# Programs that come to an end

A parse is under way (`Underway`) if calls that were made in order have led it to where it is. A
program arrives (`Arrives`) if it comes to an end from there, again with calls made in order, and what
it comes to has a property. Programs that arrive are composed with `Arrives.bind`; the rules for the
calls of the parsing interface say how the open nodes change, which of them have parts, which
complete nodes the program may name afterwards, and when the parse has moved on.

A node that is completed before anything was added to it has no parts and would stand in the tree as
a leaf without text. A draft is filled (`Draft.Filled`) if no complete node of it is like that. Every
call that is made in order keeps a draft filled, but for `complete` while the innermost open node has
no parts yet.
-/

namespace Reparse

/-! ## Nodes that have parts -/

namespace Sketch

mutual

/-- Every complete node has parts. -/
def Filled : Sketch → Prop
  | leaf _ _ => True
  | node _ _ parts => parts ≠ [] ∧ AllFilled parts

def AllFilled : List Sketch → Prop
  | [] => True
  | sketch :: rest => sketch.Filled ∧ AllFilled rest

end

theorem allFilled_iff {parts : List Sketch} :
    AllFilled parts ↔ ∀ sketch ∈ parts, sketch.Filled := by
  induction parts with
  | nil => simp [AllFilled]
  | cons sketch rest ih => rw [AllFilled, ih, List.forall_mem_cons]

theorem allFilled_append {left right : List Sketch} :
    AllFilled (left ++ right) ↔ AllFilled left ∧ AllFilled right := by
  simp only [allFilled_iff, List.forall_mem_append]

theorem AllFilled.of_sublist {parts some : List Sketch} (filled : AllFilled parts)
    (sublist : some.Sublist parts) : AllFilled some := by
  rw [allFilled_iff] at filled ⊢
  intro sketch member
  exact filled sketch (sublist.subset member)

end Sketch

namespace Draft

/-- Every complete node of the draft has parts. -/
structure Filled (draft : Draft) : Prop where
  inner : Sketch.AllFilled draft.inner
  around : ∀ level ∈ draft.around, Sketch.AllFilled level.before

/-- The same nodes are open, the innermost one has parts if it had some before, and so has every
complete node. -/
structure Grows (draft later : Draft) : Prop where
  around_eq : later.around = draft.around
  parts : draft.inner ≠ [] → later.inner ≠ []
  filled : draft.Filled → later.Filled

variable {draft between later : Draft}

theorem filled_empty : Draft.empty.Filled := ⟨trivial, fun _ member => by cases member⟩

namespace Grows

theorem refl : draft.Grows draft := ⟨rfl, id, id⟩

theorem trans (first : draft.Grows between) (second : between.Grows later) : draft.Grows later where
  around_eq := second.around_eq.trans first.around_eq
  parts some := second.parts (first.parts some)
  filled filled := second.filled (first.filled filled)

end Grows

/-! ## What the calls do -/

theorem grows_add (draft : Draft) (name : Nat) (tree : Tree) :
    draft.Grows (draft.add name tree) where
  around_eq := rfl
  parts _ := by simp [add]
  filled filled :=
    ⟨Sketch.allFilled_append.mpr ⟨filled.inner, trivial, trivial⟩, filled.around⟩

theorem grows_addAll (draft : Draft) (name : Nat) (trees : List Tree) :
    draft.Grows (draft.addAll name trees) := by
  induction trees generalizing draft name with
  | nil => exact .refl
  | cons tree rest ih => exact (draft.grows_add name tree).trans (ih _ _)

theorem inner_addAll_ne_nil {name : Nat} {trees : List Tree} (some : trees ≠ []) :
    (draft.addAll name trees).inner ≠ [] := by
  cases trees with
  | nil => exact absurd rfl some
  | cons tree rest =>
      apply (grows_addAll (draft.add name tree) (name + 1) rest).parts
      simp [add]

theorem Filled.start (filled : draft.Filled) (node : OpenNode) : (draft.start node).Filled :=
  ⟨trivial, List.forall_mem_cons.mpr ⟨filled.inner, filled.around⟩⟩

/-- A node is completed around its parts. -/
theorem Filled.complete (filled : draft.Filled) (some : draft.inner ≠ []) (symbol : Nat) :
    (draft.complete symbol).Filled := by
  unfold Draft.complete
  cases around : draft.around with
  | nil => exact filled
  | cons level rest =>
      rcases List.forall_mem_cons.mp (around ▸ filled.around) with ⟨before, outside⟩
      refine ⟨Sketch.allFilled_append.mpr ⟨before, ?_, trivial⟩, outside⟩
      exact ⟨some, filled.inner⟩

theorem Filled.abandon (filled : draft.Filled) : draft.abandon.Filled := by
  unfold Draft.abandon
  cases around : draft.around with
  | nil => exact filled
  | cons level rest =>
      rcases List.forall_mem_cons.mp (around ▸ filled.around) with ⟨before, outside⟩
      exact ⟨Sketch.allFilled_append.mpr ⟨before, filled.inner⟩, outside⟩

theorem Filled.precede (filled : draft.Filled) (node : CompleteNode) (wrapper : OpenNode) :
    (draft.precede node wrapper).Filled where
  inner := filled.inner.of_sublist (List.dropWhile_sublist _)
  around := List.forall_mem_cons.mpr
    ⟨filled.inner.of_sublist (List.takeWhile_sublist _), filled.around⟩

theorem grows_skip (draft : Draft) (name : Nat) (token : Tree) :
    draft.Grows (draft.skip name token) where
  around_eq := rfl
  parts _ := by simp [skip, complete, add, start]
  filled filled := by
    have added := (grows_add _ (name + 1) token).filled (filled.start ⟨name⟩)
    apply added.complete
    simp [add]

end Draft

/-! ## Parses under way -/

open Parsing (run_bind_of_ok)

/-- The node is complete, lies directly in the innermost open one, and its handle was not taken. -/
def Draft.Has (draft : Draft) (node : CompleteNode) : Prop :=
  node ∈ draft.held ∧ ∃ part ∈ draft.inner, part.name = node.place

theorem Draft.Has.addAll {draft : Draft} {node : CompleteNode} (has : draft.Has node) (name : Nat)
    (trees : List Tree) : (draft.addAll name trees).Has node := by
  induction trees generalizing draft name with
  | nil => exact has
  | cons tree rest ih =>
      rcases has with ⟨held, part, member, named⟩
      have grown : (draft.add name tree).Has node :=
        ⟨held, part, List.mem_append_left _ member, named⟩
      exact ih grown _

theorem Draft.Has.inner_ne_nil {draft : Draft} {node : CompleteNode} (has : draft.Has node) :
    draft.inner ≠ [] := by
  rcases has with ⟨_, part, member, _⟩
  exact List.ne_nil_of_mem member

/-- A node of the name was opened last. -/
def Draft.Opens (draft later : Draft) (name : Nat) : Prop :=
  (∃ level, later.around = level :: draft.around ∧ level.name = name) ∧
    (draft.Filled → later.Filled)

/-- The parse has moved on in the text. -/
def Context.Further (text : Text) (context after : Context) : Prop :=
  context.position.bytes < text.size ∧ context.position.bytes < after.position.bytes

theorem Draft.opens_start (draft : Draft) (node : OpenNode) :
    draft.Opens (draft.start node) node.place :=
  ⟨⟨_, rfl, rfl⟩, fun filled => filled.start node⟩

theorem Draft.Opens.grow {draft between later : Draft} {name : Nat}
    (opens : draft.Opens between name) (grows : between.Grows later) : draft.Opens later name := by
  rcases opens with ⟨⟨level, around, named⟩, filled⟩
  exact ⟨⟨level, grows.around_eq.trans around, named⟩, fun before => grows.filled (filled before)⟩

theorem Draft.Opens.of_grows {draft between later : Draft} {name : Nat}
    (opens : between.Opens later name) (grows : draft.Grows between) : draft.Opens later name := by
  rcases opens with ⟨⟨level, around, named⟩, filled⟩
  exact ⟨⟨level, grows.around_eq ▸ around, named⟩, fun before => filled (grows.filled before)⟩

theorem Context.Further.of_le {text : Text} {context between after : Context}
    (further : context.Further text between)
    (le : between.position.bytes ≤ after.position.bytes) : context.Further text after :=
  ⟨further.1, Nat.lt_of_lt_of_le further.2 le⟩

/-- Calls in order have led a parse from its beginning to a state and a draft. -/
structure Underway (begun : Context) (text : Text) (spans : List Span) (context : Context)
    (draft : Draft) : Prop where
  calls : ∃ scans, Calls begun context draft scans
  follows : draft.Follows context
  steady : context.Steady text spans

/-- The program comes to an end, on the way and not further back, with the property. -/
def Arrives {α : Type} (begun : Context) (text : Text) (spans : List Span) (program : Parsing α)
    (context : Context) (post : α → Context → Draft → Prop) : Prop :=
  ∃ value after later, program.run context = .ok (value, after) ∧
    Underway begun text spans after later ∧ context.position.bytes ≤ after.position.bytes ∧
    post value after later

variable {begun context after : Context} {text : Text} {spans : List Span} {draft later : Draft}

namespace Parsing

/-- The record of a parse has no influence on what lies ahead. -/
theorem keepsAhead_record {symbol : Nat} (change : Context → Array Event) :
    Preserves (fun context => context.ahead = symbol)
      (MonadStateOf.modifyGet fun context : Context =>
        ((), { context with events := change context }) : Parsing Unit) :=
  .modify fun _ same => same

theorem ahead_setField {node : CompleteNode} {field : Nat}
    (run : (setField node field).run context = .ok ((), after)) : after.ahead = context.ahead := by
  have keeps : Preserves (fun after => after.ahead = context.ahead) (setField node field) := by
    refine .bind .get fun _ => ?_
    split
    · exact keepsAhead_record _
    · exact keepsAhead_record _
    · exact .fault _
    · exact .fault _
  exact keeps run rfl

theorem ahead_precede {node : CompleteNode} {wrapper : OpenNode}
    (run : (precede node).run context = .ok (wrapper, after)) : after.ahead = context.ahead := by
  have keeps : Preserves (fun after => after.ahead = context.ahead) (precede node) := by
    refine .bind (.bind .get fun _ => .bind (keepsAhead_record _) fun _ => .pure _) fun _ =>
      .bind .get fun _ => ?_
    split
    · exact .bind (keepsAhead_record _) fun _ => .pure _
    · exact .bind (keepsAhead_record _) fun _ => .pure _
    · exact .fault _
    · exact .fault _
  exact keeps run rfl

end Parsing

namespace Arrives

variable {α β : Type} {post : α → Context → Draft → Prop}

theorem pure {value : α} (under : Underway begun text spans context draft)
    (holds : post value context draft) :
    Arrives begun text spans (Pure.pure value : Parsing α) context post :=
  ⟨value, context, draft, rfl, under, Nat.le_refl _, holds⟩

theorem bind {first : Parsing α} {next : α → Parsing β} {aim : β → Context → Draft → Prop}
    (head : Arrives begun text spans first context post)
    (tail : ∀ value between later, Underway begun text spans between later →
      context.position.bytes ≤ between.position.bytes → post value between later →
        Arrives begun text spans (next value) between aim) :
    Arrives begun text spans (first >>= next) context aim := by
  rcases head with ⟨value, between, later, run, under, le, holds⟩
  rcases tail value between later under le holds with
    ⟨result, after, last, rest, reached, further, done⟩
  exact ⟨result, after, last, (run_bind_of_ok run).trans rest, reached, Nat.le_trans le further, done⟩

theorem mono {program : Parsing α} {weaker : α → Context → Draft → Prop}
    (arrives : Arrives begun text spans program context post)
    (weaken : ∀ value after later, context.position.bytes ≤ after.position.bytes →
      post value after later → weaker value after later) :
    Arrives begun text spans program context weaker := by
  rcases arrives with ⟨value, after, later, run, under, le, holds⟩
  exact ⟨value, after, later, run, under, le, weaken value after later le holds⟩

theorem discard {program : Parsing α} {aim : Unit → Context → Draft → Prop}
    (arrives : Arrives begun text spans program context post)
    (weaken : ∀ value after later, post value after later → aim () after later) :
    Arrives begun text spans (Functor.discard program) context aim := by
  rcases arrives with ⟨value, after, later, run, under, le, holds⟩
  exact ⟨(), after, later, Parsing.run_discard_of_ok run, under, le, weaken value after later holds⟩

end Arrives

namespace Underway

/-- A call that is made in order goes on. -/
theorem step (under : Underway begun text spans context draft) {call : Call} {handle : Handle}
    (allowed : draft.Allows call) (run : call.perform.run context = .ok (handle, after)) :
    Underway begun text spans after (draft.after context call handle) ∧
      context.position.bytes ≤ after.position.bytes := by
  rcases under.calls with ⟨scans, calls⟩
  rcases under.steady.call run with ⟨steady, le, _⟩
  refine ⟨⟨⟨_, calls.call allowed run⟩, ?_, steady⟩, le⟩
  rcases under.follows.call allowed with ⟨other, reached, again, kept⟩ | ⟨_, endless⟩
  · rw [run] at again
    cases again
    exact kept
  · rw [run] at endless
    cases endless

/-- A call that is made in order succeeds. -/
theorem exists_call (under : Underway begun text spans context draft) {call : Call}
    (allowed : draft.Allows call) :
    ∃ handle after, call.perform.run context = .ok (handle, after) := by
  rcases under.follows.call allowed with ⟨handle, after, run, _⟩ | ⟨stalled, _⟩
  · exact ⟨handle, after, run⟩
  · rcases under.steady.exists_filled with ⟨filled, filling, _⟩
    rw [stalled] at filling
    cases filling

theorem arrives (under : Underway begun text spans context draft) {α : Type} {program : Parsing α}
    {call : Call} {handle : α → Handle} (perform : call.perform = handle <$> program)
    (allowed : draft.Allows call) :
    Arrives begun text spans program context fun value after later =>
      program.run context = .ok (value, after) ∧
        later = draft.after context call (handle value) := by
  rcases under.exists_call allowed with ⟨result, after, run⟩
  have mapped := run
  rw [perform] at mapped
  rcases Parsing.run_map_ok mapped with ⟨value, inner, rfl⟩
  rcases under.step allowed run with ⟨reached, le⟩
  exact ⟨value, after, _, inner, reached, le, inner, rfl⟩

theorem start (under : Underway begun text spans context draft) :
    Arrives begun text spans Parsing.start context fun node after later =>
      later = draft.start node ∧ after.ahead = context.ahead := by
  refine (@arrives _ _ _ _ _ under _ _ .start _ rfl trivial).mono ?_
  rintro node after later - ⟨run, rfl⟩
  cases run
  exact ⟨rfl, rfl⟩

theorem complete (under : Underway begun text spans context draft) {outer : Draft} {node : OpenNode}
    (opens : outer.Opens draft node.place) (some : draft.inner ≠ []) (symbol : Nat) :
    Arrives begun text spans (Parsing.complete node symbol) context fun done _ later =>
      outer.Grows later ∧ later.Has done := by
  rcases opens with ⟨⟨level, around, named⟩, filled⟩
  obtain rfl : node = ⟨level.name⟩ := by simp [named]
  refine (@arrives _ _ _ _ _ under _ _ (.complete ⟨level.name⟩ symbol) _ rfl
    ⟨level, _, around, rfl⟩).mono ?_
  rintro done after later - ⟨run, rfl⟩
  rcases under.follows.complete_innermost around symbol with ⟨other, completed, _⟩
  rw [run] at completed
  cases completed
  have has : ((draft.complete symbol).hold ⟨level.name⟩).Has ⟨level.name⟩ := by
    refine ⟨List.mem_cons_self, ?_⟩
    simp [Draft.complete, Draft.hold, around, Sketch.name]
  refine ⟨⟨Calls.around_complete around symbol, fun _ => has.inner_ne_nil, fun before => ?_⟩, has⟩
  have closed := (filled before).complete some symbol
  exact ⟨closed.inner, closed.around⟩

/-- A node that was just opened is given up. -/
theorem abandon {node : OpenNode} (under : Underway begun text spans context (draft.start node)) :
    Arrives begun text spans (Parsing.abandon node) context fun _ _ later =>
      draft.Grows later := by
  refine (@arrives _ _ _ _ _ under _ _ (.abandon node) _ rfl ⟨_, _, rfl, rfl, rfl⟩).mono ?_
  rintro _ after later - ⟨_, rfl⟩
  refine ⟨rfl, fun some => ?_, fun filled => (filled.start node).abandon⟩
  simpa [Draft.after, Draft.abandon, Draft.start] using some

theorem precede (under : Underway begun text spans context draft) {node : CompleteNode}
    (has : draft.Has node) :
    Arrives begun text spans (Parsing.precede node) context fun wrapper after later =>
      draft.Opens later wrapper.place ∧ later.inner ≠ [] ∧ after.ahead = context.ahead := by
  refine (@arrives _ _ _ _ _ under _ _ (.precede node) _ rfl has).mono ?_
  rintro wrapper after later - ⟨run, rfl⟩
  refine ⟨⟨⟨_, rfl, rfl⟩, fun filled => filled.precede node wrapper⟩, ?_, Parsing.ahead_precede run⟩
  rcases Draft.exists_dropWhile has.2 with ⟨sketch, rest, same, _⟩
  rw [Draft.after, Draft.precede, same]
  exact List.cons_ne_nil _ _

theorem setField (under : Underway begun text spans context draft) {node : CompleteNode}
    (has : draft.Has node) (field : Nat) :
    Arrives begun text spans (Parsing.setField node field) context fun _ after later =>
      draft.Grows later ∧ later.Has node ∧ after.ahead = context.ahead := by
  refine (@arrives _ _ _ _ _ under _ _ (.setField node field) _ rfl has.1).mono ?_
  rintro _ after later - ⟨run, rfl⟩
  have grows : draft.Grows (draft.setField node field) :=
    ⟨rfl, id, fun filled => ⟨filled.inner, filled.around⟩⟩
  exact ⟨grows, has, Parsing.ahead_setField run⟩

theorem setState (under : Underway begun text spans context draft) {node : CompleteNode}
    (has : draft.Has node) (state : Nat) :
    Arrives begun text spans (Parsing.setState node state) context fun _ _ later =>
      draft.Grows later ∧ later.Has node := by
  refine (@arrives _ _ _ _ _ under _ _ (.setState node state) _ rfl has.1).mono ?_
  rintro _ after later - ⟨_, rfl⟩
  exact ⟨⟨rfl, id, fun filled => ⟨filled.inner, filled.around⟩⟩, has⟩

theorem missing (under : Underway begun text spans context draft) (symbol : Nat) :
    Arrives begun text spans (Parsing.missing symbol) context fun _ _ later =>
      draft.Grows later ∧ later.inner ≠ [] := by
  refine (@arrives _ _ _ _ _ under _ _ (.missing symbol) _ rfl trivial).mono ?_
  rintro _ after later - ⟨_, rfl⟩
  refine ⟨draft.grows_add _ _, ?_⟩
  simp [Draft.after, Draft.add]

/-! ## Calls that move on -/

theorem peek (under : Underway begun text spans context draft) :
    Arrives begun text spans Parsing.peek context fun symbol after later =>
      draft.Grows later ∧ (∀ node, draft.Has node → later.Has node) ∧
        after.ahead = symbol ∧ (symbol = endSymbol → after.Ended) ∧
        (context.Ended → symbol = endSymbol) := by
  refine (@arrives _ _ _ _ _ under _ _ .peek _ rfl trivial).mono ?_
  rintro symbol after later - ⟨run, rfl⟩
  rcases under.steady.exists_filled with ⟨filled, filling, _⟩
  rw [Parsing.run_peek filling] at run
  cases run
  refine ⟨draft.grows_addAll _ _, fun node has => has.addAll _ _, rfl,
    Context.ended_of_fill filling, fun ended => ?_⟩
  rw [ended.fill_eq, Option.some.injEq] at filling
  exact filling ▸ ended.ahead_eq

theorem bump (under : Underway begun text spans context draft) :
    Arrives begun text spans Parsing.bump context fun _ after later =>
      draft.Grows later ∧
        (context.ahead ≠ endSymbol → context.Further text after ∧ later.inner ≠ []) := by
  refine (@arrives _ _ _ _ _ under _ _ .bump _ rfl trivial).mono ?_
  rintro _ after later - ⟨run, rfl⟩
  refine ⟨draft.grows_addAll _ _, fun more => ⟨under.steady.further_of_bump more run, ?_⟩⟩
  rcases Parsing.lookahead_of_ahead more with ⟨token, ahead⟩
  have next := Context.nextToken_of_token (Parsing.fill_of_lookahead ahead) more
  apply Draft.inner_addAll_ne_nil
  rw [next, ahead]
  simp

theorem skipToken (under : Underway begun text spans context draft) :
    Arrives begun text spans Parsing.skipToken context fun _ after later =>
      draft.Grows later ∧ (after.Ended ∨ context.Further text after) := by
  refine (@arrives _ _ _ _ _ under _ _ .skipToken _ rfl trivial).mono ?_
  rintro _ after later - ⟨run, rfl⟩
  refine ⟨?_, (under.steady.consumes (Parsing.consumes_skipToken run)).2.2⟩
  have seen := draft.grows_addAll context.events.size context.extras
  simp only [Draft.after]
  split
  · exact seen
  · exact seen.trans (Draft.grows_skip _ _ _)

theorem reuse (under : Underway begun text spans context draft) (state : Nat) :
    Arrives begun text spans (Parsing.reuse state) context fun found after later =>
      draft.Grows later ∧
        ∀ node, found = some node → later.Has node ∧ context.Further text after := by
  refine (@arrives _ _ _ _ _ under _ _ (.reuse state) _ rfl trivial).mono ?_
  rintro found after later - ⟨run, rfl⟩
  rcases Parsing.run_reuse_ok run with ⟨rfl, _⟩ | ⟨tree, _, rfl, reusable, _⟩
  · exact ⟨.refl, fun node same => by cases same⟩
  · have taken : draft.after context (.reuse state)
        (Option.elim (some ⟨context.events.size⟩) Handle.none Handle.completed) =
          (draft.add context.events.size tree).hold ⟨context.events.size⟩ := by
      simp [Draft.after, reusable]
    have grows := draft.grows_add context.events.size tree
    rw [taken]
    refine ⟨⟨rfl, grows.parts, fun filled => ⟨(grows.filled filled).inner, filled.around⟩⟩, ?_⟩
    rintro node ⟨⟩
    refine ⟨⟨List.mem_cons_self, .leaf context.events.size tree, ?_, rfl⟩,
      under.steady.text_eq ▸ Parsing.lt_of_reuse run⟩
    exact List.mem_append_right _ (List.mem_singleton_self _)

theorem at? (under : Underway begun text spans context draft) (symbol : Nat) :
    Arrives begun text spans (Parsing.at? symbol) context fun answer after later =>
      draft.Grows later ∧ (∀ node, draft.Has node → later.Has node) ∧
        (answer = true ↔ after.ahead = symbol) ∧ (after.ahead = endSymbol → after.Ended) ∧
        (context.Ended → after.ahead = endSymbol) := by
  refine under.peek.bind fun found between later reached _ ⟨grows, has, same, ended, again⟩ => ?_
  refine .pure reached ⟨grows, has, ?_, ?_, ?_⟩
  · rw [same, beq_iff_eq]
  · rw [same]
    exact ended
  · rw [same]
    exact again

theorem expect (under : Underway begun text spans context draft) (symbol : Nat) :
    Arrives begun text spans (Parsing.expect symbol) context fun _ _ later =>
      draft.Grows later := by
  have ate : Arrives begun text spans (Parsing.eat symbol) context fun _ _ later =>
      draft.Grows later := by
    refine (under.at? symbol).bind fun found between later reached _ ⟨grows, _⟩ => ?_
    cases found with
    | true =>
        exact reached.bump.bind fun _ _ _ reached _ ⟨more, _⟩ => .pure reached (grows.trans more)
    | false => exact .pure reached grows
  refine ate.bind fun found between later reached _ grows => ?_
  cases found with
  | true => exact .pure reached grows
  | false =>
      exact (reached.missing symbol).bind fun _ _ _ reached _ ⟨more, _⟩ =>
        .pure reached (grows.trans more)

end Underway

/-! ## Loops up to the end of the input -/

/-- A loop that consumes a token in every turn has enough turns: more than there are bytes left, or
any if nothing lies ahead. -/
def Context.EndsWithin (text : Text) (context : Context) (turns : Nat) : Prop :=
  text.size - context.position.bytes < turns ∨ context.Ended ∧ 0 < turns

/-- A turn of the loop that has looked ahead and then has consumed a token. -/
theorem Context.EndsWithin.next {between : Context} {turns : Nat}
    (enough : context.EndsWithin text (turns + 1)) (running : ¬context.Ended)
    (le : context.position.bytes ≤ between.position.bytes)
    (inside : between.position.bytes < text.size)
    (moved : after.Ended ∨ between.Further text after) : after.EndsWithin text turns := by
  rcases enough with enough | ⟨ended, _⟩
  · rcases moved with ended | ⟨_, further⟩
    · exact Or.inr ⟨ended, by omega⟩
    · exact Or.inl (by omega)
  · exact absurd ended running

/-- The budget is enough for every loop. -/
theorem Context.Steady.endsWithin_budget (steady : context.Steady text spans) :
    context.EndsWithin text context.budget := by
  left
  rw [Context.budget, steady.text_eq]
  omega

theorem Underway.skipRest {turns : Nat} (under : Underway begun text spans context draft)
    (enough : context.EndsWithin text turns) :
    Arrives begun text spans (Parsing.skipRest turns) context fun _ after later =>
      later.around = draft.around ∧ (draft.Filled → later.Filled) ∧ after.Ended := by
  induction turns generalizing context draft with
  | zero => rcases enough with none | ⟨_, none⟩ <;> omega
  | succ turns ih =>
      rw [Parsing.skipRest]
      refine (under.at? endSymbol).bind fun answer between later reached le looked => ?_
      rcases looked with ⟨grows, _, final, ended, again⟩
      cases answer with
      | true => exact .pure reached ⟨grows.around_eq, grows.filled, ended (final.mp rfl)⟩
      | false =>
          have more : between.ahead ≠ endSymbol := fun ends => by cases final.mpr ends
          rcases reached.steady.exists_ahead more with ⟨_, _, _, inside⟩
          refine reached.skipToken.bind fun _ after _ reached _ skipped => ?_
          rcases skipped with ⟨skips, moved⟩
          have onward := enough.next (fun ended => more (again ended)) le inside moved
          have so := grows.trans skips
          refine (ih reached onward).mono fun _ _ _ _ rest => ?_
          rcases rest with ⟨around, filled, ended⟩
          exact ⟨around.trans so.around_eq, fun before => filled (so.filled before), ended⟩

end Reparse
