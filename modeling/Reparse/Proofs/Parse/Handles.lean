import Reparse.Proofs.Parse.Balance
import Reparse.Proofs.Parse.Spread

/-!
# Runs that keep to their handles

A grammar gets a handle for every node it opens and another one when it completes the node. It has
kept to its handles (`Handled`) if it completed and gave up only nodes that it had opened and neither
completed nor given up before, and changed only complete nodes that it had been given. Nothing is
asked about the order in which nodes are completed, nor that all of them are, nor about the symbols
that the scanner finds.

A grammar that makes its calls in order keeps to its handles (`Calls.handled`). The nodes it was given
stand in the record as they should (`Handles.Fit`), which stays balanced: a node that is given up takes
nothing with it but its own opening.
-/

namespace Reparse

/-- The nodes that a grammar was given: those that are open, and those that are complete. -/
structure Handles where
  opened : List OpenNode
  complete : List CompleteNode

namespace Handles

def empty : Handles := ⟨[], []⟩

/-- The call is made on nodes that were given. -/
def Allows (handles : Handles) : Call → Prop
  | .complete node _ => node ∈ handles.opened
  | .abandon node => node ∈ handles.opened
  | .precede node => node ∈ handles.complete
  | .setField node _ => node ∈ handles.complete
  | .setState node _ => node ∈ handles.complete
  | _ => True

/-- An open node that is completed or given up is open no longer. -/
def spend (handles : Handles) : Call → Handles
  | .complete node _ => { handles with opened := handles.opened.erase node }
  | .abandon node => { handles with opened := handles.opened.erase node }
  | _ => handles

/-- The call answered with a handle. -/
def gain (handles : Handles) : Handle → Handles
  | .none => handles
  | .opened node => { handles with opened := node :: handles.opened }
  | .completed node => { handles with complete := node :: handles.complete }

end Handles

/-- From one state of a parse, calls on nodes that were given lead to another. -/
inductive Handled (begun : Context) : Context → Handles → Prop where
  | begin : Handled begun begun Handles.empty
  | remark {context : Context} {handles : Handles} (handled : Handled begun context handles)
      (remark : Remark) :
      Handled begun { context with remarks := remark :: context.remarks } handles
  | call {context after : Context} {handles : Handles} {call : Call} {handle : Handle}
      (handled : Handled begun context handles) (allowed : handles.Allows call)
      (run : call.perform.run context = .ok (handle, after)) :
      Handled begun after ((handles.spend call).gain handle)

/-- Every run of a grammar from a state keeps to its handles. -/
def Parsing.KeepsHandles (grammar : Parsing Unit) (begun : Context) : Prop :=
  ∀ after, grammar.run begun = .ok ((), after) → ∃ handles, Handled begun after handles

/-! ## The record -/

namespace Event

/-- The event stands for a node that is complete. -/
def IsComplete : Event → Prop
  | opening symbol _ _ _ => symbol.isSome = true
  | added _ _ _ => True
  | closing => False

/-- Two events for the same node, which may differ in its tags. -/
structure Alike (event other : Event) : Prop where
  weight_eq : other.weight = event.weight
  tree_eq : other.tree? = event.tree?
  complete : event.IsComplete → other.IsComplete
  pending : ∀ wrapper field state, event = opening none wrapper field state →
    ∃ wrapper field state, other = opening none wrapper field state

theorem alike_opening (symbol wrapper other : Option Nat) (field state otherField otherState : Nat) :
    (opening symbol wrapper field state).Alike (opening symbol other otherField otherState) where
  weight_eq := by cases symbol <;> rfl
  tree_eq := rfl
  complete := id
  pending _ _ _ same := by
    cases same
    exact ⟨_, _, _, rfl⟩

theorem alike_added (tree : Tree) (wrapper other : Option Nat) (field otherField : Nat) :
    (added tree wrapper field).Alike (added tree other otherField) where
  weight_eq := rfl
  tree_eq := rfl
  complete := id
  pending _ _ _ same := by cases same

theorem alike_withField (event : Event) (field : Nat) : event.Alike (event.withField field) := by
  cases event with
  | opening => exact alike_opening _ _ _ _ _ _ _
  | added => exact alike_added _ _ _ _ _
  | closing => exact ⟨rfl, rfl, id, nofun⟩

theorem alike_withState (event : Event) (state : Nat) : event.Alike (event.withState state) := by
  cases event with
  | opening => exact alike_opening _ _ _ _ _ _ _
  | added => exact alike_added _ _ _ _ _
  | closing => exact ⟨rfl, rfl, id, nofun⟩

theorem alike_withWrapper (event : Event) (wrapper : Option Nat) :
    event.Alike (event.withWrapper wrapper) := by
  cases event with
  | opening => exact alike_opening _ _ _ _ _ _ _
  | added => exact alike_added _ _ _ _ _
  | closing => exact ⟨rfl, rfl, id, nofun⟩

theorem wrapper_withField (event : Event) (field : Nat) :
    (event.withField field).wrapper? = event.wrapper? := by
  cases event <;> rfl

theorem wrapper_withState (event : Event) (state : Nat) :
    (event.withState state).wrapper? = event.wrapper? := by
  cases event <;> rfl

theorem wrapper_withWrapper {event : Event} (solid : event ≠ closing) (wrapper : Option Nat) :
    (event.withWrapper wrapper).wrapper? = wrapper := by
  cases event with
  | opening | added => rfl
  | closing => exact absurd rfl solid

theorem ne_closing_of_wrapper {event : Event} {distance : Nat}
    (own : event.wrapper? = some distance) : event ≠ closing := by
  rintro rfl
  cases own

theorem IsComplete.ne_closing {event : Event} (complete : event.IsComplete) : event ≠ closing := by
  rintro rfl
  exact complete

theorem IsComplete.withWrapper {event : Event} (complete : event.IsComplete)
    (wrapper : Option Nat) : (event.withWrapper wrapper).IsComplete :=
  (alike_withWrapper event wrapper).complete complete

end Event

namespace Handles

open Event (Balanced found_push getElem?_set_of_found)

/-- The record is balanced, and the nodes that were given stand in it as they should: each open one
has an opening of its own. -/
structure Fit (handles : Handles) (events : Array Event) : Prop where
  balanced : Balanced events
  opened : ∀ node ∈ handles.opened, ∃ wrapper field state,
    events[node.place]? = some (.opening none wrapper field state)
  apart : handles.opened.Nodup
  complete : ∀ node ∈ handles.complete, ∃ event,
    events[node.place]? = some event ∧ event.IsComplete

variable {handles : Handles} {events : Array Event} {event other : Event} {place : Nat}

theorem fit_empty : empty.Fit #[] where
  balanced := ⟨fun index => by simp [Event.spare, Event.weightOf], by simp⟩
  opened := by simp [empty]
  apart := List.nodup_nil
  complete := by simp [empty]

namespace Fit

/-- What stands in the record stays there. -/
theorem push (fit : handles.Fit events) (light : 0 ≤ event.weight)
    (plain : event.wrapper? = none) : handles.Fit (events.push event) where
  balanced := fit.balanced.push light plain
  opened node member := by
    rcases fit.opened node member with ⟨wrapper, field, state, found⟩
    exact ⟨wrapper, field, state, found_push found⟩
  apart := fit.apart
  complete node member := by
    rcases fit.complete node member with ⟨event, found, complete⟩
    exact ⟨event, found_push found, complete⟩

/-- The tags of a node may be changed. -/
theorem set (fit : handles.Fit events) (found : events[place]? = some event)
    (alike : event.Alike other)
    (onward : ∀ distance, other.wrapper? = some distance → 0 < distance) :
    handles.Fit (events.setIfInBounds place other) where
  balanced := fit.balanced.set found (Int.le_of_eq alike.weight_eq.symm) onward
  opened node member := by
    rcases fit.opened node member with ⟨wrapper, field, state, there⟩
    by_cases here : place = node.place
    · subst here
      rw [there, Option.some.injEq] at found
      rcases alike.pending _ _ _ found.symm with ⟨wrapper, field, state, rfl⟩
      exact ⟨wrapper, field, state, getElem?_set_of_found there⟩
    · exact ⟨wrapper, field, state, by rw [Array.getElem?_setIfInBounds_ne here, there]⟩
  apart := fit.apart
  complete node member := by
    rcases fit.complete node member with ⟨event, there, complete⟩
    by_cases here : place = node.place
    · subst here
      rw [there, Option.some.injEq] at found
      exact ⟨other, getElem?_set_of_found there, alike.complete (found ▸ complete)⟩
    · exact ⟨event, by rw [Array.getElem?_setIfInBounds_ne here, there], complete⟩

/-- A node is opened at the end of the record. -/
theorem start (fit : handles.Fit events) :
    (handles.gain (.opened ⟨events.size⟩)).Fit (events.push Event.blank) where
  balanced := fit.balanced.push (by decide) rfl
  opened node member := by
    rcases List.mem_cons.mp member with rfl | before
    · exact ⟨none, 0, noState, Array.getElem?_push_size⟩
    · exact (fit.push (by decide) rfl).opened node before
  apart := by
    refine List.nodup_cons.mpr ⟨fun before => ?_, fit.apart⟩
    rcases fit.opened _ before with ⟨_, _, _, found⟩
    exact absurd (Array.getElem?_eq_some_iff.mp found).1 (Nat.lt_irrefl _)
  complete := (fit.push (by decide) rfl).complete

/-- A tree is added at the end of the record, and stands there for a complete node. -/
theorem added (fit : handles.Fit events) (tree : Tree) :
    (handles.gain (.completed ⟨events.size⟩)).Fit (events.push (.added tree none 0)) := by
  have pushed : handles.Fit (events.push (.added tree none 0)) := fit.push (Int.le_refl 0) rfl
  refine ⟨pushed.balanced, pushed.opened, pushed.apart, fun node member => ?_⟩
  rcases List.mem_cons.mp member with rfl | before
  · exact ⟨_, Array.getElem?_push_size, trivial⟩
  · exact pushed.complete node before

/-- The other open nodes stand elsewhere. -/
theorem ne_of_erase (fit : handles.Fit events) {node next : OpenNode}
    (member : next ∈ handles.opened.erase node) : next ∈ handles.opened ∧ node.place ≠ next.place := by
  rcases (fit.apart.mem_erase_iff).mp member with ⟨distinct, before⟩
  refine ⟨before, fun same => distinct ?_⟩
  cases node
  cases next
  exact congrArg OpenNode.mk same.symm

/-- An open node is completed. -/
theorem completed (fit : handles.Fit events) {node : OpenNode} {old wrapper : Option Nat}
    {field state : Nat} (found : events[node.place]? = some (.opening old wrapper field state))
    (symbol : Nat) :
    (((handles.spend (.complete node symbol)).gain (.completed ⟨node.place⟩)).Fit
      ((events.setIfInBounds node.place (.opening (some symbol) wrapper field state)).push
        .closing)) where
  balanced := fit.balanced.complete found symbol
  opened next member := by
    rcases fit.ne_of_erase member with ⟨before, elsewhere⟩
    rcases fit.opened next before with ⟨wrapper, field, state, there⟩
    exact ⟨wrapper, field, state,
      found_push (by rw [Array.getElem?_setIfInBounds_ne elsewhere, there])⟩
  apart := fit.apart.erase node
  complete next member := by
    have there : (events.setIfInBounds node.place
        (.opening (some symbol) wrapper field state))[node.place]? =
          some (.opening (some symbol) wrapper field state) :=
      getElem?_set_of_found found
    rcases List.mem_cons.mp member with rfl | before
    · exact ⟨_, found_push there, rfl⟩
    · rcases fit.complete next before with ⟨event, stands, complete⟩
      by_cases here : node.place = next.place
      · refine ⟨.opening (some symbol) wrapper field state, found_push ?_, rfl⟩
        rw [← here]
        exact there
      · exact ⟨event, found_push (by rw [Array.getElem?_setIfInBounds_ne here, stands]), complete⟩

/-- An open node is given up. Its opening stays, if something was added behind it. -/
theorem abandon (fit : handles.Fit events) {node : OpenNode} (held : node ∈ handles.opened) :
    (handles.spend (.abandon node)).Fit
      (if node.place + 1 = events.size then events.pop else events) where
  balanced := by
    split
    · rename_i last
      rcases fit.opened node held with ⟨wrapper, field, state, found⟩
      have final : events[events.size - 1]? = some (.opening none wrapper field state) := by
        rw [← last]
        exact found
      rcases Event.exists_push_of_last final with ⟨front, rfl⟩
      rw [Array.pop_push]
      exact fit.balanced.pop rfl
    · exact fit.balanced
  opened next member := by
    rcases fit.ne_of_erase member with ⟨before, elsewhere⟩
    rcases fit.opened next before with ⟨wrapper, field, state, there⟩
    have inside := (Array.getElem?_eq_some_iff.mp there).1
    refine ⟨wrapper, field, state, ?_⟩
    split
    · rw [Array.getElem?_pop, if_pos (by omega), there]
    · exact there
  apart := fit.apart.erase node
  complete next member := by
    rcases fit.opened node held with ⟨wrapper, field, state, found⟩
    rcases fit.complete next member with ⟨event, there, complete⟩
    have inside := (Array.getElem?_eq_some_iff.mp there).1
    have elsewhere : node.place ≠ next.place := by
      intro same
      rw [same, there, Option.some.injEq] at found
      rw [found] at complete
      cases complete
    refine ⟨event, ?_, complete⟩
    split
    · rw [Array.getElem?_pop, if_pos (by omega), there]
    · exact there

end Fit

end Handles

variable {begun context : Context} {handles : Handles}

/-- A call keeps what every operation of the interface keeps. -/
theorem Call.preserves {invariant : Context → Prop}
    (operations : Parsing.OperationsPreserve invariant) (call : Call) :
    Parsing.Preserves invariant call.perform := by
  have mapped {α : Type} {program : Parsing α} {change : α → Handle}
      (keeps : Parsing.Preserves invariant program) :
      Parsing.Preserves invariant (change <$> program) := by
    intro context handle after run holds
    rcases Parsing.run_map_ok run with ⟨_, inner, _⟩
    exact keeps inner holds
  cases call with
  | start => exact mapped operations.start
  | complete node symbol => exact mapped (operations.complete node symbol)
  | abandon node => exact mapped (operations.abandon node)
  | precede node => exact mapped (operations.precede node)
  | peek => exact mapped operations.peek
  | bump => exact mapped operations.bump
  | missing symbol => exact mapped (operations.missing symbol)
  | skipToken => exact mapped operations.skipToken
  | reuse state => exact mapped (operations.reuse state)
  | setField node field => exact mapped (operations.setField node field)
  | setState node state => exact mapped (operations.setState node state)

/-- A run that keeps to its handles keeps what every operation of the interface keeps. -/
theorem Handled.preserves {invariant : Context → Prop}
    (operations : Parsing.OperationsPreserve invariant) (handled : Handled begun context handles)
    (start : invariant begun) : invariant context := by
  induction handled with
  | begin => exact start
  | remark _ remark ih => exact operations.remark remark rfl ih
  | call _ _ run ih => exact Call.preserves operations _ run ih

/-! ## Calls in order -/

namespace Draft

theorem held_addAll (draft : Draft) (name : Nat) (trees : List Tree) :
    (draft.addAll name trees).held = draft.held := by
  induction trees generalizing draft name with
  | nil => rfl
  | cons tree rest ih => exact ih _ _

theorem held_complete (draft : Draft) (symbol : Nat) : (draft.complete symbol).held = draft.held := by
  unfold complete
  split <;> rfl

theorem held_abandon (draft : Draft) : draft.abandon.held = draft.held := by
  unfold abandon
  split <;> rfl

theorem held_skipToken (draft : Draft) (context : Context) (handle : Handle) :
    (draft.after context .skipToken handle).held = draft.held := by
  simp only [Draft.after]
  split
  · exact held_addAll _ _ _
  · rw [skip, held_complete]
    exact held_addAll _ _ _

/-- The handles of the nodes that are open in a draft. -/
def openNodes (draft : Draft) : List OpenNode := draft.around.map fun level => ⟨level.name⟩

/-- The nodes of a draft are known by handle: the open ones are all that are open, and the complete
ones that can still be changed were given. -/
structure Known (draft : Draft) (handles : Handles) : Prop where
  opened : handles.opened = draft.openNodes
  held : draft.held ⊆ handles.complete

namespace Known

variable {draft later : Draft} {call : Call} {handle : Handle}

theorem known_empty : Draft.empty.Known Handles.empty := ⟨rfl, List.Subset.refl _⟩

/-- The innermost open node is the one that was given last. -/
theorem innermost (known : draft.Known handles) {node : OpenNode} {level : Level}
    {rest : List Level} (around : draft.around = level :: rest) (named : level.name = node.place) :
    handles.opened = node :: rest.map fun level => ⟨level.name⟩ := by
  rw [known.opened, openNodes, around, List.map_cons, named]

/-- No node is opened or completed. -/
theorem still (known : draft.Known handles) (around : later.around = draft.around)
    (held : later.held = draft.held) : later.Known handles where
  opened := by rw [known.opened, openNodes, openNodes, around]
  held := by
    rw [held]
    exact known.held

theorem addAll (known : draft.Known handles) (name : Nat) (trees : List Tree) :
    (draft.addAll name trees).Known handles :=
  known.still (Calls.around_addAll _ _ _) (held_addAll _ _ _)

/-- A node that is complete is held. -/
theorem hold (known : draft.Known handles) (node : CompleteNode) :
    (draft.hold node).Known (handles.gain (.completed node)) where
  opened := known.opened
  held := List.cons_subset_cons _ known.held

/-- The innermost open node is completed. -/
theorem complete (known : draft.Known handles) {node : OpenNode} {symbol : Nat}
    (allowed : draft.Allows (.complete node symbol)) :
    (draft.complete symbol).Known (handles.spend (.complete node symbol)) := by
  rcases allowed with ⟨level, rest, around, named⟩
  constructor
  · rw [Handles.spend, known.innermost around named, List.erase_cons_head, openNodes,
      Calls.around_complete around]
  · rw [held_complete]
    exact known.held

/-- The innermost open node is given up. -/
theorem abandon (known : draft.Known handles) {node : OpenNode}
    (allowed : draft.Allows (.abandon node)) :
    draft.abandon.Known (handles.spend (.abandon node)) := by
  rcases allowed with ⟨level, rest, around, named, _⟩
  constructor
  · rw [Handles.spend, known.innermost around named, List.erase_cons_head, openNodes,
      Draft.abandon, around]
  · rw [held_abandon]
    exact known.held

/-- A call that is made in order is made on nodes that were given. -/
theorem allows (known : draft.Known handles) (allowed : draft.Allows call) :
    handles.Allows call := by
  cases call with
  | complete node symbol =>
      rcases allowed with ⟨level, rest, around, named⟩
      rw [Handles.Allows, known.innermost around named]
      exact List.mem_cons_self
  | abandon node =>
      rcases allowed with ⟨level, rest, around, named, _⟩
      rw [Handles.Allows, known.innermost around named]
      exact List.mem_cons_self
  | precede node => exact known.held allowed.1
  | setField node field => exact known.held allowed
  | setState node state => exact known.held allowed
  | start | peek | bump | missing _ | skipToken | reuse _ => trivial

/-- A call in order leaves the nodes of the draft known. -/
theorem after {context after : Context} (known : draft.Known handles) (allowed : draft.Allows call)
    (run : call.perform.run context = .ok (handle, after)) :
    (draft.after context call handle).Known ((handles.spend call).gain handle) := by
  cases call with
  | start =>
      rcases Parsing.run_map_ok run with ⟨node, _, rfl⟩
      exact ⟨congrArg (node :: ·) known.opened, known.held⟩
  | complete node symbol =>
      rcases Parsing.run_map_ok run with ⟨done, _, rfl⟩
      exact (known.complete allowed).hold done
  | abandon node =>
      rcases Parsing.run_map_ok run with ⟨_, _, rfl⟩
      exact known.abandon allowed
  | precede node =>
      rcases Parsing.run_map_ok run with ⟨wrapper, _, rfl⟩
      exact ⟨congrArg (wrapper :: ·) known.opened,
        fun other member => known.held (List.mem_filter.mp member).1⟩
  | peek =>
      rcases Parsing.run_map_ok run with ⟨_, _, rfl⟩
      exact known.addAll _ _
  | bump =>
      rcases Parsing.run_map_ok run with ⟨_, _, rfl⟩
      exact known.addAll _ _
  | missing symbol =>
      rcases Parsing.run_map_ok run with ⟨_, _, rfl⟩
      exact ⟨known.opened, known.held⟩
  | skipToken =>
      rcases Parsing.run_map_ok run with ⟨_, _, rfl⟩
      exact known.still (Calls.around_skipToken _ _ _) (held_skipToken _ _ _)
  | reuse state =>
      rcases Parsing.run_map_ok run with ⟨found, inner, rfl⟩
      rcases Parsing.run_reuse_ok inner with ⟨rfl, _⟩ | ⟨tree, _, rfl, reusable, _⟩
      · exact known
      · have added : draft.after context (.reuse state) (.completed ⟨context.events.size⟩) =
            (draft.add context.events.size tree).hold ⟨context.events.size⟩ := by
          simp only [Draft.after, reusable]
        have kept : (draft.add context.events.size tree).Known handles := known.still rfl rfl
        rw [Option.elim_some, added]
        exact kept.hold _
  | setField node field =>
      rcases Parsing.run_map_ok run with ⟨_, _, rfl⟩
      exact ⟨known.opened, known.held⟩
  | setState node state =>
      rcases Parsing.run_map_ok run with ⟨_, _, rfl⟩
      exact ⟨known.opened, known.held⟩

end Known

end Draft

/-- Calls that are made in order keep to their handles. -/
theorem Calls.handled {draft : Draft} {scans : List Scan} (calls : Calls begun context draft scans) :
    ∃ handles, Handled begun context handles ∧ draft.Known handles := by
  induction calls with
  | begin => exact ⟨Handles.empty, .begin, Draft.Known.known_empty⟩
  | remark _ remark ih =>
      rcases ih with ⟨handles, handled, known⟩
      exact ⟨handles, handled.remark remark, known⟩
  | call _ allowed run ih =>
      rcases ih with ⟨handles, handled, known⟩
      exact ⟨_, handled.call (known.allows allowed) run, known.after allowed run⟩

end Reparse
