import Mathlib.Data.List.GetD
import Reparse.Proofs.Parse.Additions

/-!
# Calls that name nodes by number

The same calls can be made to two parses if they name a node by the number that it has among all
nodes that were given, and not by its place in the record. A parse with the nodes that were given in
it is a stage. Calls lead from one stage to another (`Stage.Leads`) if they are made on nodes that
were given, no node that is given up takes away an opening in which another one is to be wrapped,
and they end.

In a stage that a fresh parse was led to, all wrappers are openings, and the nodes that were given
stand in the record as they should (`Stage.Sound`). What a call does there is told in a way that
holds for other records too (`Stage.Effect`).
-/

namespace Reparse

open Event (Linked Plain Wraps blank closing opening found_push getElem?_append_of_found
  getElem?_set_of_found plain_singleton withWrapper)

/-! ## Handles and calls -/

namespace Handle

/-- The place that the handle names. -/
def place? : Handle → Option Nat
  | none => .none
  | opened node => some node.place
  | completed node => some node.place

/-- A handle of the same kind, with another name. -/
def named (name : Nat) : Handle → Handle
  | none => none
  | opened _ => opened ⟨name⟩
  | completed _ => completed ⟨name⟩

/-- The node that the handle names stands among the events. -/
def Stands (events : Array Event) : Handle → Prop
  | none => True
  | opened node => events[node.place]? = some blank
  | completed node => ∃ event, events[node.place]? = some event ∧ event.IsComplete

/-- The handle names the first of the events that were added behind so many others, and it stands
for an open node or a complete one. -/
def Fits (size : Nat) (added : Array Event) : Handle → Prop
  | none => True
  | opened node => node.place = size ∧ added[0]? = some blank
  | completed node => node.place = size ∧ ∃ event, added[0]? = some event ∧ event.IsComplete

end Handle

namespace Call

/-- The call on the nodes at the places of those that it names. -/
def via (place : Nat → Nat) : Call → Call
  | complete node symbol => complete ⟨place node.place⟩ symbol
  | abandon node => abandon ⟨place node.place⟩
  | precede node => precede ⟨place node.place⟩
  | setField node field => setField ⟨place node.place⟩ field
  | setState node state => setState ⟨place node.place⟩ state
  | start => start
  | peek => peek
  | bump => bump
  | missing symbol => missing symbol
  | skipToken => skipToken
  | reuse state => reuse state

/-- The call names no node, and only adds to the record. -/
def IsAdding : Call → Prop
  | start | peek | bump | missing _ | skipToken | reuse _ => True
  | _ => False

variable {call : Call} {context after : Context} {handle : Handle}

theorem IsAdding.via (adding : call.IsAdding) (place : Nat → Nat) : call.via place = call := by
  cases call with
  | start | peek | bump | missing | skipToken | reuse => rfl
  | complete | abandon | precede | setField | setState => cases adding

theorem IsAdding.spend (adding : call.IsAdding) (handles : Handles) :
    handles.spend call = handles := by
  cases call with
  | start | peek | bump | missing | skipToken | reuse => rfl
  | complete | abandon | precede | setField | setState => cases adding

theorem exists_adds_of_oblivious {program : Parsing α} (oblivious : program.Oblivious)
    (run : ((fun _ => Handle.none) <$> program).run context = .ok (handle, after)) :
    handle = .none ∧ ∃ added, after.events = context.events ++ added ∧
      ((fun _ => Handle.none) <$> program).Adds context (fun _ => .none) after added := by
  rcases Parsing.run_map_ok run with ⟨value, inner, rfl⟩
  refine ⟨rfl, ?_⟩
  rcases oblivious context with hangs | ⟨_, reached, added, adds⟩
  · rw [show program.run context = _ from hangs context.events] at inner
    cases inner
  · rw [adds.run_self] at inner
    cases inner
    exact ⟨added, rfl, (adds.map fun _ => Handle.none).of_events _⟩

/-- What a call adds, and answers, does not depend on what was recorded before. -/
theorem IsAdding.exists_adds (adding : call.IsAdding)
    (run : call.perform.run context = .ok (handle, after)) :
    ∃ added, after.events = context.events ++ added ∧ handle.Fits context.events.size added ∧
      call.perform.Adds context (fun size => handle.named size) after added := by
  cases call with
  | complete | abandon | precede | setField | setState => cases adding
  | peek =>
      rcases exists_adds_of_oblivious Parsing.oblivious_peek run with ⟨rfl, added, same, adds⟩
      exact ⟨added, same, trivial, adds⟩
  | bump =>
      rcases exists_adds_of_oblivious Parsing.oblivious_bump run with ⟨rfl, added, same, adds⟩
      exact ⟨added, same, trivial, adds⟩
  | missing symbol =>
      rcases exists_adds_of_oblivious (Parsing.oblivious_missing symbol) run with
        ⟨rfl, added, same, adds⟩
      exact ⟨added, same, trivial, adds⟩
  | skipToken =>
      rcases exists_adds_of_oblivious Parsing.oblivious_skipToken run with ⟨rfl, added, same, adds⟩
      exact ⟨added, same, trivial, adds⟩
  | start =>
      have adds := (Parsing.adds_start context).map Handle.opened
      rw [show (Call.start).perform.run context = _ from adds.run_self] at run
      cases run
      exact ⟨_, rfl, ⟨rfl, rfl⟩, adds.of_events _⟩
  | reuse state =>
      rcases Parsing.adds_reuse context state with adds | ⟨reached, tree, adds⟩
      · have adds := adds.map fun found => found.elim Handle.none Handle.completed
        rw [show (Call.reuse state).perform.run context = _ from adds.run_self] at run
        cases run
        exact ⟨_, rfl, trivial, adds.of_events _⟩
      · have adds := adds.map fun found => found.elim Handle.none Handle.completed
        rw [show (Call.reuse state).perform.run context = _ from adds.run_self] at run
        cases run
        exact ⟨_, rfl, ⟨rfl, _, rfl, trivial⟩, adds.of_events _⟩

end Call

/-! ## Calls that change the record -/

namespace Event

/-- A change of what is said about a node from outside, but for its wrapper. -/
structure Retags (change : Event → Event) : Prop where
  wrapper_eq : ∀ event, (change event).wrapper? = event.wrapper?
  withWrapper_eq : ∀ event wrapper, change (event.withWrapper wrapper) =
    (change event).withWrapper wrapper
  complete : ∀ event, event.IsComplete → (change event).IsComplete
  opens : ∀ event, event.Opens → (change event).Opens

theorem retags_withField (field : Nat) : Retags (withField field) where
  wrapper_eq event := wrapper_withField event field
  withWrapper_eq event wrapper := by cases event <;> rfl
  complete event := (alike_withField event field).complete
  opens event := by
    rintro ⟨symbol, wrapper, _, state, rfl⟩
    exact ⟨symbol, wrapper, field, state, rfl⟩

theorem retags_withState (state : Nat) : Retags (withState state) where
  wrapper_eq event := wrapper_withState event state
  withWrapper_eq event wrapper := by cases event <;> rfl
  complete event := (alike_withState event state).complete
  opens event := by
    rintro ⟨symbol, wrapper, field, _, rfl⟩
    exact ⟨symbol, wrapper, field, state, rfl⟩

end Event

/-! ## Stages -/

/-- The call takes no opening away in which a node is to be wrapped. -/
def Context.Spares (context : Context) : Call → Prop
  | .abandon node => node.place + 1 = context.events.size → ¬Wraps context.events node.place
  | _ => True

instance decidableSpares (context : Context) : (call : Call) → Decidable (context.Spares call)
  | .abandon node => inferInstanceAs
      (Decidable (node.place + 1 = context.events.size → ¬Wraps context.events node.place))
  | .start | .complete _ _ | .precede _ | .peek | .bump | .missing _ | .skipToken | .reuse _
  | .setField _ _ | .setState _ _ => isTrue trivial

instance decidableAllows (handles : Handles) : (call : Call) → Decidable (handles.Allows call)
  | .complete node _ | .abandon node => inferInstanceAs (Decidable (node ∈ handles.opened))
  | .precede node | .setField node _ | .setState node _ =>
      inferInstanceAs (Decidable (node ∈ handles.complete))
  | .start | .peek | .bump | .missing _ | .skipToken | .reuse _ => isTrue trivial

/-- A parse, the places of the nodes that were given in it, in this order, and those of them that
are open and that are complete, by number. -/
structure Stage where
  context : Context
  places : List Nat
  handles : Handles

namespace Stage

variable {stage last : Stage} {call : Call} {handle : Handle} {after : Context} {number : Nat}

/-- The place of the node of a number. -/
def place (stage : Stage) (number : Nat) : Nat := stage.places.getD number 0

/-- The stage after a call that was answered with a handle. -/
def next (stage : Stage) (call : Call) (handle : Handle) (context : Context) : Stage where
  context := context
  places := stage.places ++ handle.place?.toList
  handles := (stage.handles.spend call).gain (handle.named stage.places.length)

/-- A parse in which no node was given. -/
def begin (context : Context) : Stage := ⟨context, [], Handles.empty⟩

/-- The calls, on nodes that were given, lead from one stage to another, and spare all wrappers. -/
inductive Leads : Stage → List Call → Stage → Prop where
  | done {stage : Stage} : Leads stage [] stage
  | call {stage last : Stage} {call : Call} {calls : List Call} {handle : Handle} {after : Context}
      (allowed : stage.handles.Allows call) (spared : stage.context.Spares (call.via stage.place))
      (run : (call.via stage.place).perform.run stage.context = .ok (handle, after))
      (rest : Leads (stage.next call handle after) calls last) : Leads stage (call :: calls) last

/-- Makes the calls, as long as they are on nodes that were given and spare all wrappers. -/
def follow? (stage : Stage) : List Call → Option Stage
  | [] => some stage
  | call :: calls =>
    if stage.handles.Allows call ∧ stage.context.Spares (call.via stage.place) then
      match (call.via stage.place).perform.run stage.context with
      | .ok (handle, after) => (stage.next call handle after).follow? calls
      | .error _ => none
    else none

theorem leads_iff {calls : List Call} :
    stage.Leads calls last ↔ stage.follow? calls = some last := by
  constructor
  · intro leads
    induction leads with
    | done => rfl
    | call allowed spared run _ ih =>
        rw [follow?, if_pos ⟨allowed, spared⟩, run]
        exact ih
  · intro follows
    induction calls generalizing stage with
    | nil =>
        cases follows
        exact .done
    | cons call calls ih =>
        rw [follow?] at follows
        split at follows
        · rename_i fits
          cases run : (call.via stage.place).perform.run stage.context with
          | error fault =>
              rw [run] at follows
              cases follows
          | ok result =>
              rw [run] at follows
              exact .call fits.1 fits.2 run (ih follows)
        · cases follows

/-- Calls lead to one stage at most. -/
theorem Leads.unique {other : Stage} {calls : List Call} (first : stage.Leads calls last)
    (second : stage.Leads calls other) : other = last :=
  Option.some.inj ((leads_iff.mp second).symm.trans (leads_iff.mp first))

/-- All wrappers are openings, and the nodes that were given stand in the record: the open ones as
blank openings, each as one of its own. -/
structure Sound (stage : Stage) : Prop where
  linked : Linked stage.context.events
  opened : ∀ number, ⟨number⟩ ∈ stage.handles.opened →
    number < stage.places.length ∧ stage.context.events[stage.place number]? = some blank
  complete : ∀ number, ⟨number⟩ ∈ stage.handles.complete → number < stage.places.length ∧
    ∃ event, stage.context.events[stage.place number]? = some event ∧ event.IsComplete
  apart : ∀ first second, ⟨first⟩ ∈ stage.handles.opened → ⟨second⟩ ∈ stage.handles.opened →
    stage.place first = stage.place second → first = second
  nodup : stage.handles.opened.Nodup

theorem place_next (within : number < stage.places.length) :
    (stage.next call handle after).place number = stage.place number :=
  List.getD_append _ _ _ _ within

theorem place_next_self {place : Nat} (named : handle.place? = some place) :
    (stage.next call handle after).place stage.places.length = place := by
  rw [Stage.place, Stage.next, named, List.getD_append_right _ _ _ _ (Nat.le_refl _), Nat.sub_self]
  rfl

theorem length_next (stage : Stage) (call : Call) (handle : Handle) (after : Context) :
    stage.places.length ≤ (stage.next call handle after).places.length := by
  rw [Stage.next, List.length_append]
  omega

theorem sound_begin {context : Context} (fresh : context.events = #[]) : (begin context).Sound where
  linked index event found := by simp [begin, fresh] at found
  opened _ member := by cases member
  complete _ member := by cases member
  apart _ _ member := by cases member
  nodup := List.nodup_nil

end Stage

namespace Handles

variable {handles : Handles}

theorem mem_of_spend {call : Call} {node : OpenNode} (member : node ∈ (handles.spend call).opened) :
    node ∈ handles.opened := by
  cases call with
  | complete | abandon => exact List.mem_of_mem_erase member
  | start | precede | peek | bump | missing | skipToken | reuse | setField | setState =>
      exact member

theorem complete_spend (handles : Handles) (call : Call) :
    (handles.spend call).complete = handles.complete := by
  cases call <;> rfl

theorem nodup_spend (nodup : handles.opened.Nodup) (call : Call) :
    (handles.spend call).opened.Nodup := by
  cases call with
  | complete node | abandon node => exact nodup.erase node
  | start | precede | peek | bump | missing | skipToken | reuse | setField | setState => exact nodup

end Handles

/-- A node is held since before a call, or the call answered with it. -/
theorem Stage.mem_next {stage : Stage} {call : Call} {handle : Handle} {after : Context}
    {number : Nat} (member : ⟨number⟩ ∈ (stage.next call handle after).handles.opened ∨
      ⟨number⟩ ∈ (stage.next call handle after).handles.complete) :
    (⟨number⟩ ∈ stage.handles.opened ∨ ⟨number⟩ ∈ stage.handles.complete) ∨
      number = stage.places.length ∧ ∃ place, handle.place? = some place := by
  have before (member : ⟨number⟩ ∈ (stage.handles.spend call).opened ∨
      ⟨number⟩ ∈ (stage.handles.spend call).complete) :
      ⟨number⟩ ∈ stage.handles.opened ∨ ⟨number⟩ ∈ stage.handles.complete := by
    rw [Handles.complete_spend] at member
    exact member.imp_left Handles.mem_of_spend
  cases handle with
  | none => exact Or.inl (before member)
  | opened node =>
      rcases member with isOpen | isComplete
      · rcases List.mem_cons.mp isOpen with new | old
        · exact Or.inr ⟨congrArg OpenNode.place new, node.place, rfl⟩
        · exact Or.inl (before (Or.inl old))
      · exact Or.inl (before (Or.inr isComplete))
  | completed node =>
      rcases member with isOpen | isComplete
      · exact Or.inl (before (Or.inl isOpen))
      · rcases List.mem_cons.mp isComplete with new | old
        · exact Or.inr ⟨congrArg CompleteNode.place new, node.place, rfl⟩
        · exact Or.inl (before (Or.inr old))

namespace Stage.Sound

variable {stage last : Stage} {call : Call} {handle : Handle} {after : Context} {number : Nat}

theorem held (sound : stage.Sound)
    (member : ⟨number⟩ ∈ stage.handles.opened ∨ ⟨number⟩ ∈ stage.handles.complete) :
    number < stage.places.length ∧ stage.place number < stage.context.events.size := by
  rcases member with isOpen | isComplete
  · rcases sound.opened number isOpen with ⟨within, found⟩
    exact ⟨within, (Array.getElem?_eq_some_iff.mp found).1⟩
  · rcases sound.complete number isComplete with ⟨within, event, found, _⟩
    exact ⟨within, (Array.getElem?_eq_some_iff.mp found).1⟩

/-- What a call has to keep, and what it has to answer. -/
theorem next (sound : stage.Sound) (linked : Linked after.events)
    (opened : ∀ number, ⟨number⟩ ∈ (stage.handles.spend call).opened →
      after.events[stage.place number]? = some blank)
    (complete : ∀ number, ⟨number⟩ ∈ stage.handles.complete →
      ∃ event, after.events[stage.place number]? = some event ∧ event.IsComplete)
    (stands : handle.Stands after.events)
    (elsewhere : ∀ node, handle = .opened node → ∀ number,
      ⟨number⟩ ∈ (stage.handles.spend call).opened → stage.place number ≠ node.place) :
    (stage.next call handle after).Sound := by
  have within (number : Nat) (member : ⟨number⟩ ∈ (stage.handles.spend call).opened) :
      number < stage.places.length := (sound.opened number (Handles.mem_of_spend member)).1
  have longer := stage.length_next call handle after
  have still (number : Nat) (member : ⟨number⟩ ∈ (stage.handles.spend call).opened) :
      number < (stage.next call handle after).places.length ∧
        after.events[(stage.next call handle after).place number]? = some blank := by
    have early := within number member
    rw [place_next early]
    exact ⟨Nat.lt_of_lt_of_le early longer, opened number member⟩
  have stillComplete (number : Nat) (member : ⟨number⟩ ∈ (stage.handles.spend call).complete) :
      number < (stage.next call handle after).places.length ∧
        ∃ event, after.events[(stage.next call handle after).place number]? = some event ∧
          event.IsComplete := by
    rw [Handles.complete_spend] at member
    have early := (sound.complete number member).1
    rw [place_next early]
    exact ⟨Nat.lt_of_lt_of_le early longer, complete number member⟩
  have apart (first second : Nat) (inFirst : ⟨first⟩ ∈ (stage.handles.spend call).opened)
      (inSecond : ⟨second⟩ ∈ (stage.handles.spend call).opened)
      (same : (stage.next call handle after).place first =
        (stage.next call handle after).place second) : first = second := by
    rw [place_next (within first inFirst), place_next (within second inSecond)] at same
    exact sound.apart first second (Handles.mem_of_spend inFirst)
      (Handles.mem_of_spend inSecond) same
  have nodup := Handles.nodup_spend sound.nodup call
  have added {place : Nat} (named : handle.place? = some place) :
      stage.places.length < (stage.next call handle after).places.length := by
    rw [Stage.next, named, List.length_append]
    exact Nat.lt_succ_self _
  cases handle with
  | none => exact ⟨linked, still, stillComplete, apart, nodup⟩
  | completed node =>
      refine ⟨linked, still, fun number member => ?_, apart, nodup⟩
      rcases List.mem_cons.mp member with same | before
      · cases same
        rw [place_next_self rfl]
        exact ⟨added rfl, stands⟩
      · exact stillComplete number before
  | opened node =>
      refine ⟨linked, fun number member => ?_, stillComplete, fun first second => ?_, ?_⟩
      · rcases List.mem_cons.mp member with same | before
        · cases same
          rw [place_next_self rfl]
          exact ⟨added rfl, stands⟩
        · exact still number before
      · intro inFirst inSecond same
        rcases List.mem_cons.mp inFirst with one | before
        · rcases List.mem_cons.mp inSecond with other | behind
          · cases one
            cases other
            rfl
          · cases one
            rw [place_next_self rfl, place_next (within second behind)] at same
            exact absurd same.symm (elsewhere node rfl second behind)
        · rcases List.mem_cons.mp inSecond with other | behind
          · cases other
            rw [place_next_self rfl, place_next (within first before)] at same
            exact absurd same (elsewhere node rfl first before)
          · exact apart first second before behind same
      · refine List.nodup_cons.mpr ⟨fun member => ?_, nodup⟩
        exact absurd (within _ member) (Nat.lt_irrefl _)

/-- An open node stands at another place than a complete one. -/
theorem ne_of_complete (sound : stage.Sound) {first second : Nat}
    (isOpen : ⟨first⟩ ∈ stage.handles.opened) (isComplete : ⟨second⟩ ∈ stage.handles.complete) :
    stage.place first ≠ stage.place second := by
  intro same
  rcases sound.complete second isComplete with ⟨_, event, found, complete⟩
  rw [← same, (sound.opened first isOpen).2, Option.some.injEq] at found
  subst found
  cases complete

theorem ne_of_erase (sound : stage.Sound) {first second : Nat}
    (isOpen : ⟨first⟩ ∈ stage.handles.opened)
    (other : ⟨second⟩ ∈ stage.handles.opened.erase ⟨first⟩) :
    stage.place first ≠ stage.place second := by
  rcases (sound.nodup.mem_erase_iff).mp other with ⟨distinct, alsoOpen⟩
  intro same
  exact distinct (congrArg OpenNode.mk (sound.apart first second isOpen alsoOpen same).symm)

theorem add (sound : stage.Sound) (adding : call.IsAdding) {added : Array Event}
    (plain : Plain added) (same : after.events = stage.context.events ++ added)
    (fits : handle.Fits stage.context.events.size added) :
    (stage.next call handle after).Sound := by
  have first {event : Event} (found : added[0]? = some event) :
      (stage.context.events ++ added)[stage.context.events.size]? = some event := by
    rw [Array.getElem?_append_right (Nat.le_refl _), Nat.sub_self, found]
  refine sound.next (same ▸ sound.linked.append plain) (fun number member => ?_)
    (fun number member => ?_) ?_ ?_
  · rw [adding.spend] at member
    rw [same, getElem?_append_of_found (sound.opened number member).2]
  · rcases sound.complete number member with ⟨_, event, found, complete⟩
    exact ⟨event, by rw [same, getElem?_append_of_found found], complete⟩
  · rw [same]
    cases handle with
    | none => trivial
    | opened node =>
        rcases fits with ⟨named, blank⟩
        rw [Handle.Stands, named, first blank]
    | completed node =>
        rcases fits with ⟨named, event, found, complete⟩
        exact ⟨event, by rw [named, first found], complete⟩
  · rintro node rfl number member
    rw [adding.spend] at member
    have inside := (Array.getElem?_eq_some_iff.mp (sound.opened number member).2).1
    rw [fits.1]
    omega

theorem completed (sound : stage.Sound) (held : ⟨number⟩ ∈ stage.handles.opened) {symbol : Nat}
    (same : after.events = (stage.context.events.setIfInBounds (stage.place number)
      (opening (some symbol) none 0 noState)).push closing) :
    (stage.next (.complete ⟨number⟩ symbol) (.completed ⟨stage.place number⟩) after).Sound := by
  have here := (sound.opened number held).2
  rw [Array.push_eq_append] at same
  refine sound.next ?_ (fun other member => ?_) (fun other member => ?_) ?_ nofun
  · rw [same]
    exact (sound.linked.set here (fun _ => ⟨_, _, _, _, rfl⟩) .none).append (plain_singleton rfl)
  · have elsewhere := sound.ne_of_erase held member
    rw [same, getElem?_append_of_found]
    rw [Array.getElem?_setIfInBounds_ne elsewhere]
    exact (sound.opened other (List.mem_of_mem_erase member)).2
  · rcases sound.complete other member with ⟨_, event, found, complete⟩
    refine ⟨event, ?_, complete⟩
    rw [same, getElem?_append_of_found]
    rw [Array.getElem?_setIfInBounds_ne (sound.ne_of_complete held member), found]
  · exact ⟨opening (some symbol) none 0 noState,
      by rw [same, getElem?_append_of_found (getElem?_set_of_found here)], rfl⟩

theorem abandon (sound : stage.Sound) (held : ⟨number⟩ ∈ stage.handles.opened)
    (spared : stage.place number + 1 = stage.context.events.size →
      ¬Wraps stage.context.events (stage.place number))
    (same : after.events = if stage.place number + 1 = stage.context.events.size then
      stage.context.events.pop else stage.context.events) :
    (stage.next (.abandon ⟨number⟩) .none after).Sound := by
  have still {place : Nat} {event : Event} (found : stage.context.events[place]? = some event)
      (elsewhere : stage.place number ≠ place) : after.events[place]? = some event := by
    rw [same]
    split
    · have inside := (Array.getElem?_eq_some_iff.mp found).1
      rw [Array.getElem?_pop, if_pos (by omega), found]
    · exact found
  refine sound.next ?_ (fun other member => ?_) (fun other member => ?_) trivial nofun
  · rw [same]
    split
    · rename_i final
      exact sound.linked.pop final (spared final)
    · exact sound.linked
  · exact still (sound.opened other (List.mem_of_mem_erase member)).2
      (sound.ne_of_erase held member)
  · rcases sound.complete other member with ⟨_, event, found, complete⟩
    exact ⟨event, still found (sound.ne_of_complete held member), complete⟩

/-- The event of a complete node is replaced. -/
theorem set (sound : stage.Sound) (held : ⟨number⟩ ∈ stage.handles.complete) {event other : Event}
    {added : Array Event} (found : stage.context.events[stage.place number]? = some event)
    (complete : other.IsComplete)
    (same : after.events =
      (stage.context.events ++ added).setIfInBounds (stage.place number) other) :
    (∀ number, ⟨number⟩ ∈ stage.handles.opened →
      after.events[stage.place number]? = some blank) ∧
    ∀ number, ⟨number⟩ ∈ stage.handles.complete →
      ∃ event, after.events[stage.place number]? = some event ∧ event.IsComplete := by
  rw [same]
  constructor
  · intro next member
    rw [Array.getElem?_setIfInBounds_ne (sound.ne_of_complete member held).symm,
      getElem?_append_of_found (sound.opened next member).2]
  · intro next member
    by_cases here : stage.place number = stage.place next
    · refine ⟨other, ?_, complete⟩
      rw [← here, getElem?_set_of_found (getElem?_append_of_found found)]
    · rcases sound.complete next member with ⟨_, event, there, complete⟩
      exact ⟨event, by rw [Array.getElem?_setIfInBounds_ne here, getElem?_append_of_found there],
        complete⟩

theorem precede (sound : stage.Sound) (held : ⟨number⟩ ∈ stage.handles.complete) {event : Event}
    (found : stage.context.events[stage.place number]? = some event) (complete : event.IsComplete)
    (same : after.events = (stage.context.events.push blank).setIfInBounds (stage.place number)
      (event.withWrapper (some (stage.context.events.size - stage.place number)))) :
    (stage.next (.precede ⟨number⟩) (.opened ⟨stage.context.events.size⟩) after).Sound := by
  have inside := (Array.getElem?_eq_some_iff.mp found).1
  have there : (stage.context.events.push blank)[stage.place number]? = some event :=
    found_push found
  have behind : stage.place number + (stage.context.events.size - stage.place number) =
      stage.context.events.size := by omega
  have linked : Linked after.events := by
    rw [same]
    refine Linked.set (Array.push_eq_append ▸ sound.linked.append (plain_singleton rfl)) there ?_ ?_
    · rintro ⟨symbol, wrapper, field, state, rfl⟩
      exact ⟨_, _, _, _, rfl⟩
    · intro distance given
      rw [Event.wrapper_withWrapper complete.ne_closing, Option.some.injEq] at given
      subst given
      exact ⟨by omega, blank, by rw [behind]; exact Array.getElem?_push_size, Event.blank_opens⟩
  have last : after.events[stage.context.events.size]? = some blank := by
    rw [same, Array.getElem?_setIfInBounds_ne (by omega)]
    exact Array.getElem?_push_size
  rw [Array.push_eq_append] at same
  rcases sound.set held found (complete.withWrapper _) same with ⟨opened, others⟩
  refine sound.next linked opened others last ?_
  rintro node same next member
  cases same
  have within := (Array.getElem?_eq_some_iff.mp (sound.opened next member).2).1
  exact Nat.ne_of_lt within

theorem retag (sound : stage.Sound) (keeps : stage.handles.spend call = stage.handles)
    (held : ⟨number⟩ ∈ stage.handles.complete) {event : Event}
    (found : stage.context.events[stage.place number]? = some event) (complete : event.IsComplete)
    {change : Event → Event} (retags : Event.Retags change)
    (same : after.events =
      stage.context.events.setIfInBounds (stage.place number) (change event)) :
    (stage.next call .none after).Sound := by
  have linked : Linked after.events := by
    rw [same]
    refine sound.linked.set found (retags.opens event) ?_
    rw [retags.wrapper_eq]
    exact sound.linked _ _ found
  have all : after.events =
      (stage.context.events ++ #[]).setIfInBounds (stage.place number) (change event) := by
    rw [Array.append_empty, same]
  rcases sound.set held found (retags.complete event complete) all with ⟨opened, others⟩
  exact sound.next linked (by rw [keeps]; exact opened) others trivial nofun

end Stage.Sound

/-! ## What calls do -/

namespace Stage

variable {stage last : Stage} {call : Call} {calls : List Call} {handle : Handle} {after : Context}

/-- What a call does in a stage, told so that it can be compared to what the call does to another
record. -/
inductive Effect (stage : Stage) : Call → Handle → Context → Prop where
  | adds {call : Call} {handle : Handle} {after : Context} {added : Array Event}
      (adding : call.IsAdding) (same : after.events = stage.context.events ++ added)
      (fits : handle.Fits stage.context.events.size added)
      (adds : call.perform.Adds stage.context (fun size => handle.named size) after added) :
      Effect stage call handle after
  | completes {number : Nat} (held : ⟨number⟩ ∈ stage.handles.opened) (symbol : Nat) :
      Effect stage (.complete ⟨number⟩ symbol) (.completed ⟨stage.place number⟩)
        { stage.context.completed symbol with
          events := (stage.context.events.setIfInBounds (stage.place number)
            (opening (some symbol) none 0 noState)).push closing }
  | abandons {number : Nat} (held : ⟨number⟩ ∈ stage.handles.opened)
      (spared : stage.place number + 1 = stage.context.events.size →
        ¬Wraps stage.context.events (stage.place number)) :
      Effect stage (.abandon ⟨number⟩) .none
        { stage.context with
          events := if stage.place number + 1 = stage.context.events.size then
            stage.context.events.pop else stage.context.events }
  | precedes {number : Nat} {event : Event} (held : ⟨number⟩ ∈ stage.handles.complete)
      (found : stage.context.events[stage.place number]? = some event)
      (complete : event.IsComplete) :
      Effect stage (.precede ⟨number⟩) (.opened ⟨stage.context.events.size⟩)
        { stage.context with
          events := (stage.context.events.push blank).setIfInBounds (stage.place number)
            (event.withWrapper (some (stage.context.events.size - stage.place number))) }
  | retags {call : Call} {number : Nat} {event : Event} {change : Event → Event}
      (keeps : ∀ handles : Handles, handles.spend call = handles)
      (held : ⟨number⟩ ∈ stage.handles.complete)
      (found : stage.context.events[stage.place number]? = some event)
      (complete : event.IsComplete) (retags : Event.Retags change)
      (run : ∀ (place : Nat → Nat) (event : Event) (context : Context) (record : Array Event),
        record[place number]? = some event → event.IsComplete →
        (call.via place).perform.run { context with events := record } =
          .ok (.none, { context with
            events := record.setIfInBounds (place number) (change event) })) :
      Effect stage call .none
        { stage.context with
          events := stage.context.events.setIfInBounds (stage.place number) (change event) }

/-- Calls that are allowed and spare all wrappers have one of these effects. -/
theorem Sound.effect (sound : stage.Sound) (allowed : stage.handles.Allows call)
    (spared : stage.context.Spares (call.via stage.place))
    (run : (call.via stage.place).perform.run stage.context = .ok (handle, after)) :
    Effect stage call handle after := by
  have adds (adding : call.IsAdding) : Effect stage call handle after := by
    rw [adding.via] at run
    rcases adding.exists_adds run with ⟨added, same, fits, adds⟩
    exact .adds adding same fits adds
  cases call with
  | start | peek | bump | missing | skipToken | reuse => exact adds trivial
  | complete node symbol =>
      have found := (sound.opened node.place allowed).2
      rw [blank] at found
      rw [show ((Call.complete node symbol).via stage.place).perform.run stage.context = _ from
        run_map_of_ok _ (Parsing.run_complete_record found stage.context symbol)] at run
      cases run
      exact .completes allowed symbol
  | abandon node =>
      rw [show ((Call.abandon node).via stage.place).perform.run stage.context = _ from
        run_map_of_ok _ (Parsing.run_abandon_record stage.context stage.context.events
          (stage.place node.place))] at run
      cases run
      exact .abandons allowed spared
  | precede node =>
      rcases sound.complete node.place allowed with ⟨_, event, found, complete⟩
      rw [show ((Call.precede node).via stage.place).perform.run stage.context = _ from
        run_map_of_ok _ (Parsing.run_precede_record found complete.ne_closing stage.context)] at run
      cases run
      exact .precedes allowed found complete
  | setField node field =>
      rcases sound.complete node.place allowed with ⟨_, event, found, complete⟩
      rw [show ((Call.setField node field).via stage.place).perform.run stage.context = _ from
        run_map_of_ok _ (Parsing.run_setField_record found complete.ne_closing stage.context
          field)] at run
      cases run
      exact .retags (fun _ => rfl) allowed found complete (Event.retags_withField field)
        fun _ _ context _ found complete =>
          run_map_of_ok _ (Parsing.run_setField_record found complete.ne_closing context field)
  | setState node state =>
      rcases sound.complete node.place allowed with ⟨_, event, found, complete⟩
      rw [show ((Call.setState node state).via stage.place).perform.run stage.context = _ from
        run_map_of_ok _ (Parsing.run_setState_record found stage.context state)] at run
      cases run
      exact .retags (fun _ => rfl) allowed found complete (Event.retags_withState state)
        fun _ _ context _ found _ =>
          run_map_of_ok _ (Parsing.run_setState_record found context state)

theorem Effect.sound (effect : Effect stage call handle after) (sound : stage.Sound) :
    (stage.next call handle after).Sound := by
  cases effect with
  | adds adding same fits adds => exact sound.add adding adds.plain same fits
  | completes held symbol => exact sound.completed held rfl
  | abandons held spared => exact sound.abandon held spared rfl
  | precedes held found complete => exact sound.precede held found complete rfl
  | retags keeps held found complete retags =>
      exact sound.retag (keeps _) held found complete retags rfl

theorem Leads.sound (leads : stage.Leads calls last) (sound : stage.Sound) : last.Sound := by
  induction leads with
  | done => exact sound
  | call allowed spared run _ ih => exact ih ((sound.effect allowed spared run).sound sound)

end Stage

end Reparse
