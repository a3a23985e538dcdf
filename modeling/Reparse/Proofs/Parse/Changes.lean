import Reparse.Proofs.Parse.Skeleton

/-!
# What calls change in the record

The calls that neither scan nor take over a subtree only change the record of events: they add to its
end, or replace the event of one node. Each of them is told here for any record, by the place of
that event, and for a record in which the event stands between others. Taking over a subtree adds
its event, and the parse goes on behind it.
-/

namespace Reparse

namespace Event

variable {event : Event}

/-- The event with another field. -/
def withField (field : Nat) : Event → Event
  | opening symbol wrapper _ state => opening symbol wrapper field state
  | added tree wrapper _ => added tree wrapper field
  | closing => closing

/-- The event with another state, if it has one. -/
def withState (state : Nat) : Event → Event
  | opening symbol wrapper field _ => opening symbol wrapper field state
  | added tree wrapper field => added tree wrapper field
  | closing => closing

theorem IsNode.ne_closing (node : IsNode event) : event ≠ closing := by
  rintro rfl
  cases node

theorem IsNode.withField_dressed (node : IsNode event) (tag : Tag) (field : Nat) :
    withField field (Event.dressed tag event) = Event.dressed ⟨field, tag.state⟩ event := by
  cases node <;> rfl

theorem IsNode.withState_dressed (node : IsNode event) (tag : Tag) (state : Nat) :
    withState state (Event.dressed tag event) = Event.dressed ⟨tag.field, state⟩ event := by
  cases node <;> rfl

theorem withField_wrapped (event : Event) (wrapper : Option Nat) (field other : Nat) :
    withField other (wrapped wrapper field event) = wrapped wrapper other event := by
  cases event <;> rfl

theorem withWrapper_wrapped (event : Event) (wrapper other : Option Nat) (field : Nat) :
    withWrapper other (wrapped wrapper field event) = wrapped other field event := by
  cases event <;> rfl

theorem wrapped_ne_closing (solid : event ≠ closing) (wrapper : Option Nat) (field : Nat) :
    wrapped wrapper field event ≠ closing := by
  cases event with
  | opening | added => nofun
  | closing => exact absurd rfl solid

end Event

namespace Context

theorem tick_record (context : Context) (record : Array Event) :
    tick { context with events := record } = { context.tick with events := record } := by
  dsimp only [tick]
  split <;> rfl

/-- The parse in which a node of the symbol was completed, but for the record. -/
def completed (context : Context) (symbol : Nat) : Context :=
  (context.report (.completed (context.vocabulary.symbolName symbol))).tick

/-- The parse without the token that was seen ahead. -/
def unseen (context : Context) : Context :=
  if context.lookahead.isSome then
    Context.report { context with lookahead := none } .droppedLookahead
  else context

/-- The parse behind a subtree that begins at its position. -/
def pass (context : Context) (tree : Tree) : Context :=
  { context with
    position := context.position + tree.total
    scanner := context.scanner.reset (context.position + tree.total) }

theorem unseen_record (context : Context) (record : Array Event) :
    unseen { context with events := record } = { context.unseen with events := record } := by
  dsimp only [unseen]
  split <;> rfl

@[simp]
theorem events_unseen (context : Context) : context.unseen.events = context.events := by
  unfold unseen
  split <;> rfl

end Context

namespace Parsing

open Event (blank getElem_middle set_middle withWrapper wrapped)

variable {context : Context} {event : Event} {place : Nat}

/-! ## By the place of an event -/

section Places

variable {record : Array Event}

theorem run_complete_record {old wrapper : Option Nat} {field state : Nat}
    (found : record[place]? = some (.opening old wrapper field state)) (context : Context)
    (symbol : Nat) :
    (complete ⟨place⟩ symbol).run { context with events := record } =
      .ok (⟨place⟩, { context.completed symbol with
        events := (record.setIfInBounds place
          (.opening (some symbol) wrapper field state)).push .closing }) := by
  refine (run_bind_of_ok rfl).trans ?_
  rw [found, Context.completed, ← Context.tick_record]
  rfl

theorem run_abandon_record (context : Context) (record : Array Event) (place : Nat) :
    (abandon ⟨place⟩).run { context with events := record } =
      .ok ((), { context with
        events := if place + 1 = record.size then record.pop else record }) := by
  change Except.ok ((), if place + 1 = record.size then
    { context with events := record.pop } else { context with events := record }) = _
  split <;> rfl

/-- A node is wrapped in one that opens behind the record. -/
theorem run_precede_record (found : record[place]? = some event) (solid : event ≠ .closing)
    (context : Context) :
    (precede ⟨place⟩).run { context with events := record } =
      .ok (⟨record.size⟩, { context with
        events := (record.push blank).setIfInBounds place
          (withWrapper (some (record.size - place)) event) }) := by
  refine (run_bind_of_ok rfl).trans ?_
  refine (run_bind_of_ok rfl).trans ?_
  rw [show (Context.record { context with events := record } blank).events[place]? = some event from
    Event.found_push found]
  cases event with
  | opening | added => rfl
  | closing => exact absurd rfl solid

theorem run_setField_record (found : record[place]? = some event) (solid : event ≠ .closing)
    (context : Context) (field : Nat) :
    (setField ⟨place⟩ field).run { context with events := record } =
      .ok ((), { context with events := record.setIfInBounds place (event.withField field) }) := by
  refine (run_bind_of_ok rfl).trans ?_
  dsimp only
  rw [found]
  cases event with
  | opening | added => rfl
  | closing => exact absurd rfl solid

/-- A subtree that was taken over keeps its own state. -/
theorem run_setState_record (found : record[place]? = some event) (context : Context)
    (state : Nat) :
    (setState ⟨place⟩ state).run { context with events := record } =
      .ok ((), { context with events := record.setIfInBounds place (event.withState state) }) := by
  refine (run_bind_of_ok rfl).trans ?_
  dsimp only
  rw [found]
  cases event with
  | opening => rfl
  | added | closing =>
      rw [Event.withState, Event.setIfInBounds_of_found found]
      rfl

end Places

/-! ## Between other events -/

section Between

variable {record front back : List Event}

theorem getElem?_events (same : context.events.toList = front ++ event :: back) :
    context.events[front.length]? = some event := by
  rw [← Array.getElem?_toList, same, getElem_middle]

theorem toList_set (same : context.events.toList = front ++ event :: back) (other : Event) :
    (context.events.setIfInBounds front.length other).toList = front ++ other :: back := by
  rw [Array.toList_setIfInBounds, same, set_middle]

theorem run_start_of_record (same : context.events.toList = record) :
    ∃ events, events.toList = record ++ [blank] ∧
      start.run context = .ok (⟨record.length⟩, { context with events }) := by
  refine ⟨context.events.push blank, by rw [Array.toList_push, same], ?_⟩
  rw [← same, Array.length_toList]
  rfl

theorem run_missing_of_record (same : context.events.toList = record) (symbol : Nat) :
    ∃ events,
      events.toList =
        record ++ [.added (Tree.missing symbol (context.vocabulary.kind symbol)) none 0] ∧
      (missing symbol).run context = .ok ((),
        { context.report (.inserted (context.vocabulary.symbolName symbol)) with events }) := by
  refine ⟨context.events.push _, ?_, rfl⟩
  rw [Array.toList_push, same]
  rfl

theorem run_complete_of_record {wrapper : Option Nat} {field state : Nat} {node : Option Nat}
    (same : context.events.toList = front ++ .opening node wrapper field state :: back)
    (symbol : Nat) :
    ∃ events,
      events.toList = front ++ .opening (some symbol) wrapper field state :: (back ++ [.closing]) ∧
      (complete ⟨front.length⟩ symbol).run context = .ok (⟨front.length⟩,
        (Context.report { context with events }
          (.completed (context.vocabulary.symbolName symbol))).tick) := by
  refine ⟨(context.events.setIfInBounds front.length
    (.opening (some symbol) wrapper field state)).push .closing, ?_, ?_⟩
  · rw [Array.toList_push, toList_set same, List.append_assoc, List.cons_append]
  · refine (run_complete_record (getElem?_events same) context symbol).trans ?_
    rw [Context.completed, ← Context.tick_record]
    rfl

theorem run_abandon_of_record (same : context.events.toList = front ++ [event]) :
    ∃ events, events.toList = front ∧
      (abandon ⟨front.length⟩).run context = .ok ((), { context with events }) := by
  have size : front.length + 1 = context.events.size := by
    rw [← Array.length_toList, same]
    simp
  refine ⟨context.events.pop, by rw [Array.toList_pop, same, List.dropLast_concat], ?_⟩
  refine (run_abandon_record context context.events front.length).trans ?_
  rw [if_pos size]

theorem run_setState_of_record {wrapper : Option Nat} {field state : Nat} {node : Option Nat}
    (same : context.events.toList = front ++ .opening node wrapper field state :: back)
    (other : Nat) :
    ∃ events, events.toList = front ++ .opening node wrapper field other :: back ∧
      (setState ⟨front.length⟩ other).run context = .ok ((), { context with events }) :=
  ⟨_, toList_set same _, run_setState_record (getElem?_events same) context other⟩

theorem run_setField_of_record {wrapper : Option Nat} {field : Nat} (top : event ≠ .closing)
    (same : context.events.toList = front ++ wrapped wrapper field event :: back) (other : Nat) :
    ∃ events, events.toList = front ++ wrapped wrapper other event :: back ∧
      (setField ⟨front.length⟩ other).run context = .ok ((), { context with events }) := by
  refine ⟨_, toList_set same _, ?_⟩
  rw [← Event.withField_wrapped event wrapper field other]
  exact run_setField_record (getElem?_events same) (Event.wrapped_ne_closing top _ _) context other

/-- The wrapper of a node is told by how far behind the node it stands. -/
theorem run_precede_of_record {wrapper : Option Nat} {field : Nat} (top : event ≠ .closing)
    (same : context.events.toList = front ++ wrapped wrapper field event :: back) :
    ∃ events,
      events.toList =
        front ++ wrapped (some (back.length + 1)) field event :: (back ++ [blank]) ∧
      (precede ⟨front.length⟩).run context = .ok
        (⟨(front ++ wrapped (some (back.length + 1)) field event :: back).length⟩,
          { context with events }) := by
  have size : context.events.size = front.length + (back.length + 1) := by
    rw [← Array.length_toList, same]
    simp
  have opened : (context.record blank).events.toList =
      front ++ wrapped wrapper field event :: (back ++ [blank]) := by
    rw [Context.record, Array.toList_push, same, List.append_assoc, List.cons_append]
  have run := run_precede_record (getElem?_events same) (Event.wrapped_ne_closing top _ _) context
  rw [Event.withWrapper_wrapped, size, Nat.add_sub_cancel_left] at run
  refine ⟨_, toList_set opened _, run.trans ?_⟩
  simp [Context.record]

end Between

/-! ## Subtrees that are taken over -/

theorem exists_of_reusable {state : Nat} {tree : Tree}
    (found : context.reusable state = some tree) :
    context.isHalted = false ∧ ∃ older, context.older = some older ∧
      older.findReusable context.scanner.text.size context.position.bytes state = some tree := by
  unfold Context.reusable at found
  split at found
  · cases found
  · rename_i running
    exact ⟨by simpa using running, Option.bind_eq_some_iff.mp found⟩

theorem run_adopt (context : Context) (tree : Tree) :
    (adopt tree).run context = .ok (some ⟨context.events.size⟩,
      (((context.report (.reused (context.vocabulary.symbolName tree.info.symbol))).pass
        tree).record (.added tree none 0)).tick) := rfl

theorem run_reuse_of_none {state : Nat} (found : context.reusable state = none) :
    (reuse state).run context = .ok (none, context) := by
  unfold Context.reusable at found
  refine (run_bind_of_ok rfl).trans ?_
  split at found
  · rename_i halted
    rw [if_pos halted]
    rfl
  · rename_i running
    rw [if_neg running]
    cases present : context.older with
    | none => rfl
    | some older =>
        rw [present, Option.bind_some] at found
        dsimp only
        rw [found]
        rfl

/-- The token that was seen ahead is dropped before a subtree is taken over. -/
theorem run_reuse_of_reusable {state : Nat} {tree : Tree}
    (found : context.reusable state = some tree) :
    (reuse state).run context = (adopt tree).run context.unseen := by
  rcases exists_of_reusable found with ⟨running, older, present, search⟩
  refine (run_bind_of_ok rfl).trans ?_
  rw [running, present]
  dsimp only
  rw [search, Context.unseen]
  cases context.lookahead with
  | none => rfl
  | some token => rfl

end Parsing

end Reparse
