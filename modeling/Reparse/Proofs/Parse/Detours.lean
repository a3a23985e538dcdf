import Reparse.Proofs.Parse.Stages

/-!
# Detours

A grammar may open a node around a complete one and give it up again, at any later time. What it
does besides comes to the same parse as without this detour, but for blank openings in the record
(`Stage.Beside`), and so to the same tree (`Stage.tree_of_detour`), as long as no node that is given
up takes away an opening in which another one is to be wrapped.
-/

namespace Reparse

open Event (Interspersed Plain blank closing extend extend_of_lt extend_size found_push opening
  plain_singleton withWrapper)

namespace Handle

/-- The handle of the same node in a record in which the events have moved. -/
def moved (image : Nat → Nat) : Handle → Handle
  | none => none
  | opened node => opened ⟨image node.place⟩
  | completed node => completed ⟨image node.place⟩

variable {handle : Handle} {image : Nat → Nat}

theorem named_moved (handle : Handle) (image : Nat → Nat) (name : Nat) :
    (handle.moved image).named name = handle.named name := by
  cases handle <;> rfl

theorem place_moved (handle : Handle) (image : Nat → Nat) :
    (handle.moved image).place? = handle.place?.map image := by
  cases handle <;> rfl

/-- A handle that names the first event that is added. -/
theorem Fits.moved {size other : Nat} {added : Array Event} (fits : handle.Fits size added)
    (reached : image size = other) : handle.moved image = handle.named other := by
  subst reached
  cases handle with
  | none => rfl
  | opened node | completed node =>
      rw [Handle.moved, fits.1]
      rfl

end Handle

namespace Stage

variable {image : Nat → Nat} {aside : List Nat} {stage other last : Stage} {call : Call}
  {calls : List Call} {handle : Handle} {after : Context} {number : Nat}

/-- The other stage differs in its record only: there are blank openings between the events, those
at the places aside among them. -/
structure Beside (image : Nat → Nat) (aside : List Nat) (stage other : Stage) : Prop where
  handles_eq : other.handles = stage.handles
  length_eq : other.places.length = stage.places.length
  context_eq : other.context = { stage.context with events := other.context.events }
  interspersed : Interspersed image stage.context.events other.context.events
  placed : ∀ number, ⟨number⟩ ∈ stage.handles.opened ∨ ⟨number⟩ ∈ stage.handles.complete →
    other.place number = image (stage.place number)
  inside : ∀ place ∈ aside, place < other.context.events.size
  between : ∀ place ∈ aside, ∀ before < stage.context.events.size, image before ≠ place

namespace Beside

theorem run {α : Type} {program : Parsing α} {result : Except Fault (α × Context)}
    (beside : Beside image aside stage other)
    (run : program.run { stage.context with events := other.context.events } = result) :
    program.run other.context = result := by
  rw [beside.context_eq]
  exact run

/-- What is spared in the first record is spared in the other one. -/
theorem spares (beside : Beside image aside stage other) (sound : stage.Sound)
    (allowed : stage.handles.Allows call) (spared : stage.context.Spares (call.via stage.place)) :
    other.context.Spares (call.via other.place) := by
  cases call with
  | abandon node =>
      have found := (sound.opened node.place allowed).2
      have inside := (Array.getElem?_eq_some_iff.mp found).1
      intro last wraps
      have placed : other.place node.place = image (stage.place node.place) :=
        beside.placed _ (Or.inl allowed)
      have last : other.place node.place + 1 = other.context.events.size := last
      have wraps : Event.Wraps other.context.events (other.place node.place) := wraps
      rw [placed] at last wraps
      exact spared (beside.interspersed.last_of_last inside last)
        (beside.interspersed.wraps inside wraps)
  | start | complete | precede | peek | bump | missing | skipToken | reuse | setField | setState =>
      trivial

/-- What a call has to keep in both records. -/
theorem next (beside : Beside image aside stage other) (sound : stage.Sound) {shift : Nat → Nat}
    {others : Array Event} (keeps : ∀ place < stage.context.events.size, shift place = image place)
    (interspersed : Interspersed shift after.events others)
    (inside : ∀ place ∈ aside, place < others.size)
    (between : ∀ place ∈ aside, ∀ before < after.events.size, shift before ≠ place) :
    Beside shift aside (stage.next call handle after)
      (other.next call (handle.moved shift) { after with events := others }) where
  handles_eq := by
    rw [Stage.next, Stage.next, Handle.named_moved, beside.handles_eq, beside.length_eq]
  length_eq := by
    rw [Stage.next, Stage.next, Handle.place_moved, List.length_append, List.length_append,
      beside.length_eq]
    cases handle.place? <;> rfl
  context_eq := rfl
  interspersed := interspersed
  inside := inside
  between := between
  placed number member := by
    rcases mem_next member with old | ⟨rfl, place, named⟩
    · rcases sound.held old with ⟨within, inside⟩
      rw [place_next within, place_next (beside.length_eq ▸ within), keeps _ inside]
      exact beside.placed number old
    · have moved : (handle.moved shift).place? = some (shift place) := by
        rw [Handle.place_moved, named]
        rfl
      have reached := @place_next_self other call (handle.moved shift)
        { after with events := others } _ moved
      rw [beside.length_eq] at reached
      rw [place_next_self named, reached]

/-- The call can be made in the other stage too, and leads to a stage beside the one that it leads
to here. -/
def Mirrors (aside : List Nat) (stage other : Stage) (call : Call) (handle : Handle)
    (after : Context) : Prop :=
  ∃ shift others,
    (call.via other.place).perform.run other.context =
      .ok (handle.moved shift, { after with events := others }) ∧
    Beside shift aside (stage.next call handle after)
      (other.next call (handle.moved shift) { after with events := others })

/-- Where both records have become longer, nothing that stands aside is touched. -/
theorem mirrors_of_extend (beside : Beside image aside stage other) (sound : stage.Sound)
    {others : Array Event}
    (run : (call.via other.place).perform.run other.context =
      .ok (handle.moved (extend image stage.context.events.size other.context.events.size),
        { after with events := others }))
    (interspersed : Interspersed
      (extend image stage.context.events.size other.context.events.size) after.events others)
    (longer : other.context.events.size ≤ others.size) :
    Mirrors aside stage other call handle after := by
  refine ⟨_, others, run, beside.next sound (fun place inside => extend_of_lt inside _)
    interspersed ?_ ?_⟩
  · exact fun place member => Nat.lt_of_lt_of_le (beside.inside place member) longer
  · exact fun place member before _ =>
      Event.extend_ne (beside.inside place member) (beside.between place member) before

/-- Where the first record becomes no longer, the places that its events have in the other one stay. -/
theorem mirrors_of_shorter (beside : Beside image aside stage other) (sound : stage.Sound)
    {others : Array Event}
    (run : (call.via other.place).perform.run other.context =
      .ok (handle.moved image, { after with events := others }))
    (interspersed : Interspersed image after.events others)
    (shorter : after.events.size ≤ stage.context.events.size)
    (inside : ∀ place ∈ aside, place < others.size) :
    Mirrors aside stage other call handle after :=
  ⟨image, others, run, beside.next sound (fun _ _ => rfl) interspersed inside
    fun place member before within =>
      beside.between place member before (Nat.lt_of_lt_of_le within shorter)⟩

/-- The call has the same effect in both stages. -/
theorem effect (beside : Beside image aside stage other) (sound : stage.Sound)
    (effect : Effect stage call handle after) : Mirrors aside stage other call handle after := by
  cases effect with
  | @adds _ _ _ added adding same fits adds =>
      refine beside.mirrors_of_extend sound ?_ (same ▸ beside.interspersed.append adds.plain) ?_
      · rw [adding.via, fits.moved (extend_size _ _ _)]
        exact beside.run (adds.run _)
      · rw [Array.size_append]
        exact Nat.le_add_right _ _
  | @completes number held symbol =>
      have found := (sound.opened number held).2
      have inside := (Array.getElem?_eq_some_iff.mp found).1
      have stands := beside.interspersed.blank_stands found
      have placed := beside.placed number (Or.inl held)
      refine beside.mirrors_of_extend sound ?_ (beside.interspersed.complete inside) ?_
      · rw [Handle.moved, extend_of_lt inside, ← placed]
        rw [← placed, blank] at stands
        exact beside.run (run_map_of_ok _
          (Parsing.run_complete_record stands stage.context symbol))
      · rw [Array.size_push, Array.size_setIfInBounds]
        exact Nat.le_succ _
  | @abandons number held spared =>
      have found := (sound.opened number held).2
      have inside := (Array.getElem?_eq_some_iff.mp found).1
      have placed := beside.placed number (Or.inl held)
      refine beside.mirrors_of_shorter sound ?_ (beside.interspersed.abandon found spared) ?_ ?_
      · rw [Handle.moved, ← placed]
        exact beside.run (run_map_of_ok _ (Parsing.run_abandon_record stage.context _ _))
      · dsimp only
        split
        · rw [Array.size_pop]
          omega
        · exact Nat.le_refl _
      · intro place member
        have within := beside.inside place member
        have elsewhere := beside.between place member (stage.place number) inside
        split
        · rw [Array.size_pop]
          omega
        · exact within
  | @precedes number event held found complete =>
      rcases beside.interspersed.stands _ event found with ⟨wrapper, _, stands⟩
      have placed := beside.placed number (Or.inr held)
      refine beside.mirrors_of_extend sound ?_ (beside.interspersed.precede found complete) ?_
      · have run := Parsing.run_precede_record stands (complete.withWrapper wrapper).ne_closing
          stage.context
        rw [Event.withWrapper_withWrapper] at run
        rw [Handle.moved, extend_size]
        rw [← placed] at run ⊢
        exact beside.run (run_map_of_ok Handle.opened run)
      · rw [Array.size_setIfInBounds, Array.size_push]
        exact Nat.le_succ _
  | @retags _ number event change keeps held found complete retags run =>
      have inside := (Array.getElem?_eq_some_iff.mp found).1
      rcases beside.interspersed.stands _ event found with ⟨wrapper, link, stands⟩
      have placed := beside.placed number (Or.inr held)
      refine beside.mirrors_of_shorter sound ?_ (beside.interspersed.set inside
        (link.replace (retags.wrapper_eq event) (retags.complete event))) ?_ ?_
      · rw [← placed] at stands ⊢
        rw [← retags.withWrapper_eq]
        exact beside.run (run other.place _ stage.context _ stands (complete.withWrapper wrapper))
      · rw [Array.size_setIfInBounds]
      · intro place member
        rw [Array.size_setIfInBounds]
        exact beside.inside place member

/-- The calls lead on from both stages. -/
theorem leads (beside : Beside image aside stage other) (sound : stage.Sound)
    (leads : stage.Leads calls last) :
    ∃ shift final, other.Leads calls final ∧ Beside shift aside last final := by
  induction leads generalizing image other with
  | done => exact ⟨image, other, .done, beside⟩
  | @call stage last call calls handle after allowed spared run _ ih =>
      have done := sound.effect allowed spared run
      rcases beside.effect sound done with ⟨shift, others, otherRun, next⟩
      rcases ih next (done.sound sound) with ⟨shift, final, rest, kept⟩
      refine ⟨shift, final, .call ?_ (beside.spares sound allowed spared) otherRun rest, kept⟩
      rw [beside.handles_eq]
      exact allowed

/-- A node that is opened around a complete one stands aside. -/
theorem precede (sound : stage.Sound) (held : ⟨number⟩ ∈ stage.handles.complete)
    (unwrapped : ∀ event, stage.context.events[stage.place number]? = some event →
      event.wrapper? = none) :
    ∃ wrapper preceded,
      (Parsing.precede ⟨stage.place number⟩).run stage.context = .ok (wrapper, preceded) ∧
      Beside id [wrapper.place] stage { stage with context := preceded } := by
  rcases sound.complete number held with ⟨_, event, found, complete⟩
  have own := unwrapped event found
  have run := Parsing.run_precede_record found complete.ne_closing stage.context
  refine ⟨⟨stage.context.events.size⟩, _, run, ?_⟩
  exact
    { handles_eq := rfl
      length_eq := rfl
      context_eq := rfl
      interspersed := (Event.interspersed_refl sound.linked).wrap found own complete
      placed := fun _ _ => rfl
      inside := fun place member => by
        obtain rfl := List.mem_singleton.mp member
        dsimp only
        rw [Array.size_setIfInBounds, Array.size_push]
        exact Nat.lt_succ_self _
      between := fun place member before inside => by
        obtain rfl := List.mem_singleton.mp member
        exact Nat.ne_of_lt inside }

/-- A node that stands aside is given up. -/
theorem abandon {wrapper : OpenNode} (beside : Beside image [wrapper.place] stage other)
    (spared : other.context.Spares (.abandon wrapper)) :
    ∃ abandoned, (Parsing.abandon wrapper).run other.context = .ok ((), abandoned) ∧
      Beside image [] stage { other with context := abandoned } := by
  have run := Parsing.run_abandon_record stage.context other.context.events wrapper.place
  refine ⟨_, beside.run run, ?_⟩
  have apart := beside.between wrapper.place (List.mem_singleton_self _)
  exact
    { handles_eq := beside.handles_eq
      length_eq := beside.length_eq
      context_eq := rfl
      interspersed := by
        dsimp only
        split
        · rename_i last
          exact beside.interspersed.pop_right last apart (spared last)
        · exact beside.interspersed
      placed := beside.placed
      inside := nofun
      between := nofun }

end Beside

/-- A node is opened around a complete one that is not to be wrapped yet, and given up at any later
time: the calls in between and afterwards can be made all the same, and come to the same parse but
for the record, and the parser to the same tree. It has no fault but a scan that does not end.

This needs that no node that is given up, neither this one nor any other, takes away the opening in
which another node is to be wrapped. -/
theorem tree_of_detour {context : Context} {before middle later : List Call} {kept : Stage}
    (fresh : context.events = #[]) (reached : (begin context).Leads before stage)
    (held : ⟨number⟩ ∈ stage.handles.complete)
    (unwrapped : ∀ event, stage.context.events[stage.place number]? = some event →
      event.wrapper? = none)
    (first : stage.Leads middle kept) (second : kept.Leads later last) :
    ∃ wrapper preceded other,
      (Parsing.precede ⟨stage.place number⟩).run stage.context = .ok (wrapper, preceded) ∧
      Leads { stage with context := preceded } middle other ∧
      (other.context.Spares (.abandon wrapper) →
        ∃ abandoned final,
          (Parsing.abandon wrapper).run other.context = .ok ((), abandoned) ∧
          Leads { other with context := abandoned } later final ∧
          final.context = { last.context with events := final.context.events } ∧
          final.context.tree? = last.context.tree? ∧
          ∀ fault, final.context.tree? = .error fault → fault = .endless) := by
  have sound := reached.sound (sound_begin fresh)
  have keptSound := first.sound sound
  rcases Beside.precede sound held unwrapped with ⟨wrapper, preceded, run, aside⟩
  rcases aside.leads sound first with ⟨_, other, between, beside⟩
  refine ⟨wrapper, preceded, other, run, between, fun spared => ?_⟩
  rcases beside.abandon spared with ⟨abandoned, gaveUp, onward⟩
  rcases onward.leads keptSound second with ⟨_, final, rest, alike⟩
  rcases alike.interspersed.tree_eq (second.sound keptSound).linked with ⟨same, faultless⟩
  rw [← alike.context_eq] at same
  refine ⟨abandoned, final, gaveUp, rest, alike.context_eq, same, fun fault failed => ?_⟩
  exact faultless fault (same.symm.trans failed)

/-- A node around the number of a sum is given up when the sign has been added. -/
theorem tree_of_detour_sum :
    let context := Parser.new.begun (Language.arithmetic 0) #[49, 43] none
    let before : List Call := [.start, .start, .bump, .complete ⟨1⟩ Arithmetic.expressionSymbol]
    ∃ stage kept last other final wrapper preceded abandoned,
      context.events = #[] ∧ (begin context).Leads before stage ∧
      ⟨2⟩ ∈ stage.handles.complete ∧
      (∀ event, stage.context.events[stage.place 2]? = some event → event.wrapper? = none) ∧
      stage.Leads [.bump] kept ∧ kept.Leads [.complete ⟨0⟩ Arithmetic.sum] last ∧
      (Parsing.precede ⟨stage.place 2⟩).run stage.context = .ok (wrapper, preceded) ∧
      Leads { stage with context := preceded } [.bump] other ∧
      other.context.Spares (.abandon wrapper) ∧
      (Parsing.abandon wrapper).run other.context = .ok ((), abandoned) ∧
      Leads { other with context := abandoned } [.complete ⟨0⟩ Arithmetic.sum] final ∧
      final.context = { last.context with events := final.context.events } ∧
      final.context.tree? = last.context.tree? ∧
      ∀ fault, final.context.tree? = .error fault → fault = .endless := by
  intro context before
  have checked : ((begin context).follow? before).any (fun stage =>
      decide (⟨2⟩ ∈ stage.handles.complete) &&
      decide (stage.context.events[stage.place 2]?.bind Event.wrapper? = none) &&
      (stage.follow? [.bump]).any (fun kept =>
        (kept.follow? [.complete ⟨0⟩ Arithmetic.sum]).isSome) &&
      ((Parsing.precede ⟨stage.place 2⟩).run stage.context).toOption.any fun opened =>
        (follow? { stage with context := opened.2 } [.bump]).any fun other =>
          decide (other.context.Spares (.abandon opened.1))) = true := by
    decide +kernel
  simp only [Option.any_eq_true, Bool.and_eq_true, decide_eq_true_eq, Option.isSome_iff_exists]
    at checked
  rcases checked with ⟨stage, reached, ⟨⟨held, plain⟩, kept, first, last, second⟩, opened, run,
    _, follows, spared⟩
  have unwrapped (event : Event) (found : stage.context.events[stage.place 2]? = some event) :
      event.wrapper? = none := by
    rw [found] at plain
    exact plain
  have reached := leads_iff.mpr reached
  have first := leads_iff.mpr first
  have second := leads_iff.mpr second
  rcases tree_of_detour rfl reached held unwrapped first second with
    ⟨wrapper, preceded, other, opens, between, rest⟩
  rw [opens] at run
  cases run
  have spared : other.context.Spares (.abandon wrapper) := by
    rw [leads_iff.mp between] at follows
    cases follows
    exact spared
  rcases rest spared with ⟨abandoned, final, gaveUp, onward, same, tree⟩
  exact ⟨stage, kept, last, other, final, wrapper, preceded, abandoned, rfl, reached, held,
    unwrapped, first, second, opens, between, spared, gaveUp, onward, same, tree⟩

/-- Given up at once, the same node takes its opening away, but the number is still to be wrapped in
it: the sign takes the place of the wrapper, and no tree is built. -/
theorem detour_leaves_wrapper :
    let context := Parser.new.begun (Language.arithmetic 0) #[49, 43] none
    let before : List Call := [.start, .start, .bump, .complete ⟨1⟩ Arithmetic.expressionSymbol]
    let later : List Call := [.bump, .complete ⟨0⟩ Arithmetic.sum]
    ∃ stage last final wrapper preceded abandoned,
      context.events = #[] ∧ (begin context).Leads before stage ∧
      ⟨2⟩ ∈ stage.handles.complete ∧
      (∀ event, stage.context.events[stage.place 2]? = some event → event.wrapper? = none) ∧
      stage.Leads later last ∧ last.context.tree?.isOk = true ∧
      (Parsing.precede ⟨stage.place 2⟩).run stage.context = .ok (wrapper, preceded) ∧
      (Parsing.abandon wrapper).run preceded = .ok ((), abandoned) ∧
      Leads { stage with context := abandoned } later final ∧
      final.context.tree? = .error .notOpen := by
  intro context before later
  have checked : ((begin context).follow? before).any (fun stage =>
      decide (⟨2⟩ ∈ stage.handles.complete) &&
      decide (stage.context.events[stage.place 2]?.bind Event.wrapper? = none) &&
      (stage.follow? later).any (fun last => last.context.tree?.isOk) &&
      ((Parsing.precede ⟨stage.place 2⟩).run stage.context).toOption.any fun opened =>
        ((Parsing.abandon opened.1).run opened.2).toOption.any fun gaveUp =>
          (follow? { stage with context := gaveUp.2 } later).any fun final =>
            decide (final.context.tree?.map (fun _ => ()) = .error .notOpen)) = true := by
    decide +kernel
  have ok {α : Type} {result : Except Fault α} {value : α}
      (present : result.toOption = some value) : result = .ok value := by
    cases result with
    | error fault => cases present
    | ok other =>
        cases present
        rfl
  simp only [Option.any_eq_true, Bool.and_eq_true, decide_eq_true_eq] at checked
  rcases checked with ⟨stage, reached, ⟨⟨held, plain⟩, last, straight, built⟩,
    ⟨wrapper, preceded⟩, opens, ⟨_, abandoned⟩, gaveUp, final, onward, failed⟩
  have unwrapped (event : Event) (found : stage.context.events[stage.place 2]? = some event) :
      event.wrapper? = none := by
    rw [found] at plain
    exact plain
  have fails : final.context.tree? = .error .notOpen := by
    cases tree : final.context.tree? with
    | error fault =>
        rw [tree] at failed
        cases failed
        rfl
    | ok built =>
        rw [tree] at failed
        cases failed
  exact ⟨stage, last, final, wrapper, preceded, abandoned, rfl, leads_iff.mpr reached, held,
    unwrapped, leads_iff.mpr straight, built, ok opens, ok gaveUp, leads_iff.mpr onward, fails⟩

end Stage

end Reparse
