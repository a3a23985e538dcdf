import Reparse.Parse.Event

/-!
# What a stretch of events folds to

A stretch of the record of a parse yields trees if the fold passes over it with no other effect than
adding them (`Event.Yields`), whatever stands before and behind it. Stretches that yield trees may
be put together.

A stretch around a complete node is a stem (`Event.Stem`): the event that stands for the node may
still be given a field, and a wrapper behind the stretch that opens before everything in it. A stem
that is wrapped, with what was added since, is a stem of the wrapper (`Event.Stem.wrap`), so the
chains of wrappers that a parser builds are met one wrapper at a time.
-/

namespace Reparse

namespace Event

variable {vocabulary : Vocabulary} {events other after : Array Event} {index place : Nat}

/-! ## Events at a place -/

section Found

variable {event next : Event}

theorem found_push (found : events[place]? = some event) :
    (events.push next)[place]? = some event := by
  rw [Array.getElem?_push_lt (Array.getElem?_eq_some_iff.mp found).1]
  exact congrArg some (Array.getElem?_eq_some_iff.mp found).2

theorem getElem?_append_of_found {added : Array Event} (found : events[place]? = some event) :
    (events ++ added)[place]? = some event := by
  rw [Array.getElem?_append_left (Array.getElem?_eq_some_iff.mp found).1, found]

theorem getElem?_set_of_found (found : events[place]? = some event) :
    (events.setIfInBounds place next)[place]? = some next :=
  Array.getElem?_setIfInBounds_self_of_lt (Array.getElem?_eq_some_iff.mp found).1

theorem setIfInBounds_of_found (found : events[place]? = some event) :
    events.setIfInBounds place event = events := by
  refine Array.ext_getElem? fun index => ?_
  by_cases here : place = index
  · subst here
    rw [getElem?_set_of_found found, found]
  · rw [Array.getElem?_setIfInBounds_ne here]

end Found

/-! ## Stretches of an array -/

/-- The events stand in an array from an index on. -/
def Holds (events : Array Event) (index : Nat) (block : List Event) : Prop :=
  ∀ step, step < block.length → events[index + step]? = block[step]?

/-- Two arrays have the same events from an index on. -/
def AlikeFrom (events other : Array Event) (index : Nat) : Prop :=
  ∀ place, index ≤ place → other[place]? = events[place]?

theorem holds_append {left right : List Event} :
    Holds events index (left ++ right) ↔
      Holds events index left ∧ Holds events (index + left.length) right := by
  constructor
  · intro holds
    constructor
    · intro step inside
      rw [holds step (by simp; omega), List.getElem?_append_left inside]
    · intro step inside
      have here := holds (left.length + step) (by simp; omega)
      rw [List.getElem?_append_right (by omega), Nat.add_sub_cancel_left] at here
      rw [← here, Nat.add_assoc]
  · rintro ⟨first, second⟩ step inside
    by_cases early : step < left.length
    · rw [first step early, List.getElem?_append_left early]
    · have place : index + left.length + (step - left.length) = index + step := by omega
      have inRight : step - left.length < right.length := by
        simp only [List.length_append] at inside
        omega
      have here := second (step - left.length) inRight
      rw [place] at here
      rw [here, List.getElem?_append_right (by omega)]

theorem holds_cons {event : Event} {block : List Event} :
    Holds events index (event :: block) ↔
      events[index]? = some event ∧ Holds events (index + 1) block := by
  rw [← List.singleton_append, holds_append]
  constructor
  · rintro ⟨first, rest⟩
    exact ⟨first 0 (by simp), rest⟩
  · rintro ⟨first, rest⟩
    refine ⟨fun step inside => ?_, rest⟩
    obtain rfl : step = 0 := by simpa using inside
    exact first

theorem Holds.alike {start : Nat} {block : List Event} (holds : Holds events index block)
    (alike : AlikeFrom events other start) (behind : start ≤ index) : Holds other index block := by
  intro step inside
  rw [alike (index + step) (by omega)]
  exact holds step inside

theorem Holds.congr {block : List Event} (holds : Holds events index block)
    (same : ∀ place, index ≤ place → place < index + block.length →
      other[place]? = events[place]?) : Holds other index block := by
  intro step inside
  rw [same (index + step) (by omega) (by omega)]
  exact holds step inside

/-- Where a stretch stands, one of its events can be replaced. -/
theorem Holds.set {before behind : List Event} {event : Event}
    (holds : Holds events index (before ++ event :: behind)) (replaced : Event) :
    Holds (events.setIfInBounds (index + before.length) replaced) index
      (before ++ replaced :: behind) := by
  rcases holds_append.mp holds with ⟨onBefore, onRest⟩
  rcases holds_cons.mp onRest with ⟨found, onBehind⟩
  refine holds_append.mpr ⟨onBefore.congr fun place _ inside => ?_, holds_cons.mpr ⟨?_, ?_⟩⟩
  · rw [Array.getElem?_setIfInBounds_ne (by omega)]
  · exact getElem?_set_of_found found
  · refine onBehind.congr fun place behindAll _ => ?_
    rw [Array.getElem?_setIfInBounds_ne (by omega)]

theorem AlikeFrom.trans {further : Nat} (first : AlikeFrom events other index)
    (second : AlikeFrom other after further) (le : index ≤ further) :
    AlikeFrom events after further := by
  intro place behind
  rw [second place behind, first place (by omega)]

theorem AlikeFrom.refl : AlikeFrom events events index := fun _ _ => rfl

section Middle

variable {front back : List Event} {event : Event}

theorem getElem_middle : (front ++ event :: back)[front.length]? = some event := by simp

theorem set_middle (other : Event) :
    (front ++ event :: back).set front.length other = front ++ other :: back := by simp

end Middle

/-! ## Following wrappers -/

/-- The openings that were found before stay behind the ones that are found. -/
theorem followWrappers_append {inner openings : List Opening} {wrapper : Option Nat}
    (followed : followWrappers events index inner wrapper = .ok (after, openings))
    (more : List Opening) :
    followWrappers events index (inner ++ more) wrapper = .ok (after, openings ++ more) := by
  fun_induction followWrappers events index inner wrapper with
  | case1 =>
      cases followed
      rw [followWrappers]
  | case2 => cases followed
  | case3 events index inner distance target symbol wrapper field state found opened further ih =>
      rw [followWrappers]
      simp only [target] at found further
      simp only [found, further, and_self, if_true]
      exact ih followed
  | case4 events index inner distance target symbol wrapper field state found opened stuck =>
      simp only [Except.ok.injEq, Prod.mk.injEq] at followed
      rcases followed with ⟨rfl, same⟩
      rw [followWrappers, ← same]
      simp only [target] at found stuck
      simp only [found, stuck, if_false]
      rfl
  | case5 => cases followed

/-- Following wrappers changes nothing in front of the first of them. -/
theorem followWrappers_before {inner openings : List Opening} {wrapper : Option Nat}
    (followed : followWrappers events index inner wrapper = .ok (after, openings))
    (before : ∀ distance, wrapper = some distance → place < index + distance) :
    after[place]? = events[place]? := by
  fun_induction followWrappers events index inner wrapper with
  | case1 =>
      cases followed
      rfl
  | case2 => cases followed
  | case3 events index inner distance target symbol wrapper field state found opened further ih =>
      have first := before distance rfl
      rw [ih followed fun distance _ => by omega, Array.getElem?_setIfInBounds_ne (by omega)]
  | case4 =>
      simp only [Except.ok.injEq, Prod.mk.injEq] at followed
      rw [followed.1]
  | case5 => cases followed

/-- An event in front of all wrappers has no part in following them. -/
theorem followWrappers_blank {inner openings : List Opening} {wrapper : Option Nat}
    (followed : followWrappers events index inner wrapper = .ok (after, openings))
    (before : ∀ distance, wrapper = some distance → place < index + distance) :
    followWrappers (events.setIfInBounds place blank) index inner wrapper =
      .ok (after.setIfInBounds place blank, openings) := by
  fun_induction followWrappers events index inner wrapper with
  | case1 =>
      cases followed
      rw [followWrappers]
  | case2 => cases followed
  | case3 events index inner distance target symbol wrapper field state found opened further ih =>
      have first := before distance rfl
      rw [followWrappers]
      simp only [target] at found further
      rw [Array.getElem?_setIfInBounds_ne (by omega)]
      simp only [found, further, Array.size_setIfInBounds, and_self, if_true]
      rw [Array.setIfInBounds_comm _ _ (by omega)]
      exact ih followed fun distance _ => by omega
  | case4 events index inner distance target symbol wrapper field state found opened stuck =>
      have first := before distance rfl
      simp only [Except.ok.injEq, Prod.mk.injEq] at followed
      rcases followed with ⟨rfl, same⟩
      rw [followWrappers, ← same]
      simp only [target] at found stuck
      rw [Array.getElem?_setIfInBounds_ne (by omega)]
      simp only [found, stuck, Array.size_setIfInBounds, if_false]
      rfl
  | case5 => cases followed

/-- A wrapper further on is blanked when it is followed, and so are those that are found from it. -/
theorem followWrappers_some {distance field state : Nat} {symbol wrapper : Option Nat}
    {openings : List Opening} (positive : 0 < distance)
    (found : events[index + distance]? = some (opening symbol wrapper field state))
    (followed : followWrappers events (index + distance) [] wrapper = .ok (after, openings))
    (further : ∀ distance, wrapper = some distance → 0 < distance) :
    followWrappers events index [] (some distance) =
      .ok (after.setIfInBounds (index + distance) blank,
        openings ++ [⟨symbol, field, state⟩]) := by
  have inside : index + distance < events.size := (Array.getElem?_eq_some_iff.mp found).1
  rw [followWrappers]
  simp only [found]
  rw [if_pos ⟨by omega, inside⟩]
  apply followWrappers_blank (followWrappers_append followed _)
  intro distance given
  have := further distance given
  omega

/-- Following wrappers blanks events and changes nothing else. -/
theorem mem_of_followWrappers {inner openings : List Opening} {wrapper : Option Nat}
    (followed : followWrappers events index inner wrapper = .ok (after, openings)) {event : Event}
    (member : event ∈ after) : event ∈ events ∨ event = blank := by
  fun_induction followWrappers events index inner wrapper with
  | case1 =>
      cases followed
      exact Or.inl member
  | case2 => cases followed
  | case3 events index inner distance target symbol wrapper field state found opened further ih =>
      rcases ih followed with old | new
      · exact Array.mem_or_eq_of_mem_setIfInBounds old
      · exact Or.inr new
  | case4 =>
      simp only [Except.ok.injEq, Prod.mk.injEq] at followed
      rw [← followed.1] at member
      exact Or.inl member
  | case5 => cases followed

/-! ## Single events -/

section Single

variable {folding : Folding} {count : Nat}

theorem foldFrom_closing (found : events[index]? = some closing) :
    foldFrom vocabulary events index folding (count + 1) =
      foldFrom vocabulary events (index + 1) (folding.closeNode vocabulary) count := by
  rw [foldFrom, found]

theorem foldFrom_blank (found : events[index]? = some blank) :
    foldFrom vocabulary events index folding (count + 1) =
      foldFrom vocabulary events (index + 1) folding count := by
  rw [foldFrom, found]
  rfl

theorem foldFrom_opening {symbol field state : Nat} {wrapper : Option Nat}
    {openings : List Opening}
    (found : events[index]? = some (opening (some symbol) wrapper field state))
    (followed : followWrappers events index [] wrapper = .ok (after, openings)) :
    foldFrom vocabulary events index folding (count + 1) =
      foldFrom vocabulary after (index + 1)
        ((openings.foldl Folding.openNode folding).openNode ⟨some symbol, field, state⟩) count := by
  have all := followWrappers_append followed [⟨some symbol, field, state⟩]
  rw [List.nil_append] at all
  rw [foldFrom, found]
  simp only [all, List.foldl_append, List.foldl_cons, List.foldl_nil]

theorem foldFrom_added {tree : Tree} {field : Nat} {wrapper : Option Nat}
    {openings : List Opening} (found : events[index]? = some (added tree wrapper field))
    (followed : followWrappers events index [] wrapper = .ok (after, openings)) :
    foldFrom vocabulary events index folding (count + 1) =
      foldFrom vocabulary after (index + 1)
        ((openings.foldl Folding.openNode folding).add ⟨field, tree⟩) count := by
  rw [foldFrom, found]
  simp only [followed]

theorem followWrappers_none (inner : List Opening) :
    followWrappers events index inner none = .ok (events, inner) := by
  rw [followWrappers]

end Single

/-! ## Stretches that yield trees -/

/-- The fold passes over the stretch and adds the trees. -/
def Yields (vocabulary : Vocabulary) (block : List Event) (items : List (Edge Tree)) : Prop :=
  ∀ events index folding count, Holds events index block →
    ∃ after, AlikeFrom events after (index + block.length) ∧
      foldFrom vocabulary events index folding (block.length + count) =
        foldFrom vocabulary after (index + block.length) (items.foldl Folding.add folding) count

theorem yields_nil : Yields vocabulary [] [] := by
  intro events index folding count _
  refine ⟨events, AlikeFrom.refl, ?_⟩
  simp

theorem Yields.append {left right : List Event} {leftItems rightItems : List (Edge Tree)}
    (first : Yields vocabulary left leftItems) (second : Yields vocabulary right rightItems) :
    Yields vocabulary (left ++ right) (leftItems ++ rightItems) := by
  intro events index folding count holds
  rcases holds_append.mp holds with ⟨onLeft, onRight⟩
  rcases first events index folding (right.length + count) onLeft with ⟨between, same, passed⟩
  rcases second between (index + left.length) (leftItems.foldl Folding.add folding) count
    (onRight.alike same (Nat.le_refl _)) with ⟨after, sameAfter, passedAfter⟩
  have length : (left ++ right).length + count = left.length + (right.length + count) := by
    simp
    omega
  have stop : index + (left ++ right).length = index + left.length + right.length := by
    simp
    omega
  refine ⟨after, ?_, ?_⟩
  · rw [stop]
    exact same.trans sameAfter (by omega)
  · rw [length, passed, passedAfter, stop, List.foldl_append]

theorem yields_added (tree : Tree) (field : Nat) :
    Yields vocabulary [added tree none field] [⟨field, tree⟩] := by
  intro events index folding count holds
  have found := (holds_cons.mp holds).1
  refine ⟨events, AlikeFrom.refl, ?_⟩
  have length : [added tree none field].length + count = count + 1 := by simp; omega
  rw [length, foldFrom_added found (followWrappers_none [])]
  rfl

theorem yields_blank : Yields vocabulary [blank] [] := by
  intro events index folding count holds
  have found := (holds_cons.mp holds).1
  refine ⟨events, AlikeFrom.refl, ?_⟩
  have length : [blank].length + count = count + 1 := by simp; omega
  rw [length, foldFrom_blank found]
  rfl

/-- A blank opening between two stretches adds nothing. -/
theorem Yields.gap {left right : List Event} {leftItems rightItems : List (Edge Tree)}
    (first : Yields vocabulary left leftItems) (second : Yields vocabulary right rightItems) :
    Yields vocabulary (left ++ blank :: right) (leftItems ++ rightItems) :=
  first.append (yields_blank.append second)

theorem foldl_add_finished (items found : List (Edge Tree)) :
    items.foldl Folding.add ⟨[], found⟩ = ⟨[], items.reverse ++ found⟩ := by
  induction items generalizing found with
  | nil => rfl
  | cons edge rest ih =>
      rw [List.foldl_cons, List.reverse_cons, List.append_assoc]
      exact ih _

theorem foldl_add_frame (symbol field state : Nat) (frames : List Frame)
    (finished items children : List (Edge Tree)) :
    items.foldl Folding.add ⟨⟨symbol, field, state, children⟩ :: frames, finished⟩ =
      ⟨⟨symbol, field, state, items.reverse ++ children⟩ :: frames, finished⟩ := by
  induction items generalizing children with
  | nil => rfl
  | cons edge rest ih =>
      rw [List.foldl_cons, List.reverse_cons, List.append_assoc]
      exact ih _

/-- A fold over a whole record that yields trees comes to these trees. -/
theorem Yields.fold {items : List (Edge Tree)} (yields : Yields vocabulary events.toList items) :
    fold? vocabulary events = .ok items := by
  have holds : Holds events 0 events.toList := by
    intro step inside
    simp
  rcases yields events 0 ⟨[], []⟩ 0 holds with ⟨after, _, passed⟩
  unfold fold?
  rw [Nat.add_zero, Array.length_toList] at passed
  rw [passed, foldFrom, foldl_add_finished]
  simp

/-! ## Stems -/

/-- The node that is built around items. -/
def built (vocabulary : Vocabulary) (symbol state : Nat) (items : List (Edge Tree)) : Tree :=
  if symbol = errorSymbol then Tree.error items
  else Tree.branch symbol state (vocabulary.kind symbol) items

/-- An event with another wrapper and another field. -/
def wrapped (wrapper : Option Nat) (field : Nat) : Event → Event
  | opening symbol _ _ state => opening symbol wrapper field state
  | added tree _ _ => added tree wrapper field
  | closing => closing

@[simp]
theorem wrapped_opening (symbol other wrapper : Option Nat) (otherField field state : Nat) :
    wrapped wrapper field (opening symbol other otherField state) =
      opening symbol wrapper field state := rfl

@[simp]
theorem wrapped_added (tree : Tree) (other wrapper : Option Nat) (otherField field : Nat) :
    wrapped wrapper field (added tree other otherField) = added tree wrapper field := rfl

/-- A stretch around a complete node: whatever field its event `top` is given and whichever wrapper
behind the stretch, the fold opens the wrappers and adds the tree. -/
def Stem (vocabulary : Vocabulary) (front : List Event) (top : Event) (back : List Event)
    (tree : Tree) : Prop :=
  ∀ events index folding count wrapper field followed openings,
    Holds events index (front ++ wrapped wrapper field top :: back) →
    (∀ distance, wrapper = some distance → back.length < distance) →
    followWrappers events (index + front.length) [] wrapper = .ok (followed, openings) →
    ∃ after, AlikeFrom followed after (index + (front.length + (back.length + 1))) ∧
      foldFrom vocabulary events index folding (front.length + (back.length + 1) + count) =
        foldFrom vocabulary after (index + (front.length + (back.length + 1)))
          ((openings.foldl Folding.openNode folding).add ⟨field, tree⟩) count

theorem stem_added (tree : Tree) : Stem vocabulary [] (added tree none 0) [] tree := by
  intro events index folding count wrapper field followed openings holds _ follow
  have found := (holds_cons.mp holds).1
  refine ⟨followed, AlikeFrom.refl, ?_⟩
  have length : ([] : List Event).length + (([] : List Event).length + 1) + count = count + 1 := by
    simp
    omega
  rw [length, foldFrom_added found follow]
  rfl

/-- Where a stem is given no wrapper, it yields its tree in the field that it is given. -/
theorem Stem.yields {front back : List Event} {top : Event} {tree : Tree}
    (stem : Stem vocabulary front top back tree) (field : Nat) :
    Yields vocabulary (front ++ wrapped none field top :: back) [⟨field, tree⟩] := by
  intro events index folding count holds
  rcases stem events index folding count none field events [] holds nofun
    (followWrappers_none []) with ⟨after, same, passed⟩
  have length : (front ++ wrapped none field top :: back).length =
      front.length + (back.length + 1) := by simp
  rw [length]
  exact ⟨after, same, passed⟩

/-- Behind the opening of a node come its items and its end. -/
theorem Yields.close {inner : List Event} {items : List (Edge Tree)} (symbol field state : Nat)
    (yields : Yields vocabulary inner items) (folding : Folding) (count : Nat)
    (holds : Holds events index (inner ++ [closing])) (children : List (Edge Tree)) :
    ∃ after, AlikeFrom events after (index + (inner.length + 1)) ∧
      foldFrom vocabulary events index
          ⟨⟨symbol, field, state, children.reverse⟩ :: folding.frames, folding.finished⟩
          (inner.length + 1 + count) =
        foldFrom vocabulary after (index + (inner.length + 1))
          (folding.add ⟨field, built vocabulary symbol state (children ++ items)⟩) count := by
  rcases holds_append.mp holds with ⟨onInner, onClosing⟩
  rcases yields events index
    ⟨⟨symbol, field, state, children.reverse⟩ :: folding.frames, folding.finished⟩ (count + 1)
    onInner with ⟨after, same, passed⟩
  have found := (holds_cons.mp (onClosing.alike same (Nat.le_refl _))).1
  have length : inner.length + 1 + count = inner.length + (count + 1) := by omega
  refine ⟨after, same.trans AlikeFrom.refl (by omega), ?_⟩
  rw [length, passed, foldl_add_frame, foldFrom_closing found]
  simp only [Folding.closeNode, Frame.close, List.reverse_append, List.reverse_reverse, built]
  rfl

theorem stem_opening {inner : List Event} {items : List (Edge Tree)} (symbol state : Nat)
    (yields : Yields vocabulary inner items) :
    Stem vocabulary [] (opening (some symbol) none 0 state) (inner ++ [closing])
      (built vocabulary symbol state items) := by
  intro events index folding count wrapper field followed openings holds beyond follow
  rcases holds_cons.mp holds with ⟨found, onRest⟩
  have kept : Holds followed (index + 1) (inner ++ [closing]) := by
    intro step inside
    rw [followWrappers_before follow]
    · exact onRest step inside
    · intro distance given
      have far := beyond distance given
      simp only [List.length_nil]
      omega
  have opened := @foldFrom_opening vocabulary _ _ _ folding (inner.length + 1 + count) _ _ _ _ _
    found follow
  generalize outer : openings.foldl Folding.openNode folding = base at opened ⊢
  rcases yields.close symbol field state base count kept [] with ⟨after, alike, passed⟩
  refine ⟨after, ?_, ?_⟩
  · intro place behind
    apply alike
    simp only [List.length_nil, List.length_append, List.length_singleton] at behind
    omega
  · have length : ([] : List Event).length + ((inner ++ [closing]).length + 1) + count =
        inner.length + 1 + count + 1 := by
      simp
      omega
    have stop : index + (([] : List Event).length + ((inner ++ [closing]).length + 1)) =
        index + 1 + (inner.length + 1) := by
      simp
      omega
    rw [length, opened, stop]
    exact passed

/-- A stem that is given a field and wrapped, with the items behind it, is a stem of the wrapper.
The opening of the wrapper may stand anywhere among these items: when the fold comes to it, it is
blank. -/
theorem Stem.wrap {front back before behind : List Event} {top : Event} {tree : Tree}
    {items : List (Edge Tree)} (stem : Stem vocabulary front top back tree)
    (yields : Yields vocabulary (before ++ blank :: behind) items) (symbol state field : Nat) :
    Stem vocabulary
      (front ++ wrapped (some (back.length + 1 + before.length)) field top :: back ++ before)
      (opening (some symbol) none 0 state) (behind ++ [closing])
      (built vocabulary symbol state (⟨field, tree⟩ :: items)) := by
  intro events index folding count wrapper outerField followed openings holds beyond follow
  rw [wrapped_opening, List.append_assoc] at holds
  rcases holds_append.mp holds with ⟨onStem, onRest⟩
  let reached := index + (front.length + (back.length + 1))
  have atReached : index + (front ++ wrapped (some (back.length + 1 + before.length)) field top ::
      back).length = reached := by
    simp only [List.length_append, List.length_cons, reached]
  have atWrapper : index + (front ++ wrapped (some (back.length + 1 + before.length)) field top ::
      back ++ before).length = reached + before.length := by
    simp only [List.length_append, List.length_cons, reached]
    omega
  have fromTop : index + front.length + (back.length + 1 + before.length) =
      reached + before.length := by
    simp only [reached]
    omega
  rw [atReached] at onRest
  rw [atWrapper] at follow
  have behindWrapper {distance : Nat} (given : wrapper = some distance) :
      behind.length + 1 < distance := by
    have far := beyond distance given
    simpa using far
  -- the wrapper is found from the stem, and those behind it from the wrapper
  have found := (holds_cons.mp (holds_append.mp onRest).2).1
  have step := @followWrappers_some events followed (index + front.length)
    (back.length + 1 + before.length) outerField state (some symbol) wrapper openings (by omega)
    (fromTop ▸ found) (fromTop ▸ follow) fun distance given => by
      have := behindWrapper given
      omega
  rw [fromTop] at step
  rcases stem events index folding ((before ++ blank :: behind).length + 1 + count) _ field _ _
    onStem (fun distance given => by cases given; omega) step with ⟨first, alikeFirst, passed⟩
  rw [List.foldl_append] at passed
  generalize outer : openings.foldl Folding.openNode folding = base at passed ⊢
  -- behind the stem stand the items, with the wrapper blanked
  have kept : Holds followed reached
      (before ++ opening (some symbol) wrapper outerField state :: (behind ++ [closing])) := by
    refine onRest.congr fun place _ inside => followWrappers_before follow fun distance given => ?_
    have := behindWrapper given
    simp only [List.length_append, List.length_cons, List.length_nil] at inside
    omega
  have onItems : Holds first reached ((before ++ blank :: behind) ++ [closing]) := by
    rw [List.append_assoc, List.cons_append]
    exact (kept.set blank).alike alikeFirst (Nat.le_refl _)
  rcases yields.close symbol outerField state base count onItems [⟨field, tree⟩]
    with ⟨second, alikeSecond, passedItems⟩
  have length : (front ++ wrapped (some (back.length + 1 + before.length)) field top :: back ++
      before).length + ((behind ++ [closing]).length + 1) + count =
      front.length + (back.length + 1) + ((before ++ blank :: behind).length + 1 + count) := by
    simp only [List.length_append, List.length_cons, List.length_nil]
    omega
  have stop : index + ((front ++ wrapped (some (back.length + 1 + before.length)) field top ::
      back ++ before).length + ((behind ++ [closing]).length + 1)) =
      reached + ((before ++ blank :: behind).length + 1) := by
    simp only [List.length_append, List.length_cons, List.length_nil, reached]
    omega
  rw [length, stop]
  refine ⟨second, fun spot behindAll => ?_, passed.trans passedItems⟩
  have far : reached + before.length < spot := by
    simp only [List.length_append, List.length_cons] at behindAll
    omega
  rw [alikeSecond _ behindAll, alikeFirst _ (by omega), Array.getElem?_setIfInBounds_ne (by omega)]

end Event

end Reparse
