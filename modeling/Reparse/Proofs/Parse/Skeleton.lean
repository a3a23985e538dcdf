import Reparse.Proofs.Parse.Draft

/-!
# How a draft lies in a record

The record of a parse is a list of events that carry tags (`Event.dress`). Whatever the tags are, it
lies along the draft that was built with the same calls (`Event.Lies`): the parts of the innermost
open node stand at the end of the record (`Event.Laid`), before them stands the opening of this node
if it was started, and what the node around it had before.

A node that was opened around a complete one has its opening somewhere among the parts behind that
node. There may be more such openings among them, all blank; one is filled in when its node is
completed, and by then the fold has passed it.
-/

namespace Reparse

namespace Event

variable {vocabulary : Vocabulary} {tags : Nat → Tag} {place : Nat} {event top : Event}
  {block left right front back record : List Event} {sketch : Sketch}
  {before parts inner : List Sketch} {around : List Level}

/-! ## Events and their tags -/

/-- An event that stands for a complete node. -/
inductive IsNode : Event → Prop where
  | opening (symbol : Nat) (wrapper : Option Nat) (field state : Nat) :
      IsNode (opening (some symbol) wrapper field state)
  | added (tree : Tree) (wrapper : Option Nat) (field : Nat) : IsNode (added tree wrapper field)

/-- The event with a tag, if it stands for a complete node. -/
def dressed (tag : Tag) : Event → Event
  | opening (some symbol) wrapper _ _ => opening (some symbol) wrapper tag.field tag.state
  | added tree wrapper _ => added tree wrapper tag.field
  | event => event

@[simp]
theorem dressed_blank (tag : Tag) : dressed tag blank = blank := rfl

@[simp]
theorem dressed_closing (tag : Tag) : dressed tag closing = closing := rfl

@[simp]
theorem dressed_added (tag : Tag) (tree : Tree) (wrapper : Option Nat) (field : Nat) :
    dressed tag (added tree wrapper field) = added tree wrapper tag.field := rfl

@[simp]
theorem dressed_opening (tag : Tag) (symbol : Nat) (wrapper : Option Nat) (field state : Nat) :
    dressed tag (opening (some symbol) wrapper field state) =
      opening (some symbol) wrapper tag.field tag.state := rfl

/-- The event with another wrapper. -/
def withWrapper (wrapper : Option Nat) : Event → Event
  | opening symbol _ field state => opening symbol wrapper field state
  | added tree _ field => added tree wrapper field
  | closing => closing

@[simp]
theorem withWrapper_opening (symbol other wrapper : Option Nat) (field state : Nat) :
    withWrapper wrapper (opening symbol other field state) = opening symbol wrapper field state :=
  rfl

@[simp]
theorem withWrapper_added (tree : Tree) (other wrapper : Option Nat) (field : Nat) :
    withWrapper wrapper (added tree other field) = added tree wrapper field := rfl

theorem IsNode.withWrapper (node : IsNode event) (wrapper : Option Nat) :
    IsNode (withWrapper wrapper event) := by
  cases node with
  | opening => exact .opening _ _ _ _
  | added => exact .added _ _ _

theorem IsNode.dressed (node : IsNode event) (tag : Tag) : IsNode (dressed tag event) := by
  cases node with
  | opening => exact .opening _ _ _ _
  | added => exact .added _ _ _

theorem IsNode.withWrapper_twice (node : IsNode event) (first second : Option Nat) :
    Event.withWrapper second (Event.withWrapper first event) = Event.withWrapper second event := by
  cases node <;> rfl

theorem IsNode.dressed_withWrapper (node : IsNode event) (tag : Tag) (wrapper : Option Nat) :
    Event.dressed tag (Event.withWrapper wrapper event) =
      Event.withWrapper wrapper (Event.dressed tag event) := by
  cases node <;> rfl

theorem IsNode.dressed_wrapped (node : IsNode event) (tag : Tag) (wrapper : Option Nat) :
    Event.dressed tag (Event.withWrapper wrapper event) =
      wrapped wrapper tag.field (Event.dressed tag event) := by
  cases node <;> rfl

/-- The events from a place on, each with the tag of its place. -/
def dress (tags : Nat → Tag) : Nat → List Event → List Event
  | _, [] => []
  | place, event :: rest => event.dressed (tags place) :: dress tags (place + 1) rest

@[simp]
theorem dress_nil : dress tags place [] = [] := rfl

@[simp]
theorem dress_cons (rest : List Event) :
    dress tags place (event :: rest) = event.dressed (tags place) :: dress tags (place + 1) rest :=
  rfl

@[simp]
theorem length_dress (block : List Event) : (dress tags place block).length = block.length := by
  induction block generalizing place with
  | nil => rfl
  | cons event rest ih => simp [ih]

@[simp]
theorem dress_append (left right : List Event) :
    dress tags place (left ++ right) =
      dress tags place left ++ dress tags (place + left.length) right := by
  induction left generalizing place with
  | nil => simp
  | cons event rest ih => simp [ih, Nat.add_assoc, Nat.add_comm 1]

theorem getElem?_dress (block : List Event) (step : Nat) :
    (dress tags place block)[step]? = block[step]?.map (dressed (tags (place + step))) := by
  induction block generalizing place step with
  | nil => simp
  | cons event rest ih =>
      cases step with
      | zero => simp
      | succ step => simp [ih, Nat.add_assoc, Nat.add_comm 1]

theorem dress_set (block : List Event) (step : Nat) (other : Event) (tag : Tag) :
    dress (Function.update tags (place + step) tag) place (block.set step other) =
      (dress tags place block).set step (other.dressed tag) := by
  apply List.ext_getElem?
  intro index
  rw [getElem?_dress, List.getElem?_set, List.getElem?_set, getElem?_dress, length_dress]
  by_cases same : step = index
  · subst same
    simp only [if_true, Function.update_self]
    split <;> rfl
  · simp only [same, if_false]
    rw [Function.update_of_ne (by omega)]

theorem dress_set_same (block : List Event) (step : Nat) (other : Event) :
    dress tags place (block.set step other) =
      (dress tags place block).set step (other.dressed (tags (place + step))) := by
  have changed := @dress_set tags place block step other (tags (place + step))
  rw [Function.update_eq_self] at changed
  exact changed

/-- An event with another tag. -/
theorem dress_update (block : List Event) {step : Nat} (tag : Tag)
    (found : block[step]? = some event) :
    dress (Function.update tags (place + step) tag) place block =
      (dress tags place block).set step (event.dressed tag) := by
  rcases List.getElem?_eq_some_iff.mp found with ⟨inside, same⟩
  rw [← dress_set, ← same, List.set_getElem_self]

theorem dress_dropLast (block : List Event) :
    dress tags place block.dropLast = (dress tags place block).dropLast := by
  apply List.ext_getElem?
  intro index
  simp only [getElem?_dress, List.getElem?_dropLast, length_dress]
  split <;> rfl

/-- New tags behind a stretch do not show in it. -/
theorem dress_update_behind (block : List Event) {name : Nat} (tag : Tag)
    (behind : place + block.length ≤ name) :
    dress (Function.update tags name tag) place block = dress tags place block := by
  apply List.ext_getElem?
  intro index
  rw [getElem?_dress, getElem?_dress]
  by_cases inside : index < block.length
  · rw [Function.update_of_ne (by omega)]
  · simp [List.getElem?_eq_none (Nat.le_of_not_lt inside)]

/-! ## Complete nodes in the record -/

/-- The events from a place on, `top` among them, make up the sketch, whatever the tags are. -/
structure Forms (vocabulary : Vocabulary) (place : Nat) (front : List Event) (top : Event)
    (back : List Event) (sketch : Sketch) : Prop where
  isNode : IsNode top
  named : place + front.length = sketch.name
  stem : ∀ tags, Stem vocabulary (dress tags place front) (top.dressed (tags sketch.name))
    (dress tags (sketch.name + 1) back) (sketch.tree vocabulary tags)

theorem Forms.dress (forms : Forms vocabulary place front top back sketch)
    (wrapper : Option Nat) :
    dress tags place (front ++ withWrapper wrapper top :: back) =
      Event.dress tags place front ++ wrapped wrapper (tags sketch.name).field
        (top.dressed (tags sketch.name)) :: Event.dress tags (sketch.name + 1) back := by
  simp [forms.named, forms.isNode.dressed_wrapped]

theorem Forms.stop (forms : Forms vocabulary place front top back sketch)
    (wrapper : Option Nat) :
    place + (front ++ withWrapper wrapper top :: back).length = sketch.name + 1 + back.length := by
  have named := forms.named
  simp only [List.length_append, List.length_cons]
  omega

/-- The events from a place on are those of sketches, with blank openings between them. -/
inductive Laid (vocabulary : Vocabulary) : Nat → List Event → List Sketch → Prop where
  | nil {place : Nat} : Laid vocabulary place [] []
  | blank {place : Nat} {rest : List Event} {parts : List Sketch}
      (laid : Laid vocabulary (place + 1) rest parts) :
      Laid vocabulary place (blank :: rest) parts
  | part {place : Nat} {front back rest : List Event} {top : Event} {sketch : Sketch}
      {parts : List Sketch} (forms : Forms vocabulary place front top back sketch)
      (laid : Laid vocabulary (sketch.name + 1 + back.length) rest parts) :
      Laid vocabulary place ((front ++ withWrapper none top :: back) ++ rest) (sketch :: parts)

theorem Forms.laid (forms : Forms vocabulary place front top back sketch) :
    Laid vocabulary place (front ++ withWrapper none top :: back) [sketch] := by
  have laid := Laid.part forms .nil
  rw [List.append_nil] at laid
  exact laid

theorem Laid.append (first : Laid vocabulary place left before)
    (second : Laid vocabulary (place + left.length) right parts) :
    Laid vocabulary place (left ++ right) (before ++ parts) := by
  induction first with
  | nil => simpa using second
  | blank _ ih =>
      apply Laid.blank
      apply ih
      simpa [Nat.add_assoc, Nat.add_comm 1] using second
  | part forms _ ih =>
      rw [List.append_assoc]
      apply Laid.part forms
      apply ih
      rw [List.length_append, ← Nat.add_assoc, forms.stop] at second
      exact second

/-- Whatever its tags are, the stretch yields the trees of the sketches. -/
theorem Laid.yields (laid : Laid vocabulary place block parts) (tags : Nat → Tag) :
    Yields vocabulary (dress tags place block) (Sketch.edges vocabulary tags parts) := by
  induction laid with
  | nil => exact yields_nil
  | blank _ ih => exact yields_blank.append ih
  | @part place front back rest top sketch _ forms _ ih =>
      have yields := (forms.stem tags).yields (tags sketch.name).field
      rw [← forms.dress] at yields
      rw [dress_append, forms.stop]
      exact yields.append ih

/-- A part and what lies before and behind it. -/
theorem Laid.split (laid : Laid vocabulary place block (before ++ sketch :: parts)) :
    ∃ left front top back right,
      block = left ++ ((front ++ withWrapper none top :: back) ++ right) ∧
      Laid vocabulary place left before ∧
      Forms vocabulary (place + left.length) front top back sketch ∧
      Laid vocabulary (sketch.name + 1 + back.length) right parts := by
  generalize all : before ++ sketch :: parts = sketches at laid
  induction laid generalizing before with
  | nil => simp at all
  | blank _ ih =>
      rcases ih all with ⟨left, front, top, back, right, same, onLeft, forms, onRight⟩
      refine ⟨Event.blank :: left, front, top, back, right, by simp [same], .blank onLeft, ?_,
        onRight⟩
      simpa [Nat.add_assoc, Nat.add_comm 1] using forms
  | @part place first second rest node other _ forms laid ih =>
      cases before with
      | nil =>
          rw [List.nil_append, List.cons.injEq] at all
          rcases all with ⟨rfl, rfl⟩
          exact ⟨[], first, node, second, rest, rfl, .nil, forms, laid⟩
      | cons earlier before =>
          rw [List.cons_append, List.cons.injEq] at all
          rcases all with ⟨rfl, all⟩
          rcases ih all with ⟨left, front, top, back, right, same, onLeft, found, onRight⟩
          refine ⟨(first ++ withWrapper none node :: second) ++ left, front, top, back, right, ?_,
            .part forms onLeft, ?_, onRight⟩
          · simp [same]
          · rw [List.length_append, ← Nat.add_assoc, forms.stop]
            exact found

theorem Laid.eq_nil (laid : Laid vocabulary place [] parts) : parts = [] := by
  generalize empty : ([] : List Event) = block at laid
  cases laid with
  | nil => rfl
  | blank => cases empty
  | part => simp at empty

/-! ## Drafts in the record -/

/-- A record along a draft. -/
inductive Lies (vocabulary : Vocabulary) : List Level → List Sketch → List Event → Prop where
  | outside {record : List Event} {inner : List Sketch} (laid : Laid vocabulary 0 record inner) :
      Lies vocabulary [] inner record
  | started {around : List Level} {before inner : List Sketch} {left right : List Event}
      (outer : Lies vocabulary around before left)
      (laid : Laid vocabulary (left.length + 1) right inner) :
      Lies vocabulary (⟨left.length, none, before⟩ :: around) inner (left ++ blank :: right)
  | wrapping {around : List Level} {before parts : List Sketch} {lead : Sketch} {name : Nat}
      {left front back right : List Event} {top : Event}
      (outer : Lies vocabulary around before left)
      (forms : Forms vocabulary left.length front top back lead)
      (laid : Laid vocabulary (lead.name + 1 + back.length) right parts)
      (behind : lead.name + 1 + back.length ≤ name) :
      Lies vocabulary (⟨name, some ⟨lead.name⟩, before⟩ :: around) (lead :: parts)
        (left ++ ((front ++ withWrapper (some (name - lead.name)) top :: back) ++ right))

/-- Parts that are added at the end of the record belong to the innermost open node. -/
theorem Lies.append (lies : Lies vocabulary around inner record)
    (laid : Laid vocabulary record.length block parts) :
    Lies vocabulary around (inner ++ parts) (record ++ block) := by
  cases lies with
  | outside whole =>
      apply Lies.outside
      apply whole.append
      simpa using laid
  | @started _ _ _ left right outer inside =>
      rw [List.append_assoc, List.cons_append]
      apply Lies.started outer
      apply inside.append
      simpa [Nat.add_assoc, Nat.add_comm 1] using laid
  | @wrapping _ _ _ lead name left front back right top outer forms inside behind =>
      rw [List.append_assoc, List.append_assoc, List.cons_append]
      apply Lies.wrapping outer forms _ behind
      apply inside.append
      rw [List.length_append, List.length_append, ← Nat.add_assoc, forms.stop] at laid
      exact laid

/-- A complete part of the innermost open node, with what lies before and behind it, unless the node
was opened around this part. -/
theorem Lies.split (lies : Lies vocabulary around (before ++ sketch :: parts) record)
    (free : ∀ level ∈ around, level.wraps ≠ some ⟨sketch.name⟩) :
    ∃ left front top back right,
      record = left ++ ((front ++ withWrapper none top :: back) ++ right) ∧
      Lies vocabulary around before left ∧ Forms vocabulary left.length front top back sketch ∧
      Laid vocabulary (sketch.name + 1 + back.length) right parts := by
  generalize all : before ++ sketch :: parts = inner at lies
  cases lies with
  | outside whole =>
      rw [← all] at whole
      rcases whole.split with ⟨left, front, top, back, right, same, onLeft, forms, onRight⟩
      rw [Nat.zero_add] at forms
      exact ⟨left, front, top, back, right, same, .outside onLeft, forms, onRight⟩
  | @started _ _ _ first second outer inside =>
      rw [← all] at inside
      rcases inside.split with ⟨left, front, top, back, right, same, onLeft, forms, onRight⟩
      refine ⟨first ++ blank :: left, front, top, back, right, ?_, .started outer onLeft, ?_,
        onRight⟩
      · simp [same]
      · simpa [Nat.add_assoc, Nat.add_comm 1] using forms
  | @wrapping _ _ rest lead name first leadFront leadBack second leadTop outer leads inside
      behind =>
      cases before with
      | nil =>
          rw [List.nil_append, List.cons.injEq] at all
          exact absurd (by rw [all.1]) (free _ List.mem_cons_self)
      | cons earlier before =>
          rw [List.cons_append, List.cons.injEq] at all
          rcases all with ⟨rfl, all⟩
          rw [← all] at inside
          rcases inside.split with ⟨left, front, top, back, right, same, onLeft, forms, onRight⟩
          refine ⟨_, front, top, back, right, ?_, .wrapping outer leads onLeft behind, ?_, onRight⟩
          · simp [same]
          · rw [List.length_append, List.length_append, ← Nat.add_assoc, leads.stop]
            exact forms

/-! ## What calls do to it -/

/-- A blank opening at the end of the record begins a node. -/
theorem Lies.start (lies : Lies vocabulary around inner record) :
    Lies vocabulary (⟨record.length, none, inner⟩ :: around) [] (record ++ [blank]) :=
  .started lies .nil

theorem laid_leaf (place : Nat) (tree : Tree) :
    Laid vocabulary place [added tree none 0] [.leaf place tree] := by
  have forms : Forms vocabulary place [] (added tree none 0) [] (.leaf place tree) :=
    ⟨.added tree none 0, rfl, fun _ => stem_added tree⟩
  exact forms.laid

theorem exists_split {index : Nat} (found : block[index]? = some event) :
    ∃ left right, block = left ++ event :: right ∧ left.length = index := by
  rcases List.getElem?_eq_some_iff.mp found with ⟨inside, same⟩
  refine ⟨block.take index, block.drop (index + 1), ?_, by simp; omega⟩
  rw [← same, ← List.drop_eq_getElem_cons inside, List.take_append_drop]

/-- A node that is completed is a part of the node around it. -/
theorem Lies.complete {level : Level} (lies : Lies vocabulary (level :: around) inner record)
    (opened : record[level.name]? = some blank) (symbol : Nat) :
    Lies vocabulary around (level.before ++ [.node level.name symbol inner])
      (record.set level.name (opening (some symbol) none 0 noState) ++ [closing]) := by
  cases lies with
  | @started _ before _ left right outer inside =>
      have forms : Forms vocabulary left.length [] (opening (some symbol) none 0 noState)
          (right ++ [closing]) (.node left.length symbol inner) := by
        refine ⟨.opening _ _ _ _, rfl, fun tags => ?_⟩
        rw [dress_append]
        exact stem_opening symbol (tags left.length).state (inside.yields tags)
      rw [set_middle, List.append_assoc]
      exact outer.append forms.laid
  | @wrapping _ before parts lead name left front back right top outer leads inside behind =>
      dsimp only at opened ⊢
      have stop := leads.stop (some (name - lead.name))
      -- the opening of the node stands among the events behind the node that it wraps
      have among : right[name - (lead.name + 1 + back.length)]? = some blank := by
        rw [← List.append_assoc, List.getElem?_append_right (by simpa [← stop] using behind)]
          at opened
        rw [← opened, List.length_append, stop]
      rcases exists_split among with ⟨early, late, rfl, length⟩
      have distance : name - lead.name = back.length + 1 + early.length := by omega
      have place : (left ++ ((front ++ withWrapper (some (name - lead.name)) top :: back) ++
          early)).length = name := by
        rw [List.length_append, List.length_append, ← Nat.add_assoc, stop]
        omega
      have forms : Forms vocabulary left.length
          ((front ++ withWrapper (some (name - lead.name)) top :: back) ++ early)
          (opening (some symbol) none 0 noState) (late ++ [closing])
          (.node name symbol (lead :: parts)) := by
        refine ⟨.opening _ _ _ _, by rw [← List.length_append, place]; rfl, fun tags => ?_⟩
        have yields := inside.yields tags
        rw [dress_append, dress_cons, dressed_blank] at yields
        have next : lead.name + 1 + back.length + early.length + 1 = name + 1 := by omega
        rw [next] at yields
        have wrap := (leads.stem tags).wrap yields symbol (tags name).state (tags lead.name).field
        rw [length_dress, length_dress, ← distance] at wrap
        rw [dress_append, leads.dress, stop, dress_append]
        exact wrap
      have changed := @set_middle
        (left ++ ((front ++ withWrapper (some (name - lead.name)) top :: back) ++ early)) late blank
        (opening (some symbol) none 0 noState)
      rw [place] at changed
      have whole := outer.append forms.laid
      simp only [List.append_assoc, List.cons_append] at changed whole ⊢
      rw [changed]
      simpa using whole

/-- The parts of a node that is abandoned belong to the node around it. -/
theorem Lies.abandon {name : Nat}
    (lies : Lies vocabulary (⟨name, none, before⟩ :: around) inner record) :
    Lies vocabulary around (before ++ inner) record := by
  cases lies with
  | started outer inside => exact outer.append (.blank inside)

theorem Lies.abandonLast {name : Nat}
    (lies : Lies vocabulary (⟨name, none, before⟩ :: around) inner record)
    (last : name + 1 = record.length) :
    Lies vocabulary around (before ++ inner) record.dropLast := by
  cases lies with
  | @started _ _ _ left right outer inside =>
      have nothing : right = [] := by
        apply List.eq_nil_of_length_eq_zero
        simp only [List.length_append, List.length_cons] at last
        omega
      subst nothing
      rw [inside.eq_nil, List.append_nil, List.dropLast_concat]
      exact outer

/-- A node is opened around a complete part of the innermost open one. -/
theorem Lies.precede (lies : Lies vocabulary around (before ++ sketch :: parts) record)
    (free : ∀ level ∈ around, level.wraps ≠ some ⟨sketch.name⟩) :
    ∃ event, record[sketch.name]? = some event ∧ IsNode event ∧
      Lies vocabulary (⟨record.length, some ⟨sketch.name⟩, before⟩ :: around) (sketch :: parts)
        (record.set sketch.name (withWrapper (some (record.length - sketch.name)) event) ++
          [blank]) := by
  rcases lies.split free with ⟨left, front, top, back, right, same, outer, forms, laid⟩
  have place : (left ++ front).length = sketch.name := by
    rw [List.length_append]
    exact forms.named
  have shape : record = (left ++ front) ++ withWrapper none top :: (back ++ right) := by
    simp [same]
  have length : sketch.name + 1 + back.length + right.length = record.length := by
    rw [shape, ← place]
    simp only [List.length_append, List.length_cons]
    omega
  refine ⟨withWrapper none top, ?_, forms.isNode.withWrapper none, ?_⟩
  · rw [shape, ← place]
    simp
  · have more : Laid vocabulary (sketch.name + 1 + back.length) (right ++ [blank]) parts := by
      have laid := laid.append (.blank .nil)
      rw [List.append_nil] at laid
      exact laid
    have behind : sketch.name + 1 + back.length ≤ record.length := by omega
    have wrapping := Lies.wrapping outer forms more behind
    rw [forms.isNode.withWrapper_twice]
    have changed := @set_middle (left ++ front) (back ++ right) (withWrapper none top)
      (withWrapper (some (record.length - sketch.name)) top)
    rw [← shape, place] at changed
    rw [changed]
    simpa using wrapping

end Event

end Reparse
