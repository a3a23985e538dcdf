import Reparse.Proofs.Parse.Skeleton

/-!
# The record that goes with a draft

A record goes with a draft if it lies along the draft, has a blank opening for each open node, and an
event for each complete node that the parser holds a handle of (`Draft.Records`). What a call does
to the record keeps it with the draft to which the same call was made.
-/

namespace Reparse

open Event (IsNode Lies added blank closing dress opening withWrapper)

namespace Draft

variable {vocabulary : Vocabulary} {draft : Draft} {skeleton record : List Event}

/-- The events of a draft, without regard to their tags. -/
structure Fits (vocabulary : Vocabulary) (draft : Draft) (skeleton : List Event) : Prop where
  lies : Lies vocabulary draft.around draft.inner skeleton
  opened : ∀ level ∈ draft.around, skeleton[level.name]? = some blank
  ordered : draft.around.Pairwise fun inner outer => outer.name < inner.name
  known : ∀ node, (node ∈ draft.held ∨ ∃ level ∈ draft.around, level.wraps = some node) →
    ∃ event, skeleton[node.place]? = some event ∧ IsNode event
  /-- The handle of a node is given away when another node is opened around it. -/
  given : ∀ level ∈ draft.around, ∀ node, level.wraps = some node → node ∉ draft.held

theorem not_isNode_blank : ¬IsNode blank := by
  intro node
  cases node

theorem getElem?_append_of_some {place : Nat} {event : Event}
    (found : skeleton[place]? = some event) (more : List Event) :
    (skeleton ++ more)[place]? = some event := by
  rcases List.getElem?_eq_some_iff.mp found with ⟨inside, _⟩
  rw [List.getElem?_append_left inside, found]

/-- What stands at one place changes. -/
theorem getElem?_set_of_ne {place other : Nat} {event : Event}
    (found : skeleton[other]? = some event) (apart : place ≠ other) (new : Event) :
    (skeleton.set place new)[other]? = some event := by
  rw [List.getElem?_set_ne apart, found]

theorem lt_of_getElem? {place : Nat} {event : Event} (found : skeleton[place]? = some event) :
    place < skeleton.length := (List.getElem?_eq_some_iff.mp found).1

/-- The parts from the one with a name on. -/
theorem exists_dropWhile {parts : List Sketch} {name : Nat}
    (among : ∃ part ∈ parts, part.name = name) :
    ∃ sketch rest, parts.dropWhile (fun part => part.name ≠ name) = sketch :: rest ∧
      sketch.name = name := by
  induction parts with
  | nil => simp at among
  | cons part rest ih =>
      by_cases here : part.name = name
      · exact ⟨part, rest, by simp [here], here⟩
      · rcases ih (by simpa [here] using among) with ⟨sketch, behind, same, named⟩
        refine ⟨sketch, behind, ?_, named⟩
        rw [List.dropWhile_cons_of_pos (by simp [here]), same]

namespace Fits

theorem empty : Fits vocabulary Draft.empty [] := by
  refine ⟨.outside .nil, by simp [Draft.empty], by simp [Draft.empty], ?_, by simp [Draft.empty]⟩
  intro node known
  simp [Draft.empty] at known

theorem add (fits : Fits vocabulary draft skeleton) (tree : Tree) :
    Fits vocabulary (draft.add skeleton.length tree) (skeleton ++ [added tree none 0]) := by
  refine ⟨fits.lies.append (Event.laid_leaf _ tree), ?_, fits.ordered, ?_, fits.given⟩
  · intro level member
    exact getElem?_append_of_some (fits.opened level member) _
  · intro node known
    rcases fits.known node known with ⟨event, found, isNode⟩
    exact ⟨event, getElem?_append_of_some found _, isNode⟩

theorem start (fits : Fits vocabulary draft skeleton) :
    Fits vocabulary (draft.start ⟨skeleton.length⟩) (skeleton ++ [blank]) := by
  refine ⟨fits.lies.start, ?_, ?_, ?_, ?_⟩
  · intro level member
    rcases List.mem_cons.mp member with rfl | outer
    · simp
    · exact getElem?_append_of_some (fits.opened level outer) _
  · apply List.pairwise_cons.mpr
    constructor
    · intro level member
      exact lt_of_getElem? (fits.opened level member)
    · exact fits.ordered
  · intro node known
    have before : node ∈ draft.held ∨ ∃ level ∈ draft.around, level.wraps = some node := by
      simpa [Draft.start] using known
    rcases fits.known node before with ⟨event, found, isNode⟩
    exact ⟨event, getElem?_append_of_some found _, isNode⟩
  · intro level member node wraps
    rcases List.mem_cons.mp member with rfl | outer
    · cases wraps
    · exact fits.given level outer node wraps

theorem hold (fits : Fits vocabulary draft skeleton) {node : CompleteNode} {event : Event}
    (found : skeleton[node.place]? = some event) (isNode : IsNode event)
    (free : ∀ level ∈ draft.around, level.wraps ≠ some node) :
    Fits vocabulary (draft.hold node) skeleton := by
  refine ⟨fits.lies, fits.opened, fits.ordered, ?_, ?_⟩
  · intro other known
    rcases known with held | wrapped
    · rcases List.mem_cons.mp held with rfl | before
      · exact ⟨event, found, isNode⟩
      · exact fits.known other (Or.inl before)
    · exact fits.known other (Or.inr wrapped)
  · intro level member other wraps held
    rcases List.mem_cons.mp held with rfl | before
    · exact free level member wraps
    · exact fits.given level member other wraps before

theorem release {node : CompleteNode} (fits : Fits vocabulary (draft.hold node) skeleton) :
    Fits vocabulary draft skeleton := by
  refine ⟨fits.lies, fits.opened, fits.ordered, ?_, ?_⟩
  · intro other known
    apply fits.known other
    rcases known with held | wrapped
    · exact Or.inl (List.mem_cons_of_mem _ held)
    · exact Or.inr wrapped
  · intro level member other wraps held
    exact fits.given level member other wraps (List.mem_cons_of_mem _ held)

section Innermost

variable {level : Level} {rest : List Level}

theorem complete (fits : Fits vocabulary draft skeleton) (around : draft.around = level :: rest)
    (symbol : Nat) :
    Fits vocabulary ((draft.complete symbol).hold ⟨level.name⟩)
      (skeleton.set level.name (opening (some symbol) none 0 noState) ++ [closing]) := by
  have same : draft.complete symbol = { draft with
      inner := level.before ++ [.node level.name symbol draft.inner]
      around := rest
      tags := Function.update draft.tags level.name Tag.plain } := by
    simp [Draft.complete, around]
  rcases fits with ⟨lies, opened, ordered, known, given⟩
  rw [around] at lies opened ordered known given
  have here := opened level List.mem_cons_self
  -- the completed opening was blank, so it is not the event of another node
  have apart (node : CompleteNode)
      (among : node ∈ draft.held ∨ ∃ outer ∈ level :: rest, outer.wraps = some node) :
      level.name ≠ node.place := by
    intro place
    rcases known node among with ⟨event, found, isNode⟩
    rw [← place, here, Option.some.injEq] at found
    rw [← found] at isNode
    exact not_isNode_blank isNode
  rw [same]
  have isNode : IsNode (opening (some symbol) none 0 noState) := .opening _ _ _ _
  refine hold ⟨lies.complete here symbol, ?_, (List.pairwise_cons.mp ordered).2, ?_, ?_⟩ ?_
    isNode ?_
  · intro outer member
    have smaller := (List.pairwise_cons.mp ordered).1 outer member
    apply getElem?_append_of_some
    exact getElem?_set_of_ne (opened outer (List.mem_cons_of_mem _ member)) (by omega) _
  · intro node among
    have among : node ∈ draft.held ∨ ∃ outer ∈ level :: rest, outer.wraps = some node := by
      rcases among with held | ⟨outer, member, wraps⟩
      · exact Or.inl held
      · exact Or.inr ⟨outer, List.mem_cons_of_mem _ member, wraps⟩
    rcases known node among with ⟨event, found, isNode⟩
    refine ⟨event, getElem?_append_of_some ?_ _, isNode⟩
    exact getElem?_set_of_ne found (apart node among) _
  · intro outer member
    exact given outer (List.mem_cons_of_mem _ member)
  · apply getElem?_append_of_some
    simp [lt_of_getElem? here]
  · intro outer member wraps
    exact apart ⟨level.name⟩ (Or.inr ⟨outer, List.mem_cons_of_mem _ member, wraps⟩) rfl

/-- The node that is given up leaves its opening where it is, unless nothing was added since. -/
theorem abandon (fits : Fits vocabulary draft skeleton) (around : draft.around = level :: rest)
    (plain : level.wraps = none) :
    Fits vocabulary draft.abandon
      (if level.name + 1 = skeleton.length then skeleton.dropLast else skeleton) := by
  have same : draft.abandon =
      { draft with inner := level.before ++ draft.inner, around := rest } := by
    simp [Draft.abandon, around]
  rcases fits with ⟨lies, opened, ordered, known, given⟩
  rw [around] at lies opened ordered known given
  rcases level with ⟨name, wraps, before⟩
  obtain rfl : wraps = none := plain
  have here := opened _ List.mem_cons_self
  have fewer (node : CompleteNode)
      (among : node ∈ draft.held ∨ ∃ outer ∈ rest, outer.wraps = some node) :
      ∃ event, skeleton[node.place]? = some event ∧ IsNode event := by
    apply known
    rcases among with held | ⟨outer, member, wraps⟩
    · exact Or.inl held
    · exact Or.inr ⟨outer, List.mem_cons_of_mem _ member, wraps⟩
  rw [same]
  split
  · rename_i last
    have kept {place : Nat} {event : Event} (found : skeleton[place]? = some event)
        (apart : place ≠ name) : skeleton.dropLast[place]? = some event := by
      have inside := lt_of_getElem? found
      dsimp only at last
      rw [List.getElem?_dropLast, if_pos (by omega), found]
    refine ⟨lies.abandonLast last, ?_, (List.pairwise_cons.mp ordered).2, ?_, ?_⟩
    · intro outer member
      have smaller := (List.pairwise_cons.mp ordered).1 outer member
      exact kept (opened outer (List.mem_cons_of_mem _ member)) (by dsimp only at smaller; omega)
    · intro node among
      rcases fewer node among with ⟨event, found, isNode⟩
      refine ⟨event, kept found ?_, isNode⟩
      intro place
      rw [place, here, Option.some.injEq] at found
      rw [← found] at isNode
      exact not_isNode_blank isNode
    · intro outer member
      exact given outer (List.mem_cons_of_mem _ member)
  · refine ⟨lies.abandon, ?_, (List.pairwise_cons.mp ordered).2, fewer, ?_⟩
    · intro outer member
      exact opened outer (List.mem_cons_of_mem _ member)
    · intro outer member
      exact given outer (List.mem_cons_of_mem _ member)

end Innermost

theorem precede (fits : Fits vocabulary draft skeleton) {node : CompleteNode}
    (held : node ∈ draft.held) (direct : ∃ part ∈ draft.inner, part.name = node.place) :
    ∃ event, skeleton[node.place]? = some event ∧ IsNode event ∧
      Fits vocabulary (draft.precede node ⟨skeleton.length⟩)
        (skeleton.set node.place
          (withWrapper (some (skeleton.length - node.place)) event) ++ [blank]) := by
  rcases exists_dropWhile direct with ⟨sketch, parts, rest, named⟩
  have whole := @List.takeWhile_append_dropWhile _
    (fun part : Sketch => decide (part.name ≠ node.place)) draft.inner
  rw [rest] at whole
  rcases node with ⟨place⟩
  obtain rfl : sketch.name = place := named
  have lies := fits.lies
  rw [← whole] at lies
  have free : ∀ level ∈ draft.around, level.wraps ≠ some ⟨sketch.name⟩ := by
    intro level member wraps
    exact fits.given level member _ wraps held
  rcases lies.precede free with ⟨event, here, isNode, wrapping⟩
  refine ⟨event, here, isNode, ?_, ?_, ?_, ?_, ?_⟩
  · simp only [Draft.precede, rest]
    exact wrapping
  · intro level member
    rcases List.mem_cons.mp member with rfl | outer
    · simp
    · apply getElem?_append_of_some
      apply getElem?_set_of_ne (fits.opened level outer)
      intro same
      have blank := fits.opened level outer
      rw [← same, here, Option.some.injEq] at blank
      rw [blank] at isNode
      exact not_isNode_blank isNode
  · apply List.pairwise_cons.mpr
    constructor
    · intro level member
      exact lt_of_getElem? (fits.opened level member)
    · exact fits.ordered
  · intro other among
    have before : other ∈ draft.held ∨ ∃ level ∈ draft.around, level.wraps = some other := by
      rcases among with remaining | ⟨level, member, wraps⟩
      · exact Or.inl (List.mem_filter.mp remaining).1
      · rcases List.mem_cons.mp member with rfl | outer
        · rw [← Option.some.inj wraps]
          exact Or.inl held
        · exact Or.inr ⟨level, outer, wraps⟩
    rcases fits.known other before with ⟨old, found, oldNode⟩
    by_cases same : sketch.name = other.place
    · have wrapped := isNode.withWrapper (some (skeleton.length - sketch.name))
      refine ⟨_, getElem?_append_of_some ?_ _, wrapped⟩
      rw [← same, List.getElem?_set_self (lt_of_getElem? here)]
    · exact ⟨old, getElem?_append_of_some (getElem?_set_of_ne found same _) _, oldNode⟩
  · intro level member other wraps remaining
    rcases List.mem_filter.mp remaining with ⟨before, different⟩
    rcases List.mem_cons.mp member with rfl | outer
    · rw [← Option.some.inj wraps] at different
      simp at different
    · exact fits.given level outer other wraps before

end Fits

/-- The record goes with the draft. -/
def Records (vocabulary : Vocabulary) (draft : Draft) (record : List Event) : Prop :=
  ∃ skeleton, record = dress draft.tags 0 skeleton ∧ draft.Fits vocabulary skeleton

namespace Records

theorem empty : Records vocabulary Draft.empty [] := ⟨[], rfl, .empty⟩

theorem dress_add (tree : Tree) :
    dress draft.tags 0 skeleton ++ [added tree none 0] =
      dress (draft.add skeleton.length tree).tags 0 (skeleton ++ [added tree none 0]) := by
  simp only [Draft.add]
  rw [Event.dress_append, Event.dress_update_behind _ _ (by omega)]
  simp [Tag.plain]

theorem add (records : Records vocabulary draft record) (tree : Tree) :
    Records vocabulary (draft.add record.length tree) (record ++ [added tree none 0]) := by
  rcases records with ⟨skeleton, rfl, fits⟩
  rw [Event.length_dress]
  exact ⟨_, dress_add tree, fits.add tree⟩

theorem addAll (records : Records vocabulary draft record) (trees : List Tree) :
    Records vocabulary (draft.addAll record.length trees)
      (record ++ trees.map fun tree => added tree none 0) := by
  induction trees generalizing draft record with
  | nil => simpa [Draft.addAll] using records
  | cons tree rest ih =>
      have more := ih (records.add tree)
      simpa [Draft.addAll] using more

theorem start (records : Records vocabulary draft record) :
    Records vocabulary (draft.start ⟨record.length⟩) (record ++ [blank]) := by
  rcases records with ⟨skeleton, rfl, fits⟩
  rw [Event.length_dress]
  refine ⟨skeleton ++ [blank], ?_, fits.start⟩
  simp [Draft.start]

/-- A subtree that is taken over is a complete node. -/
theorem addHeld (records : Records vocabulary draft record) (tree : Tree) :
    Records vocabulary ((draft.add record.length tree).hold ⟨record.length⟩)
      (record ++ [added tree none 0]) := by
  rcases records with ⟨skeleton, rfl, fits⟩
  rw [Event.length_dress]
  refine ⟨_, dress_add tree, ?_⟩
  apply (fits.add tree).hold (by simp) (.added tree none 0)
  intro level member wraps
  rcases fits.known _ (Or.inr ⟨level, member, wraps⟩) with ⟨event, found, _⟩
  exact Nat.lt_irrefl _ (lt_of_getElem? found)

theorem release {node : CompleteNode} (records : Records vocabulary (draft.hold node) record) :
    Records vocabulary draft record := by
  rcases records with ⟨skeleton, same, fits⟩
  exact ⟨skeleton, same, fits.release⟩

section Innermost

variable {level : Level} {rest : List Level}

theorem opened (records : Records vocabulary draft record)
    (around : draft.around = level :: rest) : record[level.name]? = some blank := by
  rcases records with ⟨skeleton, rfl, fits⟩
  have found := fits.opened level (by rw [around]; exact List.mem_cons_self)
  rw [Event.getElem?_dress, found]
  rfl

theorem complete (records : Records vocabulary draft record)
    (around : draft.around = level :: rest) (symbol : Nat) :
    Records vocabulary ((draft.complete symbol).hold ⟨level.name⟩)
      (record.set level.name (opening (some symbol) none 0 noState) ++ [closing]) := by
  rcases records with ⟨skeleton, rfl, fits⟩
  refine ⟨_, ?_, fits.complete around symbol⟩
  have tags : ((draft.complete symbol).hold ⟨level.name⟩).tags =
      Function.update draft.tags (0 + level.name) Tag.plain := by
    simp [Draft.complete, Draft.hold, around]
  rw [tags, Event.dress_append, Event.dress_set]
  rfl

theorem abandon (records : Records vocabulary draft record)
    (around : draft.around = level :: rest) (plain : level.wraps = none) :
    Records vocabulary draft.abandon
      (if level.name + 1 = record.length then record.dropLast else record) := by
  rcases records with ⟨skeleton, rfl, fits⟩
  refine ⟨_, ?_, fits.abandon around plain⟩
  have tags : draft.abandon.tags = draft.tags := by simp [Draft.abandon, around]
  rw [tags, Event.length_dress]
  split
  · exact (Event.dress_dropLast skeleton).symm
  · rfl

end Innermost

theorem precede (records : Records vocabulary draft record) {node : CompleteNode}
    (held : node ∈ draft.held) (direct : ∃ part ∈ draft.inner, part.name = node.place) :
    ∃ event, record[node.place]? = some event ∧ IsNode event ∧
      Records vocabulary (draft.precede node ⟨record.length⟩)
        (record.set node.place (withWrapper (some (record.length - node.place)) event) ++
          [blank]) := by
  rcases records with ⟨skeleton, rfl, fits⟩
  rcases fits.precede held direct with ⟨event, found, isNode, preceded⟩
  rw [Event.length_dress]
  refine ⟨event.dressed (draft.tags node.place), ?_, isNode.dressed _, _, ?_, preceded⟩
  · rw [Event.getElem?_dress, found, Nat.zero_add]
    rfl
  · rw [Event.dress_append, Event.dress_set_same, isNode.dressed_withWrapper, Nat.zero_add]
    rfl

/-- A complete node gets another tag. -/
theorem retag (records : Records vocabulary draft record) {node : CompleteNode}
    (held : node ∈ draft.held) :
    ∃ event, IsNode event ∧ record[node.place]? = some (event.dressed (draft.tags node.place)) ∧
      ∀ tag, Records vocabulary
        { draft with tags := Function.update draft.tags node.place tag }
        (record.set node.place (event.dressed tag)) := by
  rcases records with ⟨skeleton, rfl, fits⟩
  rcases fits.known node (Or.inl held) with ⟨event, found, isNode⟩
  refine ⟨event, isNode, ?_, fun tag => ⟨skeleton, ?_, ?_⟩⟩
  · rw [Event.getElem?_dress, found, Nat.zero_add]
    rfl
  · have changed := @Event.dress_update draft.tags 0 _ skeleton _ tag found
    rw [Nat.zero_add] at changed
    exact changed.symm
  · exact ⟨fits.lies, fits.opened, fits.ordered, fits.known, fits.given⟩

end Records

end Draft

end Reparse
