import Reparse.Proofs.Query.Gains
import Reparse.Proofs.Query.WellFormed

/-!
# Compiled queries are well formed

The reader numbers captures as it meets them, moves the captures behind a group to its first pattern
and lets predicates refer to all captures before them, whatever pattern they belong to. What it has
collected stays sound (`Reading.Sound`) and captures are only added (`Reading.Grows`), so what was
read with fewer captures stays well formed.

`Forms` says this of a step and of what it gives, and puts steps together; `Formative` says it of
the productions, for every bound on the recursion.
-/

namespace Reparse

namespace QueryText

/-! ## What is collected -/

/-- The captures have different names, none of them empty, and the tests and predicates collected
refer to these captures only. -/
structure Reading.Sound (reading : Reading) : Prop where
  distinct : reading.captureNames.Nodup
  named : "" ∉ reading.captureNames
  tests : ∀ test ∈ reading.tests, ∀ number ∈ test.captures, number < reading.captureNames.length
  predicates : ∀ predicate ∈ reading.predicates, ∀ number ∈ predicate.captures,
    number < reading.captureNames.length

/-- A later reading is sound and has no fewer captures. -/
structure Reading.Grows (reading later : Reading) : Prop where
  sound : later.Sound
  le : reading.captureNames.length ≤ later.captureNames.length

theorem Reading.sound_start (text : List Char) : (Reading.start text).Sound :=
  ⟨List.nodup_nil, List.not_mem_nil, List.forall_mem_nil _, List.forall_mem_nil _⟩

/-- If the step gives a value, what is collected stays sound, and the value is as described for the
number of captures that there are then. -/
def Forms {α : Type} (good : Nat → α → Prop) (step : Compiling α) (reading : Reading) : Prop :=
  Ends step reading (fun value later => reading.Grows later ∧ good later.captureNames.length value)
    fun _ => True

/-- The step keeps what is collected sound, whatever it gives. -/
abbrev Grows {α : Type} (step : Compiling α) (reading : Reading) : Prop :=
  Forms (fun _ _ => True) step reading

section Rules

variable {α β : Type} {step : Compiling α} {next : α → Compiling β} {reading later : Reading}
  {good : Nat → α → Prop} {further : Nat → β → Prop}

theorem Reading.Sound.grows (sound : reading.Sound)
    (names : later.captureNames = reading.captureNames) (tests : later.tests = reading.tests)
    (predicates : later.predicates = reading.predicates) : reading.Grows later where
  sound := by
    rcases sound with ⟨distinct, named, tested, asked⟩
    constructor
    · rwa [names]
    · rwa [names]
    · rwa [tests, names]
    · rwa [predicates, names]
  le := Nat.le_of_eq (by rw [names])

theorem Reading.Sound.refl (sound : reading.Sound) : reading.Grows reading :=
  sound.grows rfl rfl rfl

theorem Reading.Grows.trans {last : Reading} (first : reading.Grows later)
    (second : later.Grows last) : reading.Grows last :=
  ⟨second.sound, Nat.le_trans first.le second.le⟩

theorem Forms.of_run {value : α} (ran : step.run reading = .ok (value, later))
    (grows : reading.Grows later) (holds : good later.captureNames.length value) :
    Forms good step reading := Ends.of_run ran ⟨grows, holds⟩

theorem forms_pure (sound : reading.Sound) {value : α}
    (holds : good reading.captureNames.length value) : Forms good (pure value) reading :=
  .of_run rfl sound.refl holds

/-- A step that halts forms anything. -/
theorem forms_of_halts {bad : Halt → Prop} (halts : Ends step reading (fun _ _ => False) bad) :
    Forms good step reading :=
  Ends.imp halts (fun _ _ never => never.elim) fun _ _ => trivial

theorem forms_throw (halt : Halt) : Forms good (throw halt) reading := Ends.throw trivial

theorem Forms.imp {better : Nat → α → Prop} (forms : Forms good step reading)
    (values : ∀ count value, good count value → better count value) :
    Forms better step reading :=
  Ends.imp forms (fun _ _ ⟨grows, holds⟩ => ⟨grows, values _ _ holds⟩) fun _ _ => trivial

/-- A step that only looks at the reading is taken. -/
theorem Forms.take {value : α} (ran : step.run reading = .ok (value, reading))
    (rest : Forms further (next value) reading) : Forms further (step >>= next) reading :=
  Ends.take ran rest

theorem Forms.bind (first : Forms good step reading)
    (rest : ∀ value later, reading.Grows later → good later.captureNames.length value →
      Forms further (next value) later) : Forms further (step >>= next) reading :=
  Ends.bind first fun value later ⟨grows, holds⟩ =>
    Ends.imp (rest value later grows holds)
      (fun _ _ ⟨onward, fine⟩ => ⟨grows.trans onward, fine⟩) fun _ _ => trivial

/-- What a step gives is made into something else. -/
theorem Forms.map (forms : Forms good step reading) {make : α → β}
    (makes : ∀ count value, reading.captureNames.length ≤ count → good count value →
      further count (make value)) :
    Forms further (step >>= fun value => pure (make value)) reading :=
  forms.bind fun value _ grows holds => forms_pure grows.sound (makes _ value grows.le holds)

theorem Grows.then (first : Grows step reading)
    (rest : ∀ value later, reading.Grows later → Forms further (next value) later) :
    Forms further (step >>= next) reading :=
  Forms.bind first fun value later grows _ => rest value later grows

theorem Forms.ite {condition : Prop} [Decidable condition] {other : Compiling α}
    (holds : condition → Forms good step reading)
    (fails : ¬ condition → Forms good other reading) :
    Forms good (if condition then step else other) reading :=
  Ends.ite holds fails

theorem grows_modify {change : Reading → Reading} (grows : reading.Grows (change reading)) :
    Grows (modify change) reading := Ends.modify ⟨grows, trivial⟩

theorem forms_refuse (kind : QueryErrorKind) (offset : Nat) (message : String) :
    Forms good (refuse kind offset message) reading := forms_of_halts (ends_refuse _ _ _)

theorem forms_malformed (offset : Nat) : Forms good (malformed offset) reading :=
  forms_of_halts (ends_malformed _)

theorem forms_impossible (offset : Nat) : Forms good (impossible offset) reading :=
  forms_of_halts (ends_impossible _)

end Rules

/-! ## Single steps -/

section Steps

variable {vocabulary : Vocabulary} {reading : Reading}

theorem forms_require (sound : reading.Sound) (condition : Prop) [Decidable condition]
    (offset : Nat) : Forms (fun _ _ => condition) (require condition offset) reading :=
  .ite (fun holds => forms_pure sound holds) fun _ => forms_malformed offset

theorem grows_advance (sound : reading.Sound) (count : Nat) : Grows (advance count) reading :=
  .of_run advance_run (sound.grows rfl rfl rfl) trivial

theorem grows_skipTrivia (sound : reading.Sound) : Grows skipTrivia reading :=
  Forms.take get_run (grows_advance sound _)

theorem grows_slice (sound : reading.Sound) (start stop : Nat) :
    Grows (slice start stop) reading := by
  refine Forms.take get_run ?_
  split
  · exact forms_throw _
  · exact forms_pure sound trivial

theorem grows_remaining (sound : reading.Sound) : Grows remaining reading := by
  refine Forms.take get_run ?_
  split
  · exact forms_throw _
  · exact forms_pure sound trivial

theorem grows_readWhile (sound : reading.Sound) (passes : Char → Bool) :
    Grows (readWhile passes) reading := by
  refine Forms.take get_run ?_
  refine (grows_advance sound _).then fun _ _ moved => ?_
  exact (grows_slice moved.sound _ _).map fun _ _ _ _ => trivial

theorem grows_readString (sound : reading.Sound) : Grows readString reading := by
  refine Forms.take offset_run ?_
  refine (grows_advance sound 1).then fun _ _ opened => ?_
  refine (grows_remaining opened.sound).then fun chars _ left => ?_
  split
  · exact forms_malformed _
  · exact (grows_advance left.sound _).then fun _ _ closed => forms_pure closed.sound trivial

theorem grows_checkField (sound : reading.Sound) (parent : Option Nat) (field offset : Nat) :
    Grows (checkField vocabulary parent field offset) reading :=
  .ite (fun _ => forms_pure sound trivial) fun _ => forms_impossible offset

theorem grows_checkChild (sound : reading.Sound) (scope : Scope) (symbol : Option Nat)
    (offset : Nat) : Grows (checkChild vocabulary scope symbol offset) reading :=
  .ite (fun _ => forms_pure sound trivial) fun _ => forms_impossible offset

/-- A symbol that is found by its name can be asked for. -/
theorem forms_namedSymbol (sound : reading.Sound) (name : String) (start : Nat) :
    Forms (fun _ => vocabulary.Shows) (namedSymbol vocabulary name start) reading := by
  unfold namedSymbol
  split
  · exact forms_refuse _ _ _
  · next symbol found =>
    exact forms_pure sound (Vocabulary.shows_symbolNamed found)

theorem forms_readToken (sound : reading.Sound) :
    Forms (fun _ => vocabulary.Shows) (readToken vocabulary) reading := by
  refine Forms.take offset_run ?_
  refine (grows_readString sound).then fun value _ read => ?_
  split
  · exact forms_refuse _ _ _
  · next symbol found =>
    exact forms_pure read.sound (Vocabulary.shows_symbolNamed found)

theorem forms_fieldNumber (sound : reading.Sound) (name : String) (start : Nat) :
    Forms (fun _ => vocabulary.HasField) (fieldNumber vocabulary name start) reading := by
  unfold fieldNumber
  split
  · exact forms_refuse _ _ _
  · next field found =>
    exact forms_pure sound (Vocabulary.hasField_fieldNamed found)

end Steps

/-! ## Captures and predicates -/

section Captures

variable {vocabulary : Vocabulary} {reading : Reading}

/-- A capture that is new gets the number behind all others. -/
theorem forms_captureNumber (sound : reading.Sound) {name : String} (some : name ≠ "") :
    Forms (fun count number => number < count) (captureNumber name) reading := by
  refine Forms.take get_run ?_
  split
  · next number known => exact forms_pure sound (List.findIdx?_eq_some_iff_findIdx_eq.mp known).1
  · next fresh =>
    have other : name ∉ reading.captureNames := by
      intro member
      simpa using List.findIdx?_eq_none_iff.mp fresh name member
    have length : (reading.captureNames ++ [name]).length = reading.captureNames.length + 1 :=
      List.length_append
    have more : ∀ number, number < reading.captureNames.length →
        number < (reading.captureNames ++ [name]).length := by
      rw [length]
      exact fun _ below => Nat.lt_succ_of_lt below
    have grown : Reading.Sound
        { reading with captureNames := reading.captureNames ++ [name] } :=
      { distinct := List.nodup_append.mpr ⟨sound.distinct, by simp, by
          rintro _ here _ there rfl
          exact other (List.mem_singleton.mp there ▸ here)⟩
        named := by
          rw [List.mem_append, List.mem_singleton, not_or]
          exact ⟨sound.named, some.symm⟩
        tests := fun test member number asked => more _ (sound.tests test member number asked)
        predicates := fun predicate member number asked =>
          more _ (sound.predicates predicate member number asked) }
    exact .of_run rfl ⟨grown, by rw [length]; exact Nat.le_succ _⟩
      (by rw [length]; exact Nat.lt_succ_self _)

theorem forms_readCaptures (fuel : Nat) (sound : reading.Sound) :
    Forms (fun count numbers => ∀ number ∈ numbers, number < count) (readCaptures fuel)
      reading := by
  induction fuel generalizing reading with
  | zero => exact forms_throw _
  | succ fuel ih =>
    refine (grows_skipTrivia sound).then fun _ _ skipped => ?_
    refine Forms.take peek_run ?_
    refine .ite (fun _ => ?_) fun _ => forms_pure skipped.sound (List.forall_mem_nil _)
    refine Forms.take offset_run ?_
    refine (grows_advance skipped.sound 1).then fun _ _ sign => ?_
    refine (grows_readWhile sign.sound _).then fun name _ named => ?_
    refine (forms_require named.sound _ _).bind fun _ _ required some => ?_
    refine (forms_captureNumber required.sound some).bind fun number _ numbered below => ?_
    refine (ih numbered.sound).map fun count numbers le others => ?_
    exact List.forall_mem_cons.mpr ⟨Nat.lt_of_lt_of_le below le, others⟩

theorem forms_captures (sound : reading.Sound) :
    Forms (fun count numbers => ∀ number ∈ numbers, number < count) captures reading :=
  Forms.take get_run (forms_readCaptures _ sound)

theorem grows_noteString (sound : reading.Sound) (value : String) :
    Grows (noteString value) reading := by
  refine grows_modify ?_
  split
  · exact sound.refl
  · exact sound.grows rfl rfl rfl

theorem forms_knownCapture (sound : reading.Sound) (name : String) (start : Nat) :
    Forms (fun count number => number < count) (knownCapture name start) reading := by
  refine Forms.take get_run ?_
  split
  · exact forms_refuse _ _ _
  · next number known => exact forms_pure sound (List.findIdx?_eq_some_iff_findIdx_eq.mp known).1

/-- The captures among some arguments have numbers below `count`. -/
def Refer (count : Nat) (arguments : List (Argument × Nat)) : Prop :=
  ∀ argument ∈ arguments, ∀ number ∈ argument.1.captures, number < count

theorem forms_readArguments (fuel : Nat) (sound : reading.Sound) :
    Forms Refer (readArguments fuel) reading := by
  induction fuel generalizing reading with
  | zero => exact forms_throw _
  | succ fuel ih =>
    have onto : ∀ {later : Reading} (argument : Argument × Nat), later.Sound →
        (∀ number ∈ argument.1.captures, number < later.captureNames.length) →
          Forms Refer (do return argument :: (← readArguments fuel)) later := by
      intro later argument sound below
      refine (ih sound).map fun count others le refer => ?_
      exact List.forall_mem_cons.mpr
        ⟨fun number member => Nat.lt_of_lt_of_le (below number member) le, refer⟩
    refine (grows_skipTrivia sound).then fun _ _ skipped => ?_
    refine Forms.take offset_run (Forms.take peek_run ?_)
    split
    · refine (grows_advance skipped.sound 1).then fun _ _ closed => ?_
      exact forms_pure closed.sound (List.forall_mem_nil _)
    · refine (grows_advance skipped.sound 1).then fun _ _ sign => ?_
      refine (grows_readWhile sign.sound _).then fun name _ named => ?_
      refine (forms_knownCapture named.sound name _).bind fun number _ known below => ?_
      refine onto _ known.sound fun _ member => ?_
      rwa [List.mem_singleton.mp member]
    · refine (grows_readString skipped.sound).then fun value _ read => ?_
      refine (grows_noteString read.sound value).then fun _ _ noted => ?_
      exact onto _ noted.sound (List.forall_mem_nil _)
    · refine (forms_require skipped.sound _ _).bind fun _ _ required _ => ?_
      refine (grows_readWhile required.sound _).then fun value _ read => ?_
      refine (grows_noteString read.sound value).then fun _ _ noted => ?_
      exact onto _ noted.sound (List.forall_mem_nil _)
    · exact forms_malformed _

theorem forms_firstCapture (sound : reading.Sound) (operator : String) (start : Nat)
    {argument : Argument}
    (below : ∀ number ∈ argument.captures, number < reading.captureNames.length) :
    Forms (fun count number => number < count) (firstCapture operator start argument) reading := by
  cases argument with
  | capture number => exact forms_pure sound (below number List.mem_cons_self)
  | string _ => exact forms_refuse _ _ _

theorem forms_twoArguments (sound : reading.Sound) (operator : String) (start : Nat)
    {arguments : List (Argument × Nat)} (refer : Refer reading.captureNames.length arguments) :
    Forms (fun count both => Refer count [both.1, both.2])
      (twoArguments operator start arguments) reading := by
  unfold twoArguments
  split
  · exact forms_pure sound refer
  · exact forms_refuse _ _ _

theorem grows_literals (sound : reading.Sound) (operator : String) (start : Nat)
    (arguments : List (Argument × Nat)) : Grows (literals operator start arguments) reading := by
  induction arguments with
  | nil => exact forms_pure sound trivial
  | cons argument rest ih =>
    rcases argument with ⟨number | value, place⟩
    · exact forms_refuse _ _ _
    · exact ih.map fun _ _ _ _ => trivial

theorem grows_readRegex (sound : reading.Sound) (pattern : String) (start : Nat) :
    Grows (readRegex pattern start) reading := by
  unfold readRegex
  split
  · exact forms_pure sound trivial
  · exact forms_refuse _ _ _
  · exact forms_refuse _ _ _

theorem grows_noteTest (sound : reading.Sound) {test : TextTest}
    (below : ∀ number ∈ test.captures, number < reading.captureNames.length) :
    Grows (noteTest test) reading := by
  refine grows_modify ⟨⟨sound.distinct, sound.named, ?_, sound.predicates⟩, Nat.le_refl _⟩
  exact List.forall_mem_append.mpr ⟨sound.tests, List.forall_mem_singleton.mpr below⟩

theorem grows_addPredicate (sound : reading.Sound) (operator : String) (start : Nat)
    {arguments : List (Argument × Nat)} (refer : Refer reading.captureNames.length arguments) :
    Grows (addPredicate operator arguments start) reading := by
  unfold addPredicate
  split
  · refine (forms_twoArguments sound _ _ refer).bind ?_
    rintro ⟨first, second⟩ _ parted both
    rcases List.forall_mem_cons.mp both with ⟨one, rest⟩
    refine (forms_firstCapture parted.sound _ _ one).bind fun capture _ found below => ?_
    split
    · next other equal =>
      have known := rest second List.mem_cons_self other (by simp [equal, Argument.captures])
      refine grows_noteTest found.sound (List.forall_mem_cons.mpr ⟨below, ?_⟩)
      exact List.forall_mem_singleton.mpr (Nat.lt_of_lt_of_le known found.le)
    · exact grows_noteTest found.sound (List.forall_mem_singleton.mpr below)
  · refine (forms_twoArguments sound _ _ refer).bind ?_
    rintro ⟨first, second⟩ _ parted both
    rcases List.forall_mem_cons.mp both with ⟨one, -⟩
    refine (forms_firstCapture parted.sound _ _ one).bind fun capture _ found below => ?_
    split
    · exact forms_refuse _ _ _
    · refine (grows_readRegex found.sound _ _).then fun _ _ compiled => ?_
      exact grows_noteTest compiled.sound
        (List.forall_mem_singleton.mpr (Nat.lt_of_lt_of_le below compiled.le))
  · split
    · rcases List.forall_mem_cons.mp refer with ⟨one, -⟩
      refine (forms_firstCapture sound _ _ one).bind fun capture _ found below => ?_
      refine (grows_literals found.sound _ _ _).then fun _ _ valued => ?_
      exact grows_noteTest valued.sound
        (List.forall_mem_singleton.mpr (Nat.lt_of_lt_of_le below valued.le))
    · exact forms_refuse _ _ _
  · refine grows_modify ⟨⟨sound.distinct, sound.named, sound.tests, ?_⟩, Nat.le_refl _⟩
    refine List.forall_mem_append.mpr ⟨sound.predicates, List.forall_mem_singleton.mpr ?_⟩
    intro number member
    rcases List.mem_flatMap.mp member with ⟨argument, listed, asked⟩
    rcases List.mem_map.mp listed with ⟨placed, among, rfl⟩
    exact refer placed among number asked

theorem grows_readPredicate (sound : reading.Sound) (start : Nat) :
    Grows (readPredicate start) reading := by
  refine (grows_advance sound 1).then fun _ _ sign => ?_
  refine (grows_readWhile sign.sound _).then fun operator _ named => ?_
  refine Forms.take offset_run ?_
  refine (forms_require named.sound _ _).bind fun _ _ required _ => ?_
  refine Forms.take get_run ?_
  refine (forms_readArguments _ required.sound).bind fun arguments _ read refer => ?_
  exact grows_addPredicate read.sound _ _ refer

end Captures

/-! ## Patterns -/

/-- What an item adds to a list of items is well formed. -/
def Item.WellFormed (vocabulary : Vocabulary) (count : Nat) : Item → Prop
  | .pattern only => only.WellFormed vocabulary count
  | .group sequence =>
    sequence ≠ [] ∧ ∀ element ∈ sequence, element.WellFormed vocabulary count
  | .absentField field => vocabulary.HasField field
  | .predicate => True

/-- The children and absent fields of a node pattern are well formed. -/
structure Body.WellFormed (vocabulary : Vocabulary) (count : Nat) (body : Body) : Prop where
  children : ∀ child ∈ body.children, child.WellFormed vocabulary count
  absent : ∀ field ∈ body.absent, vocabulary.HasField field

/-- All of the patterns are well formed. -/
def AllWellFormed (vocabulary : Vocabulary) (count : Nat) (patterns : List Pattern) : Prop :=
  ∀ pattern ∈ patterns, pattern.WellFormed vocabulary count

section Patterns

variable {vocabulary : Vocabulary} {reading : Reading} {fuel count more : Nat} {item : Item}

theorem Item.WellFormed.mono (le : count ≤ more) (formed : item.WellFormed vocabulary count) :
    item.WellFormed vocabulary more := by
  cases item with
  | pattern only => exact Pattern.WellFormed.mono le formed
  | group sequence =>
    exact ⟨formed.1, fun element member => (formed.2 element member).mono le⟩
  | absentField field => exact formed
  | predicate => trivial

theorem Item.WellFormed.onto (formed : item.WellFormed vocabulary count) {body : Body}
    (inside : body.WellFormed vocabulary count) :
    (item.onto body).WellFormed vocabulary count := by
  cases item with
  | pattern only => exact ⟨List.forall_mem_cons.mpr ⟨formed, inside.children⟩, inside.absent⟩
  | group sequence =>
    exact ⟨List.forall_mem_append.mpr ⟨formed.2, inside.children⟩, inside.absent⟩
  | absentField field =>
    exact ⟨inside.children, List.forall_mem_cons.mpr ⟨formed, inside.absent⟩⟩
  | predicate => exact inside

theorem AllWellFormed.mono (le : count ≤ more) {patterns : List Pattern}
    (formed : AllWellFormed vocabulary count patterns) : AllWellFormed vocabulary more patterns :=
  fun pattern member => (formed pattern member).mono le

theorem forms_single (sound : reading.Sound) (start : Nat)
    (formed : item.WellFormed vocabulary reading.captureNames.length) :
    Forms (fun count only => only.WellFormed vocabulary count) (item.single start) reading := by
  unfold Item.single
  split
  · exact forms_pure sound formed
  · exact forms_malformed _

theorem forms_patterns (sound : reading.Sound) (start : Nat)
    (formed : item.WellFormed vocabulary reading.captureNames.length) :
    Forms (fun count patterns => patterns ≠ [] ∧ AllWellFormed vocabulary count patterns)
      (item.patterns start) reading := by
  unfold Item.patterns
  split
  · exact forms_pure sound ⟨List.cons_ne_nil _ _, List.forall_mem_singleton.mpr formed⟩
  · exact forms_pure sound formed
  · exact forms_malformed _

theorem forms_elements (sound : reading.Sound) (start : Nat)
    (formed : item.WellFormed vocabulary reading.captureNames.length) :
    Forms (AllWellFormed vocabulary) (item.elements start) reading := by
  unfold Item.elements
  split
  · exact forms_pure sound (List.forall_mem_nil _)
  · exact (forms_patterns sound start formed).imp fun _ _ listed => listed.2

theorem forms_childless (sound : reading.Sound) {matcher : Matcher}
    (accepted : matcher.FitsIn vocabulary) :
    Forms (Item.WellFormed vocabulary) (childless matcher) reading :=
  (forms_captures sound).map fun _ _ _ captured =>
    .node accepted (List.forall_mem_nil _) (Or.inl rfl) captured (List.forall_mem_nil _)

/-- The captures behind a group are moved to its first pattern. -/
theorem forms_makeGroup (sound : reading.Sound) (start : Nat) {elements : List Pattern}
    (formed : AllWellFormed vocabulary reading.captureNames.length elements) :
    Forms (Item.WellFormed vocabulary) (makeGroup start elements) reading := by
  refine (forms_captures sound).bind fun numbers later grows captured => ?_
  have inside := formed.mono grows.le
  split
  · exact forms_malformed _
  · next only =>
    have alone := inside only List.mem_cons_self
    exact forms_pure grows.sound (alone.capturing captured)
  · next first rest _ =>
    rcases List.forall_mem_cons.mp inside with ⟨head, others⟩
    refine forms_pure grows.sound
      ⟨List.cons_ne_nil _ _, List.forall_mem_cons.mpr ⟨head.capturing captured, others⟩⟩

theorem forms_readAbsentField (sound : reading.Sound) (scope : Scope) :
    Forms (Item.WellFormed vocabulary) (readAbsentField vocabulary scope) reading := by
  refine (grows_advance sound 1).then fun _ _ sign => ?_
  refine Forms.take offset_run ?_
  refine (grows_readWhile sign.sound _).then fun name _ named => ?_
  refine (forms_fieldNumber named.sound _ _).bind fun field _ numbered known => ?_
  exact (grows_checkField numbered.sound _ _ _).map fun _ _ _ _ => known

theorem forms_readMissingSymbol (sound : reading.Sound) :
    Forms (fun _ symbol => (Matcher.missing symbol).FitsIn vocabulary)
      (readMissingSymbol vocabulary) reading := by
  refine Forms.take peek_run ?_
  split
  · exact (forms_readToken sound).map fun _ _ _ shows_ => shows_
  · refine .ite (fun _ => ?_) fun _ => forms_pure sound trivial
    refine Forms.take offset_run ?_
    refine (grows_readWhile sound _).then fun name _ named => ?_
    exact (forms_namedSymbol named.sound _ _).map fun _ _ _ shows_ => shows_
  · exact forms_pure sound trivial

theorem forms_readMissing (sound : reading.Sound) (scope : Scope) (start : Nat) :
    Forms (Item.WellFormed vocabulary) (readMissing vocabulary scope start) reading := by
  refine (grows_skipTrivia sound).then fun _ _ skipped => ?_
  refine (forms_readMissingSymbol skipped.sound).bind fun symbol _ read accepted => ?_
  refine (grows_checkChild read.sound _ _ _).then fun _ _ checked => ?_
  refine (grows_skipTrivia checked.sound).then fun _ _ gap => ?_
  refine Forms.take peek_run (Forms.take offset_run ?_)
  refine (forms_require gap.sound _ _).bind fun _ _ required _ => ?_
  refine (grows_advance required.sound 1).then fun _ _ closed => ?_
  exact forms_childless closed.sound accepted

theorem forms_nodeSymbol (sound : reading.Sound) (name : String) (place : Nat) :
    Forms (fun _ symbol => (nodeMatcher symbol).FitsIn vocabulary)
      (nodeSymbol vocabulary name place) reading :=
  .ite (fun _ => forms_pure sound trivial) fun _ =>
    (forms_namedSymbol sound name place).map fun _ _ _ shows_ => shows_

/-- The productions keep what is collected sound, and what they give is well formed. -/
structure Formative (vocabulary : Vocabulary) (fuel : Nat) : Prop where
  item : ∀ {reading : Reading} (scope : Scope), reading.Sound →
    Forms (Item.WellFormed vocabulary) (readItem vocabulary scope fuel) reading
  field : ∀ {reading : Reading} (scope : Scope) (name : String) (start : Nat), reading.Sound →
    Forms (Item.WellFormed vocabulary) (readField vocabulary scope name start fuel) reading
  node : ∀ {reading : Reading} (scope : Scope) (start : Nat), reading.Sound →
    Forms (Item.WellFormed vocabulary) (readNode vocabulary scope start fuel) reading
  body : ∀ {reading : Reading} (scope : Scope), reading.Sound →
    Forms (Body.WellFormed vocabulary) (readBody vocabulary scope fuel) reading
  group : ∀ {reading : Reading} (scope : Scope), reading.Sound →
    Forms (AllWellFormed vocabulary) (readGroup vocabulary scope fuel) reading
  alternatives : ∀ {reading : Reading} (scope : Scope), reading.Sound →
    Forms (AllWellFormed vocabulary) (readAlternatives vocabulary scope fuel) reading

namespace Formative

theorem readItem (formative : Formative vocabulary fuel) (scope : Scope) (sound : reading.Sound) :
    Forms (Item.WellFormed vocabulary) (readItem vocabulary scope (fuel + 1)) reading := by
  rw [QueryText.readItem]
  refine (grows_skipTrivia sound).then fun _ here skipped => ?_
  refine Forms.take offset_run (Forms.take peek_run ?_)
  split
  · refine (grows_advance skipped.sound 1).then fun _ _ opened => ?_
    refine (grows_skipTrivia opened.sound).then fun _ _ gap => ?_
    have grouped : ∀ {later : Reading}, later.Sound → Forms (Item.WellFormed vocabulary)
        (readGroup vocabulary { scope with field := 0 } fuel >>= makeGroup here.offset) later :=
      fun sound => (formative.group _ sound).bind fun _ _ read formed =>
        forms_makeGroup read.sound _ formed
    refine Forms.take peek_run ?_
    split
    · exact (grows_readPredicate gap.sound _).map fun _ _ _ _ => trivial
    · exact grouped gap.sound
    · exact grouped gap.sound
    · exact grouped gap.sound
    · exact formative.node _ _ gap.sound
  · refine (grows_advance skipped.sound 1).then fun _ _ opened => ?_
    refine (formative.alternatives _ opened.sound).bind fun alternatives _ read formed => ?_
    refine (forms_require read.sound _ _).bind fun _ _ required some => ?_
    refine (forms_captures required.sound).map fun count _ le captured => ?_
    exact .oneOf (List.isEmpty_eq_false_iff.mp some) (Or.inl rfl) captured
      (formed.mono (Nat.le_trans required.le le))
  · refine (forms_readToken skipped.sound).bind fun symbol _ read shows_ => ?_
    exact (grows_checkChild read.sound _ _ _).then fun _ _ checked =>
      forms_childless checked.sound shows_
  · refine (grows_advance skipped.sound 1).then fun _ _ star => ?_
    exact (grows_checkChild star.sound _ _ _).then fun _ _ checked =>
      forms_childless checked.sound trivial
  · exact forms_readAbsentField skipped.sound scope
  · refine (forms_require skipped.sound _ _).bind fun _ _ required _ => ?_
    refine (grows_readWhile required.sound _).then fun name _ read => ?_
    refine .ite (fun _ => ?_) fun _ => formative.field _ _ _ read.sound
    exact (grows_checkChild read.sound _ _ _).then fun _ _ checked =>
      forms_childless checked.sound trivial
  · exact forms_malformed _

theorem readField (formative : Formative vocabulary fuel) (scope : Scope) (name : String)
    (start : Nat) (sound : reading.Sound) :
    Forms (Item.WellFormed vocabulary) (readField vocabulary scope name start (fuel + 1))
      reading := by
  rw [QueryText.readField]
  refine (grows_skipTrivia sound).then fun _ _ skipped => ?_
  refine Forms.take peek_run ?_
  refine (forms_require skipped.sound _ _).bind fun _ _ required _ => ?_
  refine (grows_advance required.sound 1).then fun _ _ colon => ?_
  refine (forms_fieldNumber colon.sound _ _).bind fun field _ numbered known => ?_
  refine (grows_checkField numbered.sound _ _ _).then fun _ _ checked => ?_
  refine (grows_skipTrivia checked.sound).then fun _ _ gap => ?_
  refine Forms.take offset_run ?_
  refine (formative.item _ gap.sound).bind fun item _ read formed => ?_
  exact (forms_single read.sound _ formed).map fun _ _ _ only => only.inField known

theorem readNode (formative : Formative vocabulary fuel) (scope : Scope) (start : Nat)
    (sound : reading.Sound) :
    Forms (Item.WellFormed vocabulary) (readNode vocabulary scope start (fuel + 1)) reading := by
  rw [QueryText.readNode]
  refine Forms.take offset_run ?_
  refine (grows_readWhile sound _).then fun name _ read => ?_
  refine (forms_require read.sound _ _).bind fun _ _ required _ => ?_
  refine .ite (fun _ => forms_readMissing required.sound scope start) fun _ => ?_
  refine (forms_nodeSymbol required.sound _ _).bind fun symbol _ found accepted => ?_
  refine (grows_checkChild found.sound _ _ _).then fun _ _ checked => ?_
  refine (formative.body _ checked.sound).bind fun body _ read inside => ?_
  refine (forms_captures read.sound).map fun count _ le captured => ?_
  exact .node accepted inside.absent (Or.inl rfl) captured
    fun child member => (inside.children child member).mono le

theorem readBody (formative : Formative vocabulary fuel) (scope : Scope) (sound : reading.Sound) :
    Forms (Body.WellFormed vocabulary) (readBody vocabulary scope (fuel + 1)) reading := by
  rw [QueryText.readBody]
  refine (grows_skipTrivia sound).then fun _ _ skipped => ?_
  refine Forms.take peek_run ?_
  split
  · refine (grows_advance skipped.sound 1).then fun _ _ closed => ?_
    exact forms_pure closed.sound
      ⟨List.forall_mem_nil _, List.forall_mem_nil _⟩
  · exact Forms.take offset_run (forms_malformed _)
  · refine (formative.item _ skipped.sound).bind fun item _ read formed => ?_
    exact (formative.body _ read.sound).map fun _ _ le inside => (formed.mono le).onto inside

theorem readGroup (formative : Formative vocabulary fuel) (scope : Scope)
    (sound : reading.Sound) :
    Forms (AllWellFormed vocabulary) (readGroup vocabulary scope (fuel + 1)) reading := by
  rw [QueryText.readGroup]
  refine (grows_skipTrivia sound).then fun _ _ skipped => ?_
  refine Forms.take peek_run ?_
  split
  · refine (grows_advance skipped.sound 1).then fun _ _ closed => ?_
    exact forms_pure closed.sound (List.forall_mem_nil _)
  · exact Forms.take offset_run (forms_malformed _)
  · refine Forms.take offset_run ?_
    refine (formative.item _ skipped.sound).bind fun item _ read formed => ?_
    refine (forms_elements read.sound _ formed).bind fun elements _ listed inside => ?_
    exact (formative.group _ listed.sound).map fun _ _ le others =>
      List.forall_mem_append.mpr ⟨inside.mono le, others⟩

theorem readAlternatives (formative : Formative vocabulary fuel) (scope : Scope)
    (sound : reading.Sound) :
    Forms (AllWellFormed vocabulary) (readAlternatives vocabulary scope (fuel + 1)) reading := by
  rw [QueryText.readAlternatives]
  refine (grows_skipTrivia sound).then fun _ _ skipped => ?_
  refine Forms.take peek_run ?_
  split
  · refine (grows_advance skipped.sound 1).then fun _ _ closed => ?_
    exact forms_pure closed.sound (List.forall_mem_nil _)
  · exact Forms.take offset_run (forms_malformed _)
  · refine Forms.take offset_run ?_
    refine (formative.item _ skipped.sound).bind fun item _ read formed => ?_
    refine (forms_single read.sound _ formed).bind fun pattern _ split alone => ?_
    exact (formative.alternatives _ split.sound).map fun _ _ le others =>
      List.forall_mem_cons.mpr ⟨alone.mono le, others⟩

end Formative

theorem formative (vocabulary : Vocabulary) (fuel : Nat) : Formative vocabulary fuel := by
  induction fuel with
  | zero => constructor <;> (intros; exact forms_throw _)
  | succ fuel ih =>
    exact {
      item := fun scope sound => ih.readItem scope sound
      field := fun scope name start sound => ih.readField scope name start sound
      node := fun scope start sound => ih.readNode scope start sound
      body := fun scope sound => ih.readBody scope sound
      group := fun scope sound => ih.readGroup scope sound
      alternatives := fun scope sound => ih.readAlternatives scope sound }

/-- A pattern takes over the tests and predicates that were collected, and the next one begins with
none. -/
theorem forms_finishPattern (sound : reading.Sound) (start : Nat) {sequence : List Pattern}
    (described : sequence ≠ [])
    (formed : AllWellFormed vocabulary reading.captureNames.length sequence) :
    Forms (fun count pattern => pattern.WellFormed vocabulary count)
      (finishPattern start sequence) reading := by
  have cleared : Reading.Sound { reading with tests := [], predicates := [] } :=
    ⟨sound.distinct, sound.named, List.forall_mem_nil _, List.forall_mem_nil _⟩
  exact .of_run rfl ⟨cleared, Nat.le_refl _⟩ ⟨described, formed, sound.tests, sound.predicates⟩

theorem forms_readPatterns (depth : Nat) (sound : reading.Sound) :
    Forms (fun count patterns => ∀ pattern ∈ patterns, pattern.WellFormed vocabulary count)
      (readPatterns vocabulary depth fuel) reading := by
  induction fuel generalizing reading with
  | zero => exact forms_throw _
  | succ fuel ih =>
    refine (grows_skipTrivia sound).then fun _ _ skipped => ?_
    refine Forms.take peek_run ?_
    refine .ite (fun _ => forms_pure skipped.sound (List.forall_mem_nil _)) fun _ => ?_
    refine Forms.take offset_run ?_
    refine ((formative vocabulary depth).item _ skipped.sound).bind fun item _ read formed => ?_
    refine (forms_patterns read.sound _ formed).bind fun sequence _ listed described => ?_
    refine (forms_finishPattern listed.sound _ described.1 described.2).bind
      fun pattern _ finished whole => ?_
    exact (ih finished.sound).map fun _ _ le others =>
      List.forall_mem_cons.mpr ⟨whole.mono le, others⟩

end Patterns

end QueryText

namespace Query

open QueryText

/-- A compiled query is well formed. -/
theorem wellFormed_of_compile {language : Language} {source : String} {query : Query}
    (compiled : compile language source = .ok query) :
    query.language = language ∧ query.WellFormed := by
  let size := (Utf8.encode source.toList).length
  have forms := @forms_readPatterns language.vocabulary _ (size + 1) (2 * size + 1)
    (Reading.sound_start source.toList)
  unfold Forms Ends at forms
  unfold compile read readText at compiled
  split at forms
  · next patterns later ran =>
    dsimp only at compiled
    rw [ran] at compiled
    obtain rfl := Except.ok.inj compiled
    rcases forms with ⟨⟨sound, -⟩, formed⟩
    exact ⟨rfl, sound.distinct, sound.named, by simpa using formed⟩
  · next halt ran =>
    dsimp only at compiled
    rw [ran] at compiled
    cases compiled

end Query

end Reparse
