import Reparse.Proofs.Query.Stance
import Reparse.Query.Error

/-!
# What steps gain

Every step of reading a query leaves the reading between two characters, some number of bytes
further, or halts at an error with a place (`Gains`). Gains add up (`Gains.bind`). Captures and the
arguments of predicates take at least one byte each, so the bytes that are left bound their number
(`gains_readCaptures`, `gains_readArguments`).

An error in a query text names an offset up to the end of the text, the number of line breaks
before it, and how far it stands from the last of them (`QueryError.PlacedIn`). A line break is a
byte of its own in UTF-8, so the line around an offset, wherever that falls, can be quoted
(`QueryError.quotation?_isSome`).
-/

namespace Reparse

/-! ## The places of errors -/

namespace QueryError

/-- The error has a place in the bytes: its row counts the line breaks before the offset, and its
column the bytes from the last of them, or from the start. -/
structure PlacedIn (bytes : List UInt8) (error : QueryError) : Prop where
  offset_le : error.offset ≤ bytes.length
  row_eq : error.row = (bytes.take error.offset).count 10
  column_eq : ∃ earlier line, bytes.take error.offset = earlier ++ line ∧
    (earlier = [] ∨ earlier.getLast? = some 10) ∧ 10 ∉ line ∧ error.column = line.length

/-- The last line of some bytes: no line break is in it, and one is right before it. -/
theorem exists_last_line (bytes : List UInt8) :
    ∃ earlier line, bytes = earlier ++ line ∧ (earlier = [] ∨ earlier.getLast? = some 10) ∧
      10 ∉ line ∧ lineStart bytes = earlier.length := by
  have parted : bytes =
      (bytes.reverse.dropWhile (· != 10)).reverse ++
        (bytes.reverse.takeWhile (· != 10)).reverse := by
    rw [← List.reverse_append, List.takeWhile_append_dropWhile, List.reverse_reverse]
  refine ⟨_, _, parted, ?_, ?_, ?_⟩
  · rw [List.getLast?_reverse, List.reverse_eq_nil_iff, ← List.head?_eq_none_iff]
    cases first : (bytes.reverse.dropWhile (· != 10)).head? with
    | none => exact Or.inl rfl
    | some byte =>
      have stopped := List.head?_dropWhile_not (· != 10) bytes.reverse
      rw [first] at stopped
      exact Or.inr (by simpa using stopped)
  · intro member
    have passed := List.all_eq_true.mp List.all_takeWhile _ (List.mem_reverse.mp member)
    simp at passed
  · have sizes := congrArg List.length parted
    simp only [List.length_append, List.length_reverse] at sizes
    simp only [lineStart, List.length_reverse]
    omega

theorem placedIn_located (text : List Char) (kind : QueryErrorKind) (offset : Nat)
    (message : String) : (located text kind offset message).PlacedIn (Utf8.encode text) where
  offset_le := Nat.min_le_right _ _
  row_eq := rfl
  column_eq := by
    rcases exists_last_line ((Utf8.encode text).take (min offset (Utf8.encode text).length)) with
      ⟨earlier, line, parted, border, noBreak, start⟩
    refine ⟨earlier, line, parted, border, noBreak, ?_⟩
    have sizes := congrArg List.length parted
    rw [List.length_take, List.length_append] at sizes
    change min offset (Utf8.encode text).length - lineStart _ = _
    rw [start]
    omega

/-- A line break among the bytes is a line break of the text. -/
theorem exists_of_encode_eq {text : List Char} {before after : List UInt8}
    (parted : Utf8.encode text = before ++ 10 :: after) :
    ∃ earlier later, text = earlier ++ '\n' :: later ∧ before = Utf8.encode earlier := by
  induction text generalizing before with
  | nil => simp at parted
  | cons char text ih =>
    rw [Utf8.encode_cons] at parted
    rcases List.append_eq_append_iff.mp parted with
      ⟨between, rfl, inside⟩ | ⟨between, encoded, inside⟩
    · rcases ih inside with ⟨earlier, later, rfl, rfl⟩
      exact ⟨char :: earlier, later, rfl, rfl⟩
    · -- the bytes of the character reach up to the line break or past it
      rcases between with _ | ⟨byte, between⟩
      · rw [List.append_nil] at encoded
        have next : Utf8.encode text = [] ++ 10 :: after := inside.symm
        rcases ih next with ⟨earlier, later, rfl, same⟩
        exact ⟨char :: earlier, later, rfl, by simp [encoded, ← same]⟩
      · obtain ⟨rfl, -⟩ := List.cons.inj inside
        have member : 10 ∈ String.utf8EncodeChar char := by simp [encoded]
        by_cases ascii : Utf8.IsAscii char
        · rcases Utf8.encode_ascii ascii with ⟨only, single, shown⟩
          rw [single, List.mem_singleton] at member
          subst member
          rw [single] at encoded
          rcases List.append_eq_singleton_iff.mp encoded.symm with ⟨rfl, -⟩ | ⟨-, absent⟩
          · exact ⟨[], text, by rw [← shown]; rfl, rfl⟩
          · cases absent
        · exact absurd (show Utf8.IsAscii (Char.ofUInt8 10) by decide)
            (Utf8.encode_wide ascii 10 member)

/-- The last line before an offset begins between two characters. -/
theorem exists_before_line (text : List Char) (offset : Nat) :
    ∃ before after, text = before ++ after ∧
      lineStart ((Utf8.encode text).take offset) = Utf8.width before := by
  rcases exists_last_line ((Utf8.encode text).take offset) with
    ⟨earlier, line, parted, border, -, start⟩
  rcases border with rfl | last
  · exact ⟨[], text, rfl, start⟩
  · rcases List.getLast?_eq_some_iff.mp last with ⟨beginning, rfl⟩
    have whole : Utf8.encode text =
        beginning ++ 10 :: (line ++ (Utf8.encode text).drop offset) := by
      calc Utf8.encode text = (Utf8.encode text).take offset ++ (Utf8.encode text).drop offset :=
            (List.take_append_drop offset _).symm
        _ = _ := by rw [parted]; simp
    rcases exists_of_encode_eq whole with ⟨before, after, rfl, rfl⟩
    exact ⟨before ++ ['\n'], after, by simp, by rw [start]; simp; rfl⟩

/-- The line around any offset can be quoted. -/
theorem quotation?_isSome (text : List Char) (offset : Nat) :
    (quotation? text offset).isSome := by
  rcases exists_before_line text (min offset (Utf8.encode text).length) with
    ⟨before, after, parted, start⟩
  have tail : Utf8.from? (Utf8.width before) text = some after := by
    rw [parted, Utf8.from?_width]
  have line : Utf8.slice? (Utf8.width before)
      (Utf8.width before + Utf8.width (after.takeWhile (· != '\n'))) text =
        some (after.takeWhile (· != '\n')) := by
    have found := Utf8.slice?_width before (after.takeWhile (· != '\n'))
      (after.dropWhile (· != '\n'))
    rwa [List.takeWhile_append_dropWhile, ← parted] at found
  unfold quotation?
  simp only [start, tail, line, Option.bind_eq_bind, Option.bind_some, Option.pure_def,
    Option.isSome_some]

end QueryError

namespace QueryText

/-- Reading halts at an error that has a place in the text. -/
def Halt.IsPlaced (text : List Char) : Halt → Prop
  | .error found => found.PlacedIn (Utf8.encode text)
  | .cut | .exhausted => False

/-- A later reading of the same text, between two characters and at least `count` bytes further. -/
structure Reading.Onward (count : Nat) (reading later : Reading) : Prop where
  text_eq : later.text = reading.text
  stands : later.Stands
  rest_le : later.rest.length + count ≤ reading.rest.length

/-- A step moves on by at least `count` bytes or halts at an error with a place. -/
abbrev Gains {α : Type} (count : Nat) (step : Compiling α) (reading : Reading) : Prop :=
  Ends step reading (fun _ later => reading.Onward count later) (Halt.IsPlaced reading.text)

section Rules

variable {α β : Type} {step : Compiling α} {next : α → Compiling β} {reading later : Reading}
  {k m n : Nat}

theorem Reading.Stands.onward (stands : reading.Stands) : reading.Onward 0 reading :=
  ⟨rfl, stands, Nat.le_refl _⟩

theorem Reading.Onward.trans {last : Reading} (first : reading.Onward m later)
    (second : later.Onward n last) : reading.Onward (m + n) last where
  text_eq := second.text_eq.trans first.text_eq
  stands := second.stands
  rest_le := by
    have := first.rest_le
    have := second.rest_le
    omega

theorem Reading.Onward.le (onward : reading.Onward m later) (enough : k ≤ m) :
    reading.Onward k later :=
  { onward with rest_le := by have := onward.rest_le; omega }

/-- What a step gains from a later reading adds to what was gained before. -/
theorem Reading.Onward.gains (onward : reading.Onward m later) (gains : Gains n step later)
    (enough : k ≤ m + n) :
    Ends step later (fun _ last => reading.Onward k last) (Halt.IsPlaced reading.text) :=
  gains.imp (fun _ _ further => (onward.trans further).le enough)
    fun _ placed => onward.text_eq ▸ placed

theorem Gains.bind (first : Gains m step reading)
    (rest : ∀ value later, reading.Onward m later → Gains n (next value) later)
    (enough : k ≤ m + n) : Gains k (step >>= next) reading :=
  Ends.bind first fun value later onward => onward.gains (rest value later onward) enough

/-- What the first step gains is kept by the next. -/
theorem Gains.then (first : Gains (m + k) step reading)
    (rest : ∀ value later, reading.Onward (m + k) later → Gains 0 (next value) later) :
    Gains k (step >>= next) reading :=
  first.bind rest (Nat.le_add_left k m)

theorem Gains.map (gains : Gains (m + k) step reading) (make : α → β) :
    Gains k (step >>= fun value => pure (make value)) reading :=
  gains.then fun _ _ onward => onward.stands.onward

theorem Gains.le (gains : Gains m step reading) (enough : k ≤ m) : Gains k step reading :=
  gains.imp (fun _ _ onward => onward.le enough) fun _ placed => placed

theorem Gains.outcome (gains : Gains k step reading) :
    (∃ value later, step.run reading = .ok (value, later) ∧ reading.Onward k later) ∨
      ∃ error, step.run reading = .error (.error error) ∧
        error.PlacedIn (Utf8.encode reading.text) := by
  unfold Gains Ends at gains
  split at gains
  · next value later ran => exact Or.inl ⟨value, later, ran, gains⟩
  · next halt ran =>
    cases halt with
    | error found => exact Or.inr ⟨found, ran, gains⟩
    | cut => exact gains.elim
    | exhausted => exact gains.elim

theorem gains_pure (stands : reading.Stands) (value : α) : Gains 0 (pure value) reading :=
  stands.onward

end Rules

/-! ## Errors -/

section Errors

variable {α : Type} {reading : Reading} {good : α → Reading → Prop}

theorem ends_refuse (kind : QueryErrorKind) (offset : Nat) (message : String) :
    Ends (refuse kind offset message) reading good (Halt.IsPlaced reading.text) :=
  QueryError.placedIn_located reading.text kind offset message

theorem ends_pointAt (kind : QueryErrorKind) (offset : Nat) :
    Ends (pointAt kind offset) reading good (Halt.IsPlaced reading.text) := by
  rcases Option.isSome_iff_exists.mp (QueryError.quotation?_isSome reading.text offset) with
    ⟨quotation, quoted⟩
  unfold pointAt
  refine Ends.take get_run ?_
  rw [quoted]
  exact ends_refuse kind offset quotation

theorem ends_malformed (offset : Nat) :
    Ends (malformed offset) reading good (Halt.IsPlaced reading.text) := ends_pointAt _ _

theorem ends_impossible (offset : Nat) :
    Ends (impossible offset) reading good (Halt.IsPlaced reading.text) := ends_pointAt _ _

theorem ends_require (condition : Prop) [Decidable condition] (offset : Nat) :
    Ends (require condition offset) reading (fun _ later => condition ∧ later = reading)
      (Halt.IsPlaced reading.text) :=
  .ite (fun holds => .pure ⟨holds, rfl⟩) fun _ => ends_malformed offset

end Errors

/-! ## Single steps -/

section Steps

variable {before after passed : List Char} {reading : Reading}

theorem Reading.StandsAt.onward (stands : reading.StandsAt before (passed ++ after)) :
    reading.Onward passed.length (reading.moved (Utf8.width passed)) where
  text_eq := rfl
  stands := ⟨_, _, stands.moved⟩
  rest_le := by
    have left := congrArg List.length stands.moved.rest_eq
    have whole := congrArg List.length stands.rest_eq
    have taken := Utf8.length_le_width passed
    rw [Utf8.length_encode] at left whole
    rw [Utf8.width_append] at whole
    omega

theorem gains_skip {char : Char} (stands : reading.Stands) (seen : reading.face = some char)
    (ascii : Utf8.IsAscii char) : Gains 1 skip reading := by
  rcases stands with ⟨before, after, stands⟩
  have first := (stands.face_eq_some_iff ascii).mp seen
  rcases after with _ | ⟨next, after⟩
  · cases first
  · obtain rfl : next = char := Option.some.inj first
    have passed : reading.StandsAt before ([next] ++ after) := stands
    exact .of_run (skip_run ascii) passed.onward

theorem gains_skipTrivia (stands : reading.Stands) : Gains 0 skipTrivia reading := by
  rcases stands with ⟨before, after, stands⟩
  rcases exists_trivia false after with ⟨passed, rest, rfl, count⟩
  refine .of_run skipTrivia_run ?_
  rw [stands.rest_eq, count]
  exact stands.onward.le (Nat.zero_le _)

/-- Reading the characters that pass a test gains each of them. -/
theorem ends_readWhile {passes : Char → Bool} (plain : ∀ char, passes char → Utf8.IsAscii char)
    (stands : reading.Stands) :
    Ends (readWhile passes) reading (fun word later => reading.Onward word.toList.length later)
      (Halt.IsPlaced reading.text) := by
  rcases stands with ⟨before, after, stands⟩
  refine .of_run (readWhile_run plain stands) ?_
  have passed : reading.StandsAt before (after.takeWhile passes ++ after.dropWhile passes) := by
    rw [List.takeWhile_append_dropWhile]
    exact stands
  rw [String.toList_ofList]
  exact passed.onward

theorem gains_readWhile {passes : Char → Bool} (plain : ∀ char, passes char → Utf8.IsAscii char)
    (stands : reading.Stands) : Gains 0 (readWhile passes) reading :=
  (ends_readWhile plain stands).imp (fun _ _ onward => onward.le (Nat.zero_le _))
    fun _ placed => placed

/-- A name that begins with the character that was seen is not empty. -/
theorem gains_readName {char : Char} (stands : reading.Stands) (seen : reading.face = some char)
    (named : isNamePart char = true) : Gains 1 readName reading := by
  rcases stands with ⟨before, after, stands⟩
  have first := (stands.face_eq_some_iff (isAscii_of_isNamePart named)).mp seen
  rcases after with _ | ⟨next, after⟩
  · cases first
  · obtain rfl : next = char := Option.some.inj first
    refine .of_run (readWhile_run (fun _ => isAscii_of_isNamePart) stands) ?_
    have passed : reading.StandsAt before
        ((next :: after).takeWhile isNamePart ++ (next :: after).dropWhile isNamePart) := by
      rw [List.takeWhile_append_dropWhile]
      exact stands
    exact passed.onward.le (by simp [named])

theorem gains_advance (stands : reading.StandsAt before (passed ++ after)) :
    Gains 0 (advance (Utf8.width passed)) reading :=
  .of_run rfl (stands.onward.le (Nat.zero_le _))

theorem gains_readString (stands : reading.Stands) (seen : reading.face = some '"') :
    Gains 1 readString reading := by
  refine Ends.take offset_run ?_
  refine (gains_skip stands seen (by decide)).then ?_
  rintro - later ⟨-, ⟨before, after, inside⟩, -⟩
  refine Ends.take (remaining_run inside) ?_
  split
  · exact ends_malformed _
  · next value size found =>
    rcases stringFrom_eq_some found with ⟨passed, rest, rfl, rfl⟩
    exact (gains_advance inside).map _

theorem gains_checkField (vocabulary : Vocabulary) (parent : Option Nat) (field offset : Nat)
    (stands : reading.Stands) : Gains 0 (checkField vocabulary parent field offset) reading :=
  .ite (fun _ => gains_pure stands _) fun _ => ends_impossible offset

theorem gains_checkChild (vocabulary : Vocabulary) (scope : Scope) (symbol : Option Nat)
    (offset : Nat) (stands : reading.Stands) :
    Gains 0 (checkChild vocabulary scope symbol offset) reading :=
  .ite (fun _ => gains_pure stands _) fun _ => ends_impossible offset

theorem gains_namedSymbol (vocabulary : Vocabulary) (name : String) (start : Nat)
    (stands : reading.Stands) : Gains 0 (namedSymbol vocabulary name start) reading := by
  unfold namedSymbol
  split
  · exact ends_refuse _ _ _
  · exact gains_pure stands _

theorem gains_nodeSymbol (vocabulary : Vocabulary) (name : String) (place : Nat)
    (stands : reading.Stands) : Gains 0 (nodeSymbol vocabulary name place) reading :=
  .ite (fun _ => gains_pure stands _) fun _ =>
    (gains_namedSymbol _ _ _ stands).map _

theorem gains_fieldNumber (vocabulary : Vocabulary) (name : String) (start : Nat)
    (stands : reading.Stands) : Gains 0 (fieldNumber vocabulary name start) reading := by
  unfold fieldNumber
  split
  · exact ends_refuse _ _ _
  · exact gains_pure stands _

theorem gains_single (start : Nat) (item : Item) (stands : reading.Stands) :
    Gains 0 (item.single start) reading := by
  unfold Item.single
  split
  · exact gains_pure stands _
  · exact ends_malformed _

theorem gains_patterns (start : Nat) (item : Item) (stands : reading.Stands) :
    Gains 0 (item.patterns start) reading := by
  unfold Item.patterns
  split
  · exact gains_pure stands _
  · exact gains_pure stands _
  · exact ends_malformed _

theorem gains_elements (start : Nat) (item : Item) (stands : reading.Stands) :
    Gains 0 (item.elements start) reading := by
  unfold Item.elements
  split
  · exact gains_pure stands _
  · exact gains_patterns start item stands

theorem gains_readToken (vocabulary : Vocabulary) (stands : reading.Stands)
    (seen : reading.face = some '"') : Gains 1 (readToken vocabulary) reading := by
  refine Ends.take offset_run ?_
  refine (gains_readString stands seen).then fun value later onward => ?_
  split
  · exact ends_refuse _ _ _
  · exact gains_pure onward.stands _

end Steps

/-! ## Captures -/

section Captures

variable {reading later : Reading}

/-- Where a reading stands does not depend on what was collected. -/
theorem Reading.Stands.recorded (stands : reading.Stands) (text : later.text = reading.text)
    (rest : later.rest = reading.rest) (offset : later.offset = reading.offset) :
    reading.Onward 0 later := by
  rcases stands with ⟨before, after, stands⟩
  exact ⟨text, ⟨before, after, text.trans stands.text_eq, rest.trans stands.rest_eq,
    offset.trans stands.offset_eq⟩, by rw [rest]; exact Nat.le_refl _⟩

theorem gains_captureNumber (name : String) (stands : reading.Stands) :
    Gains 0 (captureNumber name) reading := by
  refine Ends.take get_run ?_
  split
  · exact gains_pure stands _
  · exact Ends.take set_run (.pure (stands.recorded rfl rfl rfl))

theorem gains_readCaptures (fuel : Nat) (stands : reading.Stands)
    (enough : reading.rest.length < fuel) : Gains 0 (readCaptures fuel) reading := by
  induction fuel generalizing reading with
  | zero => omega
  | succ fuel ih =>
    refine (gains_skipTrivia stands).then fun _ here skipped => ?_
    refine Ends.take peek_run ?_
    refine .ite (fun seen => ?_) fun _ => gains_pure skipped.stands _
    refine Ends.take offset_run ?_
    refine (gains_skip skipped.stands seen (by decide)).then fun _ marked sign => ?_
    refine (gains_readWhile (fun _ => isAscii_of_isNamePart) sign.stands).then
      fun name behind named => ?_
    refine Ends.bind (ends_require (name ≠ "") here.offset) ?_
    rintro - _ ⟨-, rfl⟩
    refine (gains_captureNumber name named.stands).then fun number counted numbered => ?_
    have fewer : counted.rest.length < fuel := by
      have := skipped.rest_le
      have := sign.rest_le
      have := named.rest_le
      have := numbered.rest_le
      omega
    exact (ih numbered.stands fewer).map _

theorem gains_captures (stands : reading.Stands) : Gains 0 captures reading :=
  Ends.take get_run (gains_readCaptures _ stands (Nat.lt_succ_self _))

theorem gains_childless (matcher : Matcher) (stands : reading.Stands) :
    Gains 0 (childless matcher) reading :=
  (gains_captures stands).map _

theorem gains_makeGroup (start : Nat) (elements : List Pattern) (stands : reading.Stands) :
    Gains 0 (makeGroup start elements) reading := by
  refine (gains_captures stands).then fun more later onward => ?_
  split
  · exact ends_malformed _
  · exact gains_pure onward.stands _
  · exact gains_pure onward.stands _

end Captures

/-! ## Predicates -/

section Predicates

variable {reading : Reading}

theorem gains_noteString (value : String) (stands : reading.Stands) :
    Gains 0 (noteString value) reading := by
  refine .modify ?_
  split
  · exact stands.onward
  · exact stands.recorded rfl rfl rfl

theorem gains_knownCapture (name : String) (start : Nat) (stands : reading.Stands) :
    Gains 0 (knownCapture name start) reading := by
  refine Ends.take get_run ?_
  split
  · exact ends_refuse _ _ _
  · exact gains_pure stands _

theorem gains_readArguments (fuel : Nat) (stands : reading.Stands)
    (enough : reading.rest.length < fuel) : Gains 0 (readArguments fuel) reading := by
  induction fuel generalizing reading with
  | zero => omega
  | succ fuel ih =>
    -- an argument leaves fewer bytes, so the others can be read
    have onto : ∀ {later : Reading} (argument : Argument × Nat), reading.Onward 1 later →
        Gains 0 (do return argument :: (← readArguments fuel)) later := by
      intro later argument onward
      have := onward.rest_le
      exact (ih onward.stands (by omega)).map _
    refine (gains_skipTrivia stands).then fun _ here skipped => ?_
    have fewer := skipped.rest_le
    refine Ends.take offset_run (Ends.take peek_run ?_)
    split
    · next seen =>
      exact (gains_skip skipped.stands seen (by decide)).map _
    · next seen =>
      refine (gains_skip skipped.stands seen (by decide)).then fun _ _ sign => ?_
      refine (gains_readWhile (fun _ => isAscii_of_isNamePart) sign.stands).then fun name _ named =>
        ?_
      refine (gains_knownCapture name _ named.stands).then fun number _ known => ?_
      exact onto _ (((skipped.trans sign).trans named).trans known)
    · next seen =>
      refine (gains_readString skipped.stands seen).then fun value _ read => ?_
      refine (gains_noteString value read.stands).then fun _ _ noted => ?_
      exact onto _ ((skipped.trans read).trans noted)
    · next char _ _ _ seen =>
      refine Ends.bind (ends_require _ _) ?_
      rintro - _ ⟨named, rfl⟩
      refine (gains_readName skipped.stands seen named).then fun value _ read => ?_
      refine (gains_noteString value read.stands).then fun _ _ noted => ?_
      exact onto _ ((skipped.trans read).trans noted)
    · exact ends_malformed _

theorem gains_firstCapture (operator : String) (start : Nat) (argument : Argument)
    (stands : reading.Stands) : Gains 0 (firstCapture operator start argument) reading := by
  cases argument with
  | capture number => exact gains_pure stands _
  | string _ => exact ends_refuse _ _ _

theorem gains_twoArguments (operator : String) (start : Nat) (arguments : List (Argument × Nat))
    (stands : reading.Stands) : Gains 0 (twoArguments operator start arguments) reading := by
  unfold twoArguments
  split
  · exact gains_pure stands _
  · exact ends_refuse _ _ _

theorem gains_literals (operator : String) (start : Nat) (arguments : List (Argument × Nat))
    (stands : reading.Stands) : Gains 0 (literals operator start arguments) reading := by
  induction arguments with
  | nil => exact gains_pure stands _
  | cons argument rest ih =>
    rcases argument with ⟨number | value, place⟩
    · exact ends_refuse _ _ _
    · exact ih.map _

theorem gains_readRegex (pattern : String) (start : Nat) (stands : reading.Stands) :
    Gains 0 (readRegex pattern start) reading := by
  unfold readRegex
  split
  · exact gains_pure stands _
  · exact ends_refuse _ _ _
  · exact ends_refuse _ _ _

theorem gains_noteTest (test : TextTest) (stands : reading.Stands) :
    Gains 0 (noteTest test) reading := .modify (stands.recorded rfl rfl rfl)

theorem gains_addPredicate (operator : String) (arguments : List (Argument × Nat)) (start : Nat)
    (stands : reading.Stands) : Gains 0 (addPredicate operator arguments start) reading := by
  unfold addPredicate
  split
  · refine (gains_twoArguments _ _ _ stands).then ?_
    rintro ⟨first, second⟩ later parted
    refine (gains_firstCapture _ _ _ parted.stands).then fun capture _ found => ?_
    split
    · exact gains_noteTest _ found.stands
    · exact gains_noteTest _ found.stands
  · refine (gains_twoArguments _ _ _ stands).then ?_
    rintro ⟨first, second⟩ later parted
    refine (gains_firstCapture _ _ _ parted.stands).then fun capture _ found => ?_
    split
    · exact ends_refuse _ _ _
    · exact (gains_readRegex _ _ found.stands).then fun _ _ compiled =>
      gains_noteTest _ compiled.stands
  · split
    · refine (gains_firstCapture _ _ _ stands).then fun capture _ found => ?_
      exact (gains_literals _ _ _ found.stands).then fun _ _ valued =>
        gains_noteTest _ valued.stands
    · exact ends_refuse _ _ _
  · exact .modify (stands.recorded rfl rfl rfl)

theorem gains_readPredicate (start : Nat) (stands : reading.Stands)
    (seen : reading.face = some '#') : Gains 1 (readPredicate start) reading := by
  refine (gains_skip stands seen (by decide)).then fun _ _ sign => ?_
  refine (gains_readWhile (fun _ => isAscii_of_isOperatorPart) sign.stands).then
    fun operator _ named => ?_
  refine Ends.take offset_run (Ends.bind (ends_require _ _) ?_)
  rintro - _ ⟨-, rfl⟩
  refine Ends.take get_run ?_
  refine (gains_readArguments _ named.stands (Nat.lt_succ_self _)).then fun arguments _ read => ?_
  exact gains_addPredicate _ _ _ read.stands

end Predicates

end QueryText

end Reparse
