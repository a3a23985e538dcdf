import Mathlib.Data.List.GetD
import Reparse.Proofs.Occurrence
import Reparse.Proofs.Query.Spelling

/-!
# Reading tokens

Tokens are laid out in what is left of a text, behind a gap (`Toward`) or right away (`On`). The
gap is skipped, and then each token is read as what it is: a sign, a name up to its end, a string as
it was quoted. Captures are numbered by the names that occur, in the order of their first
occurrence, so a capture gets the number of its name (`On.readCapture`).
-/

namespace Reparse

namespace QueryText

/-! ## Names in order of occurrence -/

/-- The names of the captures among tokens, in order. -/
def capturesIn (tokens : List Token) : List String := tokens.filterMap Token.captureName?

/-! ## Where the tokens begin -/

/-- What a reading has collected before some tokens are read: the captures so far, in order of
occurrence, and no predicates. With those of the tokens, the captures will be `names`. -/
structure Recorded (names : List String) (tokens : List Token) (reading : Reading) : Prop where
  captures : ∃ seen, reading.captureNames = seen.eraseDups ∧
    (seen ++ capturesIn tokens).eraseDups = names
  strings_eq : reading.strings = []
  tests_eq : reading.tests = []
  predicates_eq : reading.predicates = []

/-- The tokens come next, perhaps behind a gap. -/
structure Toward (names : List String) (tokens : List Token) (reading : Reading) : Prop where
  recorded : Recorded names tokens reading
  laid : ∃ behindName before text, reading.StandsAt before text ∧ Laid behindName tokens text

/-- The tokens come next, without a gap. -/
structure On (names : List String) (tokens : List Token) (reading : Reading) : Prop where
  recorded : Recorded names tokens reading
  ahead : ∃ before text, reading.StandsAt before text ∧ Ahead tokens text

section Tokens

variable {names : List String} {token : Token} {tokens : List Token} {reading : Reading}

theorem Recorded.moved (recorded : Recorded names tokens reading) (count : Nat) :
    Recorded names tokens (reading.moved count) :=
  ⟨recorded.captures, recorded.strings_eq, recorded.tests_eq, recorded.predicates_eq⟩

/-- Only captures are recorded. -/
theorem Recorded.passed (recorded : Recorded names (token :: tokens) reading)
    (other : token.captureName? = none) : Recorded names tokens reading := by
  have same : capturesIn (token :: tokens) = capturesIn tokens := by simp [capturesIn, other]
  exact { recorded with captures := same ▸ recorded.captures }

theorem On.toward (on : On names tokens reading) : Toward names tokens reading := by
  rcases on.ahead with ⟨before, text, stands, ahead⟩
  exact ⟨on.recorded, false, before, text, stands, ahead.laid⟩

/-- The gap before tokens is skipped. -/
theorem Toward.skipTrivia (toward : Toward names tokens reading) :
    ∃ later, skipTrivia.run reading = .ok ((), later) ∧ On names tokens later := by
  rcases toward.laid with ⟨behindName, before, text, stands, laid⟩
  rcases laid.exists_ahead with ⟨gap, after, rfl, ahead, length⟩
  refine ⟨_, skipTrivia_run, toward.recorded.moved _, before ++ gap, after, ?_, ahead⟩
  rw [stands.rest_eq, length]
  exact stands.moved

theorem On.face (on : On names (token :: tokens) reading) :
    ∃ char, reading.face = some char ∧ token.Faces char := by
  rcases on.ahead with ⟨before, text, stands, ahead⟩
  cases ahead with
  | cons spelled _ =>
    rcases spelled.first with ⟨char, rest, rfl, faces⟩
    exact ⟨char, (stands.face_eq_some_iff faces.stops.2.2).mpr rfl, faces⟩

theorem On.face_nil (on : On names [] reading) : reading.face = none := by
  rcases on.ahead with ⟨before, text, stands, ahead⟩
  cases ahead
  exact stands.face_eq_none_iff.mpr rfl

theorem On.face_sign {char : Char} (on : On names (.sign char :: tokens) reading) :
    reading.face = some char := by
  rcases on.face with ⟨char, seen, rfl, -⟩
  exact seen

theorem On.face_string {value : String} (on : On names (.string value :: tokens) reading) :
    reading.face = some '"' := by
  rcases on.face with ⟨char, seen, rfl⟩
  exact seen

theorem On.face_absent {name : String} (on : On names (.absent name :: tokens) reading) :
    reading.face = some '!' := by
  rcases on.face with ⟨char, seen, rfl⟩
  exact seen

/-- A sign is skipped. -/
theorem On.skip {char : Char} (on : On names (.sign char :: tokens) reading) :
    ∃ later, skip.run reading = .ok ((), later) ∧ Toward names tokens later := by
  rcases on.ahead with ⟨before, text, stands, ahead⟩
  cases ahead with
  | cons spelled laid =>
    rcases spelled.first with ⟨face, rest, same, faces⟩
    cases spelled
    obtain ⟨rfl, rfl⟩ := List.cons.inj same
    exact ⟨_, skip_run faces.stops.2.2, (on.recorded.passed rfl).moved _, _, _, _, stands.moved,
      laid⟩

/-- A name is read up to its end, where no other name goes on. -/
theorem readName_run {before text : List Char} {name : String} (isName : IsName name)
    (stands : reading.StandsAt before (name.toList ++ text)) (laid : Laid true tokens text) :
    readName.run reading = .ok (name, reading.moved (Utf8.width name.toList)) := by
  have taken : (name.toList ++ text).takeWhile isNamePart = name.toList := by
    rw [List.takeWhile_append_of_pos isName.isNamePart]
    cases text with
    | nil => simp
    | cons char text => simp [laid.first rfl]
  rw [readName, readWhile_run (fun _ => isAscii_of_isNamePart) stands, taken, String.ofList_toList]

theorem On.readName {name : String} (on : On names (.word name :: tokens) reading) :
    ∃ later, readName.run reading = .ok (name, later) ∧ Toward names tokens later := by
  rcases on.ahead with ⟨before, text, stands, ahead⟩
  cases ahead with
  | cons spelled laid =>
    cases spelled with
    | word isName =>
      exact ⟨_, readName_run isName stands laid, (on.recorded.passed rfl).moved _, _, _, _,
        stands.moved, laid⟩

/-- A field that must be absent is read behind its sign. -/
theorem On.readAbsent {name : String} (on : On names (.absent name :: tokens) reading) :
    ∃ marked later, QueryText.skip.run reading = .ok ((), marked) ∧
      QueryText.readName.run marked = .ok (name, later) ∧ Toward names tokens later := by
  rcases on.ahead with ⟨before, text, stands, ahead⟩
  cases ahead with
  | @cons _ _ _ text spelled laid =>
    cases spelled with
    | absent isName =>
      have marked : reading.StandsAt before (['!'] ++ (name.toList ++ text)) := stands
      exact ⟨_, _, skip_run (by decide), readName_run isName marked.moved laid,
        ((on.recorded.passed rfl).moved _).moved _, _, _, _, marked.moved.moved, laid⟩

/-- How a string stands between its quotes, it is read. -/
theorem stringFrom_quoted {value text : List Char} (quoted : Quoted value text)
    (after : List Char) :
    stringFrom (text ++ '"' :: after) = some (value, Utf8.width (text ++ ['"'])) := by
  have quote : Utf8.width ['"'] = 1 := by decide
  have backslash : Char.utf8Size '\\' = 1 := by decide
  induction quoted with
  | nil => simp [stringFrom, quote]
  | @plain char value text notQuote notEscape _ ih =>
    rw [List.cons_append, stringFrom, ih]
    · rfl
    · exact notQuote
    · intro _ _ escape
      exact absurd escape notEscape
  | escaped char _ ih =>
    simp only [List.cons_append, stringFrom, ih, Option.map_some, Utf8.width_cons, backslash,
      Nat.add_assoc]

theorem On.readString {value : String} (on : On names (.string value :: tokens) reading) :
    ∃ later, readString.run reading = .ok (value, later) ∧ Toward names tokens later := by
  rcases on.ahead with ⟨before, text, stands, ahead⟩
  cases ahead with
  | @cons _ _ _ after spelled laid =>
    cases spelled with
    | @string _ inner quoted =>
      have opened : reading.StandsAt before (['"'] ++ (inner ++ '"' :: after)) := by
        simpa using stands
      have closed : (reading.moved (Utf8.width ['"'])).StandsAt (before ++ ['"'])
          ((inner ++ ['"']) ++ after) := by
        simpa using opened.moved
      refine ⟨_, ?_, ((on.recorded.passed rfl).moved _).moved _, _, _, _, closed.moved, laid⟩
      have quote : Utf8.IsAscii '"' := by decide
      rw [QueryText.readString, run_bind_of offset_run, run_bind_of (skip_run quote),
        run_bind_of (remaining_run opened.moved), stringFrom_quoted quoted]
      dsimp only
      rw [run_bind_of advance_run, String.ofList_toList]
      rfl

end Tokens

/-! ## Captures -/

/-- No capture comes next. -/
def NoCapture (tokens : List Token) : Prop := ∀ name more, tokens ≠ .capture name :: more

/-- A step gives what is described, unless its bound is too small. -/
abbrev Yields {α : Type} (step : Compiling α) (reading : Reading) (good : α → Reading → Prop) :
    Prop :=
  Ends step reading good (· = .exhausted)

section Captures

variable {names : List String} {tokens more : List Token} {reading : Reading}

theorem On.face_ne_at (on : On names tokens reading) (none : NoCapture tokens) :
    reading.face ≠ some '@' := by
  rcases tokens with _ | ⟨token, tokens⟩
  · simp [on.face_nil]
  · rcases on.face with ⟨char, seen, faces⟩
    rw [seen]
    rintro same
    obtain rfl := Option.some.inj same
    cases token with
    | sign _ => exact absurd faces.2 (by decide)
    | word _ =>
      have named : isNamePart '@' = true := faces
      exact absurd named (by decide)
    | string _ =>
      have other : '@' = '"' := faces
      exact absurd other (by decide)
    | capture name => exact none name tokens rfl
    | absent _ =>
      have other : '@' = '!' := faces
      exact absurd other (by decide)

/-- A name gets its number among those that have occurred, with which it is recorded. -/
theorem captureNumber_run {seen : List String} (known : reading.captureNames = seen.eraseDups)
    (name : String) :
    (captureNumber name).run reading = .ok ((seen ++ [name]).eraseDups.idxOf name,
      { reading with captureNames := (seen ++ [name]).eraseDups }) := by
  unfold captureNumber
  rw [run_bind_of get_run, known]
  split
  · next number found =>
    have place : seen.eraseDups.idxOf name = number :=
      (List.findIdx?_eq_some_iff_findIdx_eq.mp found).2
    have bound : number < seen.eraseDups.length :=
      (List.findIdx?_eq_some_iff_findIdx_eq.mp found).1
    have earlier : name ∈ seen :=
      List.mem_eraseDups.mp (List.idxOf_lt_length_iff.mp (place ▸ bound))
    rw [eraseDups_snoc_of_mem earlier, place, ← known]
    rfl
  · next absent =>
    have new : name ∉ seen := fun earlier => by
      have other := List.findIdx?_eq_none_iff.mp absent name (List.mem_eraseDups.mpr earlier)
      simp at other
    rw [idxOf_eraseDups_snoc new, eraseDups_snoc_of_notMem new]
    rfl

/-- A capture is read behind its sign, and it has the number of its name. -/
theorem On.readCapture {number : Nat}
    (on : On names (.capture (names.getD number "") :: tokens) reading) :
    ∃ marked named later, QueryText.skip.run reading = .ok ((), marked) ∧
      QueryText.readName.run marked = .ok (names.getD number "", named) ∧
      names.getD number "" ≠ "" ∧
      (captureNumber (names.getD number "")).run named = .ok (number, later) ∧
      Toward names tokens later := by
  rcases on.ahead with ⟨before, text, stands, ahead⟩
  rcases on.recorded.captures with ⟨seen, known, whole⟩
  generalize chosen : names.getD number "" = name at on ahead whole ⊢
  cases ahead with
  | @cons _ _ _ text spelled laid =>
    cases spelled with
    | capture isName =>
      have marked : reading.StandsAt before (['@'] ++ (name.toList ++ text)) := stands
      have placed := marked.moved.moved
      have still : ((reading.moved (Utf8.width ['@'])).moved
          (Utf8.width name.toList)).captureNames = seen.eraseDups := known
      have ran := captureNumber_run still name
      have rest : ((seen ++ [name]) ++ capturesIn tokens).eraseDups = names := by
        rw [List.append_assoc]
        exact whole
      have bound : number < names.length := by
        by_contra beyond
        rw [List.getD_eq_default _ _ (Nat.le_of_not_lt beyond)] at chosen
        exact isName.ne_empty chosen.symm
      have place : (seen ++ [name]).eraseDups.idxOf name = number := by
        rw [List.getD_eq_getElem _ _ bound] at chosen
        have distinct : names.Nodup := rest ▸ nodup_eraseDups _
        have occurred : name ∈ seen ++ [name] := by simp
        calc (seen ++ [name]).eraseDups.idxOf name
            = names.idxOf name := by rw [← rest, ← idxOf_eraseDups_append occurred]
          _ = number := by rw [← chosen, distinct.idxOf_getElem number bound]
      refine ⟨_, _, _, skip_run (by decide), readName_run isName marked.moved laid,
        isName.ne_empty, place ▸ ran, ?_⟩
      exact ⟨⟨⟨_, rfl, rest⟩, on.recorded.strings_eq, on.recorded.tests_eq,
        on.recorded.predicates_eq⟩, _, _, _, ⟨placed.text_eq, placed.rest_eq, placed.offset_eq⟩,
        laid⟩

/-- The captures behind a pattern are read up to the last of them. -/
theorem yields_readCaptures (captures : List Nat) (fuel : Nat) (none : NoCapture more)
    (toward : Toward names (captureTokens names captures ++ more) reading) :
    Yields (readCaptures fuel) reading fun found later =>
      found = captures ∧ Toward names more later := by
  induction captures generalizing fuel reading with
  | nil =>
    cases fuel with
    | zero => exact .throw rfl
    | succ fuel =>
      rcases toward.skipTrivia with ⟨here, skipped, on⟩
      refine Ends.take skipped (Ends.take peek_run ?_)
      rw [if_neg (on.face_ne_at none)]
      exact .pure ⟨rfl, on.toward⟩
  | cons number captures ih =>
    cases fuel with
    | zero => exact .throw rfl
    | succ fuel =>
      rcases toward.skipTrivia with ⟨here, skipped, on⟩
      refine Ends.take skipped (Ends.take peek_run ?_)
      have seen : here.face = some '@' := by
        rcases on.face with ⟨char, seen, rfl⟩
        exact seen
      rcases on.readCapture with ⟨marked, named, later, sign, read, nonempty, numbered, toward⟩
      rw [if_pos seen]
      refine Ends.take offset_run (Ends.take sign (Ends.take read ?_))
      rw [require, if_pos nonempty]
      refine Ends.take rfl (Ends.take numbered ?_)
      refine Ends.bind (ih fuel toward) ?_
      rintro found last ⟨rfl, reached⟩
      exact .pure ⟨rfl, reached⟩

theorem yields_captures (captures : List Nat) (none : NoCapture more)
    (toward : Toward names (captureTokens names captures ++ more) reading) :
    Yields QueryText.captures reading fun found later =>
      found = captures ∧ Toward names more later :=
  Ends.take get_run (yields_readCaptures captures _ none toward)

/-- A pattern without children ends with its captures. -/
theorem yields_childless (matcher : Matcher) (captures : List Nat) (none : NoCapture more)
    (toward : Toward names (captureTokens names captures ++ more) reading) :
    Yields (childless matcher) reading fun item later =>
      item = .pattern (.node matcher [] [] 0 captures) ∧ Toward names more later := by
  refine Ends.bind (yields_captures captures none toward) ?_
  rintro found last ⟨rfl, reached⟩
  exact .pure ⟨rfl, reached⟩

end Captures

end QueryText

end Reparse
