import Reparse.Query.Compile
import Reparse.Proofs.Text.Slice

/-!
# Reading between characters

A reading stands somewhere in its text (`Reading.StandsAt`): what it has read is a beginning of the
characters, and what is left are the bytes of the others. The steps that move a reading keep it
standing between characters, each past the characters that it takes: one of ASCII that was seen
(`skip_run`), blanks and comments (`skipTrivia_run`), those that pass a test (`readWhile_run`), and
a string in quotes (`readString_run`).

`Ends` tells how a step ends, in a value or halted, and puts steps together.
-/

namespace Reparse

namespace QueryText

/-! ## How steps end -/

/-- A step ends as described: with a value where the text goes on, or halted. -/
def Ends {α : Type} (step : Compiling α) (reading : Reading) (good : α → Reading → Prop)
    (bad : Halt → Prop) : Prop :=
  match step.run reading with
  | .ok (value, later) => good value later
  | .error halt => bad halt

section Rules

variable {α β : Type} {step : Compiling α} {next : α → Compiling β} {reading later : Reading}
  {good : α → Reading → Prop} {further : β → Reading → Prop} {bad worse : Halt → Prop}

theorem ends_bind :
    Ends (step >>= next) reading further bad ↔
      Ends step reading (fun value later => Ends (next value) later further bad) bad := by
  unfold Ends
  rw [StateT.run_bind]
  cases step.run reading <;> rfl

theorem Ends.bind (first : Ends step reading good bad)
    (rest : ∀ value later, good value later → Ends (next value) later further bad) :
    Ends (step >>= next) reading further bad := by
  rw [ends_bind]
  unfold Ends at first ⊢
  split
  · next value later ran =>
    rw [ran] at first
    exact rest value later first
  · next halt ran =>
    rw [ran] at first
    exact first

/-- A step whose result is known is taken. -/
theorem run_bind_of {value : α} (ran : step.run reading = .ok (value, later)) :
    (step >>= next).run reading = (next value).run later := by
  rw [StateT.run_bind, ran]
  rfl

theorem Ends.of_run {value : α} (ran : step.run reading = .ok (value, later))
    (holds : good value later) : Ends step reading good bad := by
  unfold Ends
  rw [ran]
  exact holds

theorem Ends.take {value : α} (ran : step.run reading = .ok (value, later))
    (rest : Ends (next value) later further bad) : Ends (step >>= next) reading further bad :=
  ends_bind.mpr (.of_run ran rest)

theorem Ends.imp {better : α → Reading → Prop} (ends : Ends step reading good bad)
    (values : ∀ value later, good value later → better value later)
    (halts : ∀ halt, bad halt → worse halt) : Ends step reading better worse := by
  unfold Ends at ends ⊢
  cases ran : step.run reading with
  | ok result =>
    rw [ran] at ends
    exact values _ _ ends
  | error halt =>
    rw [ran] at ends
    exact halts _ ends

theorem Ends.pure {value : α} (holds : good value reading) :
    Ends (pure value) reading good bad := holds

theorem Ends.throw {halt : Halt} (holds : bad halt) : Ends (throw halt) reading good bad := holds

theorem Ends.modify {change : Reading → Reading} {good : Unit → Reading → Prop}
    (holds : good () (change reading)) : Ends (modify change) reading good bad := holds

theorem Ends.ite {condition : Prop} [Decidable condition] {other : Compiling α}
    (holds : condition → Ends step reading good bad)
    (fails : ¬ condition → Ends other reading good bad) :
    Ends (if condition then step else other) reading good bad := by
  split
  · next here => exact holds here
  · next here => exact fails here

end Rules

/-! ## Where a reading stands -/

namespace Reading

/-- The reading stands between two parts of its text. -/
structure StandsAt (before after : List Char) (reading : Reading) : Prop where
  text_eq : reading.text = before ++ after
  rest_eq : reading.rest = Utf8.encode after
  offset_eq : reading.offset = Utf8.width before

/-- The reading stands between two characters. -/
def Stands (reading : Reading) : Prop := ∃ before after, reading.StandsAt before after

/-- What the next byte shows. -/
def face (reading : Reading) : Option Char := reading.rest.head?.map Char.ofUInt8

/-- The reading, moved on by a number of bytes. -/
def moved (reading : Reading) (count : Nat) : Reading :=
  { reading with rest := reading.rest.drop count, offset := reading.offset + count }

variable {before after passed : List Char} {reading : Reading}

theorem standsAt_start (text : List Char) : (Reading.start text).StandsAt [] text := ⟨rfl, rfl, rfl⟩

theorem StandsAt.moved (stands : reading.StandsAt before (passed ++ after)) :
    (reading.moved (Utf8.width passed)).StandsAt (before ++ passed) after where
  text_eq := by
    rw [List.append_assoc]
    exact stands.text_eq
  rest_eq := by
    have cut : (Utf8.encode passed ++ Utf8.encode after).drop (Utf8.encode passed).length =
      Utf8.encode after := List.drop_left
    rw [Reading.moved, stands.rest_eq, Utf8.encode_append, ← Utf8.length_encode]
    exact cut
  offset_eq := by rw [Utf8.width_append, Reading.moved, stands.offset_eq]

/-- What a byte shows of ASCII is the next character. -/
theorem StandsAt.face_eq_some_iff (stands : reading.StandsAt before after) {char : Char}
    (ascii : Utf8.IsAscii char) : reading.face = some char ↔ after.head? = some char := by
  rw [face, stands.rest_eq]
  exact Utf8.head?_encode after char ascii

/-- A reading at the end of its text is one that no byte is left of. -/
theorem StandsAt.face_eq_none_iff (stands : reading.StandsAt before after) :
    reading.face = none ↔ after = [] := by
  rw [face, stands.rest_eq, Option.map_eq_none_iff, List.head?_eq_none_iff]
  cases after with
  | nil => simp
  | cons char after => simp [String.utf8EncodeChar_ne_nil]

end Reading

/-! ## Steps over characters -/

section Steps

variable {before after : List Char} {reading : Reading}

theorem get_run : (get : Compiling Reading).run reading = .ok (reading, reading) := rfl

theorem set_run {later : Reading} :
    (set later : Compiling PUnit).run reading = .ok ((), later) := rfl

theorem peek_run : peek.run reading = .ok (reading.face, reading) := rfl

theorem offset_run : offset.run reading = .ok (reading.offset, reading) := rfl

theorem advance_run {count : Nat} :
    (advance count).run reading = .ok ((), reading.moved count) := rfl

/-- A character of ASCII that was seen is passed. -/
theorem skip_run {char : Char} (ascii : Utf8.IsAscii char) :
    skip.run reading = .ok ((), reading.moved (Utf8.width [char])) := by
  simp [Utf8.utf8Size_ascii ascii]
  rfl

theorem remaining_run (stands : reading.StandsAt before after) :
    remaining.run reading = .ok (after, reading) := by
  have found : Utf8.from? reading.offset reading.text = some after := by
    rw [stands.offset_eq, stands.text_eq, Utf8.from?_width]
  rw [remaining, run_bind_of get_run, found]
  rfl

theorem slice_run {inside : List Char} (stands : reading.StandsAt (before ++ inside) after) :
    (slice (Utf8.width before) (Utf8.width before + Utf8.width inside)).run reading =
      .ok (inside, reading) := by
  have found : Utf8.slice? (Utf8.width before) (Utf8.width before + Utf8.width inside)
      reading.text = some inside := by
    rw [stands.text_eq, List.append_assoc, Utf8.slice?_width]
  rw [slice, run_bind_of get_run, found]
  rfl

/-- The characters that pass a test for characters of ASCII are read. -/
theorem readWhile_run {passes : Char → Bool} (plain : ∀ char, passes char → Utf8.IsAscii char)
    (stands : reading.StandsAt before after) :
    (readWhile passes).run reading =
      .ok (String.ofList (after.takeWhile passes),
        reading.moved (Utf8.width (after.takeWhile passes))) := by
  have count : (reading.rest.takeWhile fun byte => passes (Char.ofUInt8 byte)).length =
      Utf8.width (after.takeWhile passes) := by
    rw [stands.rest_eq, Utf8.takeWhile_encode plain, Utf8.length_encode]
  have passed : reading.StandsAt before (after.takeWhile passes ++ after.dropWhile passes) := by
    rw [List.takeWhile_append_dropWhile]
    exact stands
  rw [readWhile, run_bind_of get_run, run_bind_of advance_run, count, stands.offset_eq,
    run_bind_of (slice_run passed.moved)]
  rfl

end Steps

/-! ## Characters of names -/

theorem isAscii_of_isNamePart {char : Char} (named : isNamePart char = true) :
    Utf8.IsAscii char := by
  have kinds : (char.isUpper || char.isLower || char.isDigit || char == '_' || char == '-' ||
      char == '.') = true := named
  -- each kind of letter is a range of codes, of which the upper end counts
  have below {limit : Char} (le : char.val ≤ limit.val) (ascii : Utf8.IsAscii limit) :
      Utf8.IsAscii char := Nat.lt_of_le_of_lt (UInt32.le_iff_toNat_le.mp le) ascii
  simp only [Bool.or_eq_true, beq_iff_eq] at kinds
  rcases kinds with ((((upper | lower) | digit) | rfl) | rfl) | rfl
  · exact below (of_decide_eq_true upper).2 (by decide)
  · exact below (of_decide_eq_true (Bool.and_eq_true_iff.mp lower).2) (by decide)
  · exact below (of_decide_eq_true (Bool.and_eq_true_iff.mp digit).2) (by decide)
  all_goals decide

theorem isAscii_of_isOperatorPart {char : Char} (part : isOperatorPart char = true) :
    Utf8.IsAscii char := by
  simp only [isOperatorPart, Bool.or_eq_true, beq_iff_eq] at part
  rcases part with (named | rfl) | rfl
  · exact isAscii_of_isNamePart named
  · decide
  · decide

/-! ## Blanks and comments -/

/-- Bytes that show no character of ASCII are passed inside of a comment. -/
theorem triviaLength_comment (bytes rest : List UInt8)
    (wide : ∀ byte ∈ bytes, ¬ Utf8.IsAscii (Char.ofUInt8 byte)) :
    triviaLength true (bytes ++ rest) = triviaLength true rest + bytes.length := by
  induction bytes with
  | nil => rfl
  | cons byte bytes ih =>
    have other : Char.ofUInt8 byte ≠ '\n' := by
      intro same
      exact wide byte List.mem_cons_self (same ▸ by decide)
    rw [List.cons_append, triviaLength, if_pos (by simpa using other),
      ih fun byte member => wide byte (List.mem_cons_of_mem _ member), List.length_cons]
    omega

theorem isAscii_of_isBlank {char : Char} (blank : isBlankAscii char = true) :
    Utf8.IsAscii char := by
  simp only [isBlankAscii, Bool.or_eq_true, beq_iff_eq] at blank
  rcases blank with (((rfl | rfl) | rfl) | rfl) | rfl <;> decide

/-- What a character adds to blanks and comments that begin with it. -/
theorem triviaLength_cons (inComment : Bool) (char : Char) (chars : List Char) :
    triviaLength inComment (Utf8.encode (char :: chars)) =
      if inComment && char != '\n' then
        triviaLength true (Utf8.encode chars) + char.utf8Size
      else if isBlankAscii char then triviaLength false (Utf8.encode chars) + char.utf8Size
      else if char == ';' then triviaLength true (Utf8.encode chars) + char.utf8Size
      else 0 := by
  by_cases ascii : Utf8.IsAscii char
  · rcases Utf8.encode_ascii ascii with ⟨byte, encoded, shown⟩
    simp only [Utf8.encode_cons, encoded, List.singleton_append, triviaLength, shown,
      Utf8.utf8Size_ascii ascii]
  · have wide := Utf8.encode_wide ascii
    have notBreak : char ≠ '\n' := by
      rintro rfl
      exact ascii (by decide)
    have notSemicolon : char ≠ ';' := by
      rintro rfl
      exact ascii (by decide)
    have notBlank : isBlankAscii char = false := by
      rw [← Bool.not_eq_true]
      exact fun blank => ascii (isAscii_of_isBlank blank)
    cases inComment with
    | true =>
      rw [Utf8.encode_cons, triviaLength_comment _ _ wide, String.length_utf8EncodeChar]
      simp [notBreak]
    | false =>
      rcases bytes : String.utf8EncodeChar char with _ | ⟨byte, more⟩
      · exact absurd bytes String.utf8EncodeChar_ne_nil
      · have first := wide byte (by simp [bytes])
        have byteNotSemicolon : Char.ofUInt8 byte ≠ ';' := fun same => first (same ▸ by decide)
        have byteNotBlank : isBlankAscii (Char.ofUInt8 byte) = false := by
          rw [← Bool.not_eq_true]
          exact fun blank => first (isAscii_of_isBlank blank)
        simp [bytes, triviaLength, notSemicolon, notBlank, byteNotSemicolon, byteNotBlank]

/-- Blanks and comments end between characters. -/
theorem exists_trivia (inComment : Bool) (chars : List Char) :
    ∃ passed after, chars = passed ++ after ∧
      triviaLength inComment (Utf8.encode chars) = Utf8.width passed := by
  induction chars generalizing inComment with
  | nil => exact ⟨[], [], rfl, rfl⟩
  | cons char chars ih =>
    rw [triviaLength_cons]
    have onward : ∀ inside, ∃ passed after, char :: chars = passed ++ after ∧
        triviaLength inside (Utf8.encode chars) + char.utf8Size = Utf8.width passed := by
      intro inside
      rcases ih inside with ⟨passed, after, rfl, count⟩
      exact ⟨char :: passed, after, rfl, by rw [count, Utf8.width_cons, Nat.add_comm]⟩
    split
    · exact onward true
    · split
      · exact onward false
      · split
        · exact onward true
        · exact ⟨[], _, rfl, rfl⟩

section Trivia

variable {before after : List Char} {reading : Reading}

theorem skipTrivia_run :
    skipTrivia.run reading = .ok ((), reading.moved (triviaLength false reading.rest)) := rfl

end Trivia

/-! ## Strings in quotes -/

/-- The text of a string is a beginning of what follows its opening quote. -/
theorem stringFrom_eq_some {chars value : List Char} {size : Nat}
    (found : stringFrom chars = some (value, size)) :
    ∃ passed after, chars = passed ++ after ∧ size = Utf8.width passed := by
  fun_induction stringFrom chars generalizing value size with
  | case1 => cases found
  | case2 rest =>
    cases found
    exact ⟨['"'], rest, rfl, rfl⟩
  | case3 char rest ih =>
    rw [Option.map_eq_some_iff] at found
    rcases found with ⟨⟨inner, count⟩, below, same⟩
    cases same
    rcases ih below with ⟨passed, after, rfl, rfl⟩
    exact ⟨'\\' :: char :: passed, after, rfl, by simp [Nat.add_assoc]; rfl⟩
  | case4 char rest _ _ ih =>
    rw [Option.map_eq_some_iff] at found
    rcases found with ⟨⟨inner, count⟩, below, same⟩
    cases same
    rcases ih below with ⟨passed, after, rfl, rfl⟩
    exact ⟨char :: passed, after, rfl, rfl⟩

end QueryText

end Reparse
