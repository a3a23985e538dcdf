import Reparse.Grammar.Arithmetic
import Reparse.Proofs.Scanner.Reads
import Reparse.Proofs.Tree.Erasure

/-!
# The tokens of the arithmetic language

`Arithmetic.Scanned` says which token stands at an offset of a text and where it ends, without a
scanner: blank characters are passed over (`Skips`), then the token is told by the bytes it begins
with and reaches as far as the bytes go on with it (`Lexeme`). There is one token at an offset
(`Scanned.unique`), and a token of the language is the same one wherever its bytes and the byte
behind it stand (`Scanned.mirrors`).
-/

namespace Reparse

namespace Arithmetic

open Utf8 (next? Decoded)

/-! ## Bytes of tokens -/

/-- The character that a byte below 128 is. -/
def asChar (byte : UInt8) : Char := Char.ofNat byte.toNat

/-- The symbol of the token that a character begins; a comment begins with two of them. -/
def begins (char : Char) : Option Nat :=
  if char = '(' then some leftParenthesis
  else if char = ')' then some rightParenthesis
  else if char = '+' then some plus
  else if isDigit char then some number
  else if isWordStart char then some variableName
  else if char = '/' then some comment
  else none

/-- Whether a byte goes on with a token. -/
def continues (symbol : Nat) (byte : UInt8) : Bool :=
  if symbol = number then isDigit (asChar byte)
  else if symbol = variableName then isWordPart (asChar byte)
  else if symbol = comment then byte != 10
  else false

/-- How many bytes a token begins with. -/
def opening (symbol : Nat) : Nat := if symbol = comment then 2 else 1

theorem symbol_of_begins {char : Char} {symbol : Nat} (begun : begins char = some symbol) :
    1 ≤ symbol ∧ symbol ≤ 6 := by
  unfold begins at begun
  repeat' split at begun
  all_goals cases begun
  all_goals decide

theorem ascii_of_begins {byte : UInt8} {symbol : Nat} (begun : begins (asChar byte) = some symbol) :
    byte < 0x80 := by
  have small := @Utf8.of_bytes
    (fun byte => (begins (asChar byte)).isSome = true → byte < 0x80) (by decide +kernel) byte
  rw [begun] at small
  exact small rfl

section Foreign

variable {char : Char}

theorem ne_of_foreign (foreign : Utf8.Foreign char) (known : Char) (plain : known.toNat < 0x80)
    (present : 0 < known.toNat) : char ≠ known := by
  rintro rfl
  rcases foreign with large | zero <;> omega

theorem not_between_of_foreign (foreign : Utf8.Foreign char) (low high : Char)
    (plain : high.toNat < 0x80) (present : 0 < low.toNat) :
    (decide (low ≤ char) && decide (char ≤ high)) = false := by
  by_cases above : low ≤ char
  · by_cases below : char ≤ high
    · have first : low.toNat ≤ char.toNat := above
      have last : char.toNat ≤ high.toNat := below
      rcases foreign with large | zero <;> omega
    · simp [below]
  · simp [above]

theorem isDigit_of_foreign (foreign : Utf8.Foreign char) : isDigit char = false :=
  not_between_of_foreign foreign '0' '9' (by decide) (by decide)

theorem isWordStart_of_foreign (foreign : Utf8.Foreign char) : isWordStart char = false := by
  have lower := not_between_of_foreign foreign 'a' 'z' (by decide) (by decide)
  have upper := not_between_of_foreign foreign 'A' 'Z' (by decide) (by decide)
  have line := ne_of_foreign foreign '_' (by decide) (by decide)
  simp [isWordStart, isLetter, lower, upper, line]

theorem isWordPart_of_foreign (foreign : Utf8.Foreign char) : isWordPart char = false := by
  have start := isWordStart_of_foreign foreign
  simp only [isWordStart, Bool.or_eq_false_iff] at start
  simp [isWordPart, start, isDigit_of_foreign foreign]

theorem begins_of_foreign (foreign : Utf8.Foreign char) : begins char = none := by
  have other (known : Char) (plain : known.toNat < 0x80) (present : 0 < known.toNat) :=
    ne_of_foreign foreign known plain present
  simp [begins, isDigit_of_foreign foreign, isWordStart_of_foreign foreign,
    other '(' (by decide) (by decide), other ')' (by decide) (by decide),
    other '+' (by decide) (by decide), other '/' (by decide) (by decide)]

end Foreign

/-! ## Lexemes -/

section Lexemes

variable {text other : Text} {source target bound : Nat}

/-- The bytes from `start` up to `stop` go on with a token, and the next one does not. -/
structure Run (text : Text) (symbol start stop : Nat) : Prop where
  le : start ≤ stop
  inside : ∀ place, start ≤ place → place < stop →
    ∃ byte, text[place]? = some byte ∧ continues symbol byte = true
  stops : ∀ byte, text[stop]? = some byte → continues symbol byte = false

/-- A token of the language stands from `start` up to `stop`. -/
structure Lexeme (text : Text) (start symbol stop : Nat) : Prop where
  begun : ∃ byte, text[start]? = some byte ∧ begins (asChar byte) = some symbol
  twice : symbol = comment → text[start + 1]? = some 47
  run : Run text symbol (start + opening symbol) stop

theorem Run.empty {symbol start : Nat}
    (final : ∀ byte, text[start]? = some byte → continues symbol byte = false) :
    Run text symbol start start where
  le := Nat.le_refl _
  inside _ begun before := absurd begun (Nat.not_le_of_lt before)
  stops := final

/-- A run starts sooner if the bytes before it go on with the token as well. -/
theorem Run.sooner {symbol start size stop : Nat} (run : Run text symbol (start + size) stop)
    (before : ∀ index < size,
      ∃ byte, text[start + index]? = some byte ∧ continues symbol byte = true) :
    Run text symbol start stop where
  le := Nat.le_trans (Nat.le_add_right _ _) run.le
  inside place begun early := by
    by_cases first : place < start + size
    · have goes := before (place - start) (by omega)
      rwa [Nat.add_sub_cancel' begun] at goes
    · exact run.inside place (by omega) early
  stops := run.stops

theorem Run.unique {symbol start stop other : Nat} (run : Run text symbol start stop)
    (again : Run text symbol start other) : stop = other := by
  rcases Nat.lt_trichotomy stop other with less | same | more
  · rcases again.inside stop run.le less with ⟨byte, found, goes⟩
    simp [run.stops byte found] at goes
  · exact same
  · rcases run.inside other again.le more with ⟨byte, found, goes⟩
    simp [again.stops byte found] at goes

theorem Lexeme.unique {start symbol stop otherSymbol otherStop : Nat}
    (lexeme : Lexeme text start symbol stop) (again : Lexeme text start otherSymbol otherStop) :
    symbol = otherSymbol ∧ stop = otherStop := by
  rcases lexeme with ⟨⟨byte, found, begun⟩, _, run⟩
  rcases again with ⟨⟨other, sameFound, otherBegun⟩, _, otherRun⟩
  obtain rfl : byte = other := by simpa [found] using sameFound
  obtain rfl : symbol = otherSymbol := by simpa [begun] using otherBegun
  exact ⟨rfl, run.unique otherRun⟩

theorem Lexeme.symbol {start symbol stop : Nat} (lexeme : Lexeme text start symbol stop) :
    1 ≤ symbol ∧ symbol ≤ 6 := by
  rcases lexeme.begun with ⟨byte, _, begun⟩
  exact symbol_of_begins begun

theorem Lexeme.lt {start symbol stop : Nat} (lexeme : Lexeme text start symbol stop) :
    start < stop := by
  have := lexeme.run.le
  unfold opening at this
  split at this <;> omega

theorem Lexeme.ends {start symbol stop : Nat} (lexeme : Lexeme text start symbol stop) :
    Utf8.Ends text[start]? := by
  rcases lexeme.begun with ⟨byte, found, begun⟩
  intro value same
  obtain rfl : byte = value := by simpa [found] using same
  exact ascii_of_begins begun

/-- The character that a lexeme begins with. -/
theorem Lexeme.next {start symbol stop : Nat} (lexeme : Lexeme text start symbol stop) :
    ∃ decoded, next? text start = some decoded ∧ begins decoded.char = some symbol := by
  rcases lexeme.begun with ⟨byte, found, begun⟩
  exact ⟨_, Utf8.next_of_ascii found (ascii_of_begins begun), begun⟩

theorem Lexeme.inside {start symbol stop : Nat} (lexeme : Lexeme text start symbol stop) :
    stop ≤ text.size := by
  have within (place : Nat) (byte : UInt8) (found : text[place]? = some byte) :
      place < text.size := by
    apply Nat.lt_of_not_le
    intro outside
    rw [Array.getElem?_eq_none outside] at found
    cases found
  rcases lexeme with ⟨⟨byte, found, _⟩, twice, run⟩
  have reach := run.le
  by_cases longer : start + opening symbol < stop
  · rcases run.inside (stop - 1) (by omega) (by omega) with ⟨last, there, _⟩
    have := within _ _ there
    omega
  · by_cases isComment : symbol = comment
    · have := within _ _ (twice isComment)
      simp only [opening, isComment, if_true] at longer
      omega
    · have := within _ _ found
      simp only [opening, isComment, if_false] at longer
      omega

theorem Lexeme.mirrors (mirrors : text.Mirrors other source target bound)
    {start symbol stop image imageStop : Nat} (lexeme : Lexeme text start symbol stop)
    (begun : source ≤ start) (inside : stop ≤ bound) (moved : image + source = start + target)
    (stopMoved : imageStop + source = stop + target) : Lexeme other image symbol imageStop := by
  have before := lexeme.lt
  rcases lexeme with ⟨⟨byte, found, first⟩, twice, run⟩
  have reach := run.le
  refine ⟨⟨byte, ?_, first⟩, ?_, ⟨by omega, ?_, ?_⟩⟩
  · rw [mirrors start image begun (by omega) moved]
    exact found
  · intro isComment
    have second : start + 2 ≤ stop := by simpa [opening, isComment] using reach
    rw [mirrors (start + 1) (image + 1) (by omega) (by omega) (by omega)]
    exact twice isComment
  · intro place started short
    have back : place + source - target + target = place + source := by omega
    rcases run.inside (place + source - target) (by omega) (by omega) with ⟨next, there, goes⟩
    refine ⟨next, ?_, goes⟩
    rw [mirrors (place + source - target) place (by omega) (by omega) (by omega)]
    exact there
  · intro next there
    apply run.stops next
    rw [mirrors stop imageStop (by omega) inside stopMoved] at there
    exact there

end Lexemes

/-! ## What stands before a token -/

/-- The characters from `start` up to `stop` are blank, and the next one is not. -/
inductive Skips (text : Text) : Nat → Nat → Prop where
  | done {start : Nat}
      (solid : ∀ decoded, next? text start = some decoded → isBlank decoded.char = false) :
      Skips text start start
  | blank {start stop : Nat} {decoded : Decoded} (read : next? text start = some decoded)
      (blank : isBlank decoded.char = true) (rest : Skips text (start + decoded.size) stop) :
      Skips text start stop

section Skips

variable {text other : Text} {source target bound start stop : Nat}

theorem Skips.le (skips : Skips text start stop) : start ≤ stop := by
  induction skips with
  | done => exact Nat.le_refl _
  | blank _ _ _ ih => omega

theorem Skips.inside (skips : Skips text start stop) (inside : start ≤ text.size) :
    stop ≤ text.size := by
  induction skips with
  | done => exact inside
  | blank read _ _ ih => exact ih (Utf8.next_spec read).2.1

theorem Skips.unique {again : Nat} (skips : Skips text start stop)
    (other : Skips text start again) : stop = again := by
  induction skips with
  | done solid =>
      cases other with
      | done => rfl
      | blank read blank => simp [solid _ read] at blank
  | blank read blank _ ih =>
      cases other with
      | done solid => simp [solid _ read] at blank
      | blank readAgain _ rest =>
          rw [read, Option.some.injEq] at readAgain
          subst readAgain
          exact ih rest

theorem Skips.mirrors (mirrors : text.Mirrors other source target bound)
    (skips : Skips text start stop) {image imageStop : Nat} (ends : Utf8.Ends text[stop]?)
    (begun : source ≤ start) (inside : stop ≤ bound) (moved : image + source = start + target)
    (stopMoved : imageStop + source = stop + target) : Skips other image imageStop := by
  induction skips generalizing image with
  | done solid =>
      obtain rfl : image = imageStop := by omega
      apply Skips.done
      intro decoded read
      rw [Utf8.next_of_mirrors mirrors begun (Nat.le_refl _) inside ends moved] at read
      exact solid decoded read
  | blank read blank rest ih =>
      have short := rest.le
      have same := Utf8.next_of_mirrors mirrors begun (by omega) inside ends moved
      refine .blank (same.trans read) blank (ih ends ?_ inside ?_ stopMoved)
      · omega
      · omega

end Skips

/-- Blank characters from an offset up to `start`, and before them the mark that may begin a
text. -/
def Leads (text : Text) (offset start : Nat) : Prop := Skips text (Scanner.entry text offset) start

section Leads

variable {text other : Text} {source target bound offset start stop : Nat}

theorem Leads.le (leads : Leads text offset start) : offset ≤ start :=
  Nat.le_trans (Scanner.le_entry offset) (Skips.le leads)

theorem Leads.inside (leads : Leads text offset start) (inside : offset ≤ text.size) :
    start ≤ text.size := Skips.inside leads (Scanner.entry_inside inside)

/-- The mark that may begin a text is neither blank nor a token. -/
theorem not_mark_of_skips {symbol : Nat} {decoded : Decoded} (skips : Skips text offset start)
    (lexeme : Lexeme text start symbol stop) (read : next? text offset = some decoded) :
    decoded.char ≠ Scanner.byteOrderMark := by
  intro mark
  cases skips with
  | done _ =>
      rcases lexeme.next with ⟨first, again, begun⟩
      have unknown : begins Scanner.byteOrderMark = none := by decide
      rw [read, Option.some.injEq] at again
      rw [← again, mark, unknown] at begun
      cases begun
  | blank again blank =>
      rw [read, Option.some.injEq] at again
      rw [← again, mark] at blank
      exact absurd blank (by decide)

theorem Leads.mirrors (mirrors : text.Mirrors other source target bound) {symbol image : Nat}
    (leads : Leads text source start) (lexeme : Lexeme text start symbol stop)
    (beginning : source = 0 → target = 0) (inside : start ≤ bound)
    (moved : image + source = start + target) : Leads other target image := by
  have before := leads.le
  have same : next? other target = next? text source :=
    Utf8.next_of_mirrors mirrors (Nat.le_refl _) before inside lexeme.ends (Nat.add_comm _ _)
  have along (first firstImage : Nat) (skips : Skips text first start) (begun : source ≤ first)
      (firstMoved : firstImage + source = first + target) : Skips other firstImage image :=
    skips.mirrors mirrors lexeme.ends begun inside firstMoved moved
  unfold Leads Scanner.entry at leads ⊢
  rw [same]
  cases read : next? text source with
  | none =>
      rw [read] at leads
      exact along source target leads (Nat.le_refl _) (Nat.add_comm _ _)
  | some decoded =>
      rw [read] at leads
      by_cases mark : source = 0 ∧ decoded.char = Scanner.byteOrderMark
      · simp only [mark, and_self, if_true] at leads
        simp only [beginning mark.1, mark.2, and_self, if_true]
        exact along _ _ leads (by omega) (by omega)
      · simp only [mark, if_false] at leads
        have other := not_mark_of_skips leads lexeme read
        simp only [other, and_false, if_false]
        exact along _ _ leads (Nat.le_refl _) (Nat.add_comm _ _)

end Leads

/-! ## Tokens -/

/-- The token that is scanned at an offset of a text, and where it ends. -/
inductive Scanned (text : Text) (offset : Nat) : Tree → Nat → Prop where
  | found {start symbol stop lookahead : Nat} (leads : Leads text offset start)
      (lexeme : Lexeme text start symbol stop) (looks : 0 < lookahead) :
      Scanned text offset
        (Tree.leaf symbol (text.width offset (start - offset)) (text.width start (stop - start))
          lookahead (vocabulary.kind symbol) (vocabulary.isExtra symbol)) stop
  | ended {stop lookahead : Nat} (leads : Leads text offset stop)
      (ended : next? text stop = none) :
      Scanned text offset
        (Tree.leaf endSymbol (text.width offset (stop - offset)) Extent.zero lookahead
          (vocabulary.kind endSymbol) false) stop
  | unexpected {start lookahead : Nat} {decoded : Decoded} (leads : Leads text offset start)
      (read : next? text start = some decoded)
      (unknown : ∀ symbol stop, ¬Lexeme text start symbol stop) :
      Scanned text offset
        (Tree.unexpected (some decoded.char) (text.width offset (start - offset))
          (text.width start decoded.size) lookahead) (start + decoded.size)

section Scanned

variable {text other : Text} {source target bound offset stop : Nat} {token : Tree}

/-- There is one token at an offset. -/
theorem Scanned.unique {again : Tree} {otherStop : Nat} (scanned : Scanned text offset token stop)
    (scannedAgain : Scanned text offset again otherStop) :
    token.bare = again.bare ∧ stop = otherStop := by
  cases scanned with
  | found leads lexeme =>
      cases scannedAgain with
      | found leadsAgain lexemeAgain =>
          obtain rfl := Skips.unique leads leadsAgain
          obtain ⟨rfl, rfl⟩ := lexeme.unique lexemeAgain
          exact ⟨by simp [Tree.leaf, Tree.bare], rfl⟩
      | ended leadsAgain ended =>
          obtain rfl := Skips.unique leads leadsAgain
          rcases lexeme.next with ⟨decoded, read, _⟩
          simp [ended] at read
      | unexpected leadsAgain _ unknown =>
          obtain rfl := Skips.unique leads leadsAgain
          exact absurd lexeme (unknown _ _)
  | ended leads ended =>
      cases scannedAgain with
      | found leadsAgain lexemeAgain =>
          obtain rfl := Skips.unique leads leadsAgain
          rcases lexemeAgain.next with ⟨decoded, read, _⟩
          simp [ended] at read
      | ended leadsAgain =>
          obtain rfl := Skips.unique leads leadsAgain
          exact ⟨by simp [Tree.leaf, Tree.bare], rfl⟩
      | unexpected leadsAgain read =>
          obtain rfl := Skips.unique leads leadsAgain
          simp [ended] at read
  | unexpected leads read unknown =>
      cases scannedAgain with
      | found leadsAgain lexemeAgain =>
          obtain rfl := Skips.unique leads leadsAgain
          exact absurd lexemeAgain (unknown _ _)
      | ended leadsAgain ended =>
          obtain rfl := Skips.unique leads leadsAgain
          simp [ended] at read
      | unexpected leadsAgain readAgain =>
          obtain rfl := Skips.unique leads leadsAgain
          rw [read, Option.some.injEq] at readAgain
          subst readAgain
          exact ⟨by simp [Tree.unexpected, Tree.bare], rfl⟩

theorem Scanned.unique_symbol {again : Tree} {otherStop : Nat}
    (scanned : Scanned text offset token stop)
    (scannedAgain : Scanned text offset again otherStop) :
    token.info.symbol = again.info.symbol ∧ token.info.extra = again.info.extra := by
  have same := congrArg Tree.info (scanned.unique scannedAgain).1
  simp only [Tree.info_bare, Info.mk.injEq] at same
  exact ⟨same.1, same.2.2.2.2.2.2.2.2.1⟩

theorem Scanned.childless (scanned : Scanned text offset token stop) : token.children = [] := by
  cases scanned <;> rfl

theorem Scanned.le (scanned : Scanned text offset token stop) : offset ≤ stop := by
  cases scanned with
  | found leads lexeme => exact Nat.le_trans leads.le (Nat.le_of_lt lexeme.lt)
  | ended leads => exact leads.le
  | unexpected leads => exact Nat.le_trans leads.le (Nat.le_add_right _ _)

theorem Scanned.inside (scanned : Scanned text offset token stop) (inside : offset ≤ text.size) :
    stop ≤ text.size := by
  cases scanned with
  | found _ lexeme => exact lexeme.inside
  | ended leads => exact leads.inside inside
  | unexpected _ read => exact (Utf8.next_spec read).2.1

/-- A token is as wide as the text that it stands over. -/
theorem Scanned.total (scanned : Scanned text offset token stop) :
    token.total = text.width offset (stop - offset) := by
  cases scanned with
  | found leads lexeme => exact Text.width_between leads.le (Nat.le_of_lt lexeme.lt)
  | ended => exact Extent.append_zero _
  | @unexpected start _ decoded leads _ _ =>
      have whole := @Text.width_between text _ _ _ leads.le (Nat.le_add_right start decoded.size)
      rw [Nat.add_sub_cancel_left] at whole
      exact whole

theorem Scanned.bytes_total (scanned : Scanned text offset token stop) :
    offset + token.total.bytes = stop := by
  have := scanned.le
  rw [scanned.total, Text.bytes_width]
  omega

/-- Every token but the end of the input has text of its own. -/
theorem Scanned.lt (scanned : Scanned text offset token stop)
    (more : token.info.symbol ≠ endSymbol) : offset < stop := by
  cases scanned with
  | found leads lexeme => exact Nat.lt_of_le_of_lt leads.le lexeme.lt
  | ended => exact absurd rfl more
  | unexpected leads read =>
      have := leads.le
      have := (Utf8.next_spec read).1
      omega

/-- The scan of a token of the language looked at the byte behind it. -/
theorem Scanned.looks (scanned : Scanned text offset token stop)
    (known : 1 ≤ token.info.symbol ∧ token.info.symbol ≤ 6) : 0 < token.info.lookahead := by
  cases scanned with
  | found _ _ looks => exact looks
  | ended => exact absurd (show 1 ≤ endSymbol from known.1) (by decide)
  | unexpected => exact absurd (show errorSymbol ≤ 6 from known.2) (by decide)

/-- A token of the language stands wherever its bytes and the byte behind it stand. -/
theorem Scanned.mirrors {image : Nat} (scanned : Scanned text source token stop)
    (mirrors : text.Mirrors other source target stop) (beginning : source = 0 → target = 0)
    (known : 1 ≤ token.info.symbol ∧ token.info.symbol ≤ 6)
    (moved : image + source = stop + target) : Scanned other target token image := by
  cases scanned with
  | @found start symbol stop lookahead leads lexeme looks =>
      have first := leads.le
      have last := lexeme.lt
      have there : start - source + target + source = start + target := by omega
      have begun := leads.mirrors mirrors lexeme beginning (Nat.le_of_lt last) there
      have stands := lexeme.mirrors mirrors first (Nat.le_refl _) there moved
      have padding : other.width target (start - source) = text.width source (start - source) :=
        mirrors.width (Nat.le_refl _) (by omega) (Nat.add_comm _ _)
      have content : other.width (start - source + target) (stop - start) =
          text.width start (stop - start) := mirrors.width first (by omega) there
      have result := Scanned.found begun stands looks
      have paddingLength : start - source + target - target = start - source := by omega
      have contentLength : image - (start - source + target) = stop - start := by omega
      rw [paddingLength, contentLength, padding, content] at result
      exact result
  | ended => exact absurd (show 1 ≤ endSymbol from known.1) (by decide)
  | unexpected => exact absurd (show errorSymbol ≤ 6 from known.2) (by decide)

/-- The next token at an offset is no extra and has the symbol. -/
def Ahead (text : Text) (offset symbol : Nat) : Prop :=
  ∃ token stop, Scanned text offset token stop ∧ token.info.symbol = symbol ∧
    token.info.extra = false

theorem Ahead.unique {symbol again : Nat} (ahead : Ahead text offset symbol)
    (aheadAgain : Ahead text offset again) : symbol = again := by
  rcases ahead with ⟨_, _, scanned, rfl, _⟩
  rcases aheadAgain with ⟨_, _, scannedAgain, rfl, _⟩
  exact (scanned.unique_symbol scannedAgain).1

end Scanned

/-! ## Extras -/

/-- The extras that stand one after the other from an offset up to `stop`. -/
inductive Extras (text : Text) : Nat → List (Edge Tree) → Nat → Prop where
  | done {offset : Nat} : Extras text offset [] offset
  | more {offset middle stop : Nat} {token : Tree} {items : List (Edge Tree)}
      (scanned : Scanned text offset token middle) (extra : token.info.extra = true)
      (rest : Extras text middle items stop) : Extras text offset (⟨0, token⟩ :: items) stop

section Extras

variable {text other : Text} {source target bound offset stop : Nat} {items : List (Edge Tree)}

/-- Only comments are extras. -/
theorem Scanned.of_extra {token : Tree} (scanned : Scanned text offset token stop)
    (extra : token.info.extra = true) : token.info.symbol = comment := by
  cases scanned with
  | @found _ symbol =>
      have listed : [comment].contains symbol = true := extra
      have same : symbol = comment := by simpa using listed
      exact same
  | ended => cases extra
  | unexpected => cases extra

theorem Extras.le (extras : Extras text offset items stop) : offset ≤ stop := by
  induction extras with
  | done => exact Nat.le_refl _
  | more scanned _ _ ih => exact Nat.le_trans scanned.le ih

theorem Extras.inside (extras : Extras text offset items stop) (inside : offset ≤ text.size) :
    stop ≤ text.size := by
  induction extras with
  | done => exact inside
  | more scanned _ _ ih => exact ih (scanned.inside inside)

/-- Every comment has text of its own, and its scan looked at the byte behind it. -/
theorem Scanned.known_of_extra {token : Tree} (scanned : Scanned text offset token stop)
    (extra : token.info.extra = true) : 1 ≤ token.info.symbol ∧ token.info.symbol ≤ 6 := by
  rw [scanned.of_extra extra]
  decide

theorem Extras.mirrors (extras : Extras text source items stop) {image : Nat}
    (mirrors : text.Mirrors other source target stop) (beginning : source = 0 → target = 0)
    (moved : image + source = stop + target) : Extras other target items image := by
  induction extras generalizing target with
  | done =>
      obtain rfl : image = target := by omega
      exact .done
  | @more offset middle stop token items scanned extra rest ih =>
      have first := scanned.le
      have last := rest.le
      have known := scanned.known_of_extra extra
      have longer : offset < middle := scanned.lt (by rw [scanned.of_extra extra]; decide)
      have there : middle - offset + target + offset = middle + target := by omega
      refine .more (scanned.mirrors (mirrors.restrict (Nat.le_refl _) last (Nat.add_comm _ _))
        beginning known there) extra ?_
      exact ih (mirrors.restrict first (Nat.le_refl _) there) (fun zero => by omega) (by omega)

end Extras

/-! ## The same tokens in two texts -/

/-- Two texts read alike between two places of each, the last ones included. If the first text begins
there, the other one does too. -/
structure Alongside (text other : Text) (source target bound last : Nat) : Prop where
  mirrors : text.Mirrors other source target bound
  ends : last + source = bound + target
  beginning : source = 0 → target = 0

namespace Alongside

variable {text other : Text} {source target bound last : Nat}

theorem self (text : Text) (source bound : Nat) : Alongside text text source source bound bound :=
  ⟨text.mirrors_self source bound, rfl, id⟩

theorem symm (along : Alongside text other source target bound last)
    (back : target = 0 → source = 0) : Alongside other text target source last bound :=
  ⟨along.mirrors.symm along.ends, along.ends.symm, back⟩

theorem later (along : Alongside text other source target bound last) {offset image : Nat}
    (begun : source ≤ offset) (moved : image + source = offset + target) :
    Alongside text other offset image bound last := by
  refine ⟨along.mirrors.restrict begun (Nat.le_refl _) moved, ?_, fun zero => ?_⟩
  · have := along.ends
    omega
  · have := along.beginning (by omega)
    omega

end Alongside

section Alike

variable {text other : Text} {source target bound last stop otherStop : Nat}

/-- A token of the language stands in both texts. -/
theorem Scanned.alongside {token : Tree} (along : Alongside text other source target bound last)
    (scanned : Scanned text source token stop)
    (known : 1 ≤ token.info.symbol ∧ token.info.symbol ≤ 6) (inside : stop ≤ bound) :
    ∃ image, image + source = stop + target ∧ Scanned other target token image := by
  have le := scanned.le
  have there : stop - source + target + source = stop + target := by omega
  exact ⟨_, there, scanned.mirrors
    (along.mirrors.restrict (Nat.le_refl _) inside (Nat.add_comm _ _)) along.beginning known there⟩

theorem Scanned.alike {token again : Tree} (along : Alongside text other source target bound last)
    (scanned : Scanned text source token stop)
    (known : 1 ≤ token.info.symbol ∧ token.info.symbol ≤ 6) (inside : stop ≤ bound)
    (scannedAgain : Scanned other target again otherStop) :
    token.bare = again.bare ∧ otherStop + source = stop + target := by
  rcases scanned.alongside along known inside with ⟨image, moved, there⟩
  rcases there.unique scannedAgain with ⟨same, rfl⟩
  exact ⟨same, moved⟩

/-- No extra stands where a token lies ahead that is none. -/
theorem Ahead.not_extra {symbol : Nat} {token : Tree} (ahead : Ahead text source symbol)
    (scanned : Scanned text source token stop) (extra : token.info.extra = true) : False := by
  rcases ahead with ⟨_, _, first, _, solid⟩
  rw [(first.unique_symbol scanned).2, extra] at solid
  cases solid

/-- The extras in front of a token that is none are the same in both texts. -/
theorem Extras.alike {symbol again : Nat} {items others : List (Edge Tree)}
    (extras : Extras text source items stop)
    (along : Alongside text other source target bound last) (back : target = 0 → source = 0)
    (ahead : Ahead text stop symbol) (inside : stop ≤ bound)
    (extrasAgain : Extras other target others otherStop) (aheadAgain : Ahead other otherStop again)
    (insideAgain : otherStop ≤ last) :
    Tree.bareAll items = Tree.bareAll others ∧ otherStop + source = stop + target := by
  induction extras generalizing target others with
  | done =>
      cases extrasAgain with
      | done => exact ⟨rfl, Nat.add_comm _ _⟩
      | more scanned extra rest =>
          rcases scanned.alongside (along.symm back) (scanned.known_of_extra extra)
            (Nat.le_trans rest.le insideAgain) with ⟨_, _, there⟩
          exact (ahead.not_extra there extra).elim
  | more scanned extra rest ih =>
      have known := scanned.known_of_extra extra
      have near := Nat.le_trans rest.le inside
      cases extrasAgain with
      | done =>
          rcases scanned.alongside along known near with ⟨_, _, there⟩
          exact (aheadAgain.not_extra there extra).elim
      | more scannedAgain _ restAgain =>
          rcases scanned.alike along known near scannedAgain with ⟨same, moved⟩
          have le := scanned.le
          rcases ih (along.later le moved) (fun zero => by have := back (by omega); omega) ahead
            inside restAgain with ⟨alike, ends⟩
          exact ⟨by simp [same, alike], by omega⟩

/-- The extras in front of a token that is none are determined by the text. -/
theorem Extras.unique {offset symbol again : Nat} {items others : List (Edge Tree)}
    (extras : Extras text offset items stop) (ahead : Ahead text stop symbol)
    (extrasAgain : Extras text offset others otherStop) (aheadAgain : Ahead text otherStop again) :
    Tree.bareAll items = Tree.bareAll others ∧ stop = otherStop := by
  rcases extras.alike (.self text offset (max stop otherStop)) id ahead (Nat.le_max_left _ _)
    extrasAgain aheadAgain (Nat.le_max_right _ _) with ⟨same, moved⟩
  exact ⟨same, by omega⟩

end Alike

end Arithmetic

end Reparse
