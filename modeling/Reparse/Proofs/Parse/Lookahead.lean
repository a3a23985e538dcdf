import Reparse.Grammar.Arithmetic
import Reparse.Grammar.Script
import Reparse.Proofs.Arithmetic.Confined
import Reparse.Proofs.Parse.Twins

/-!
# What a token's lookahead covers

With a token goes the number of bytes behind it that its scan depended on. The scanner works it out
from the place where it stands at the end: the byte there counts, and four more if a malformed byte
was read. Of a longer character it counts the first byte only, although the scan saw all of it. So
where two texts agree as far as the lookahead says and over the character that the scanner stands
before, the same token is found in both (`token_covered_by_lookahead`); where they agree only as far
as the lookahead says, another one may be (`lookahead_misses_bytes`).
-/

namespace Reparse

namespace Scanner

variable {text other : Text} {place otherPlace last offset : Nat} {scanner reached : Scanner}

/-! ## What the scanner saw -/

/-- Where a malformed byte was read, the scanner knows. -/
def Warns (scanner : Scanner) : Prop :=
  ∀ decoded, scanner.loaded.isSome = true →
    Utf8.next? scanner.text scanner.position.bytes = some decoded →
    decoded.malformed = true → scanner.malformed = true

/-- The end of the character that the scanner has read. -/
def readEnd (scanner : Scanner) : Nat :=
  match scanner.loaded with
  | some (_, size) => scanner.position.bytes + size
  | none => scanner.position.bytes

theorem warns_of_unread (unread : scanner.loaded = none) : scanner.Warns := by
  intro decoded some_
  rw [unread] at some_
  cases some_

theorem warns_load (scanner : Scanner) : scanner.load.Warns := by
  unfold load
  cases read : Utf8.next? scanner.text scanner.position.bytes with
  | none => exact warns_of_unread rfl
  | some decoded =>
      intro other _ again malformed
      rw [read, Option.some.injEq] at again
      exact again ▸ malformed

theorem warns_step (scanner : Scanner) (skip : Bool) : (scanner.step skip).Warns := by
  unfold step
  dsimp only
  split
  all_goals
    split
    · exact warns_of_unread rfl
    · exact warns_load _

theorem stable_warns : Stable Warns where
  advance skip warns := by
    unfold Scanner.advance
    split
    · exact warns
    · exact warns_step _ skip
  markEnd warns := warns
  accept _ warns := warns

theorem Warns.reset (warns : scanner.Warns) (position : Extent) :
    (scanner.reset position).Warns := by
  unfold Scanner.reset
  split
  · exact warns
  · unfold goTo
    split <;> exact warns_of_unread rfl

theorem Warns.start (warns : scanner.Warns) : scanner.start.Warns := by
  apply @start_induction scanner Warns
  · exact warns
  · intro between _
    exact warns_load between
  · intro between _
    exact warns_step between true

theorem Warns.report (warns : scanner.Warns) (notice : Notice) : (scanner.report notice).Warns :=
  warns

theorem Warns.finish (warns : scanner.Warns) : scanner.finish.1.Warns := by
  simp only [Scanner.finish]
  repeat' split
  all_goals exact warns

/-- Up to the byte that a finished scanner says its scan depended on, and over the character it has
read, the scanner has seen everything. -/
theorem Reads.covers (short : text.size < maxOffset) (reads : scanner.Reads text (place + last))
    (warns : scanner.Warns)
    (agree : text.Agree other place otherPlace
      (max (scanner.finish.2 - place) (scanner.readEnd - place))) :
    text.Agree other place otherPlace (last + Utf8.sight text (place + last)) := by
  have inside := reads.inside
  have seen := scanner.finish_seen
  rw [reads.bytes_position] at seen
  cases read : Utf8.next? text (place + last) with
  | none =>
      rw [Utf8.sight_of_end read]
      apply agree.mono
      have least : place + last + 1 ≤ scanner.finish.2 := by
        rw [seen]
        split <;> omega
      exact Nat.le_trans (by omega) (Nat.le_max_left _ _)
  | some decoded =>
      have loaded := reads.loaded_eq
      rw [read, Option.map_some] at loaded
      rw [Utf8.sight_of_read read]
      cases malformed : decoded.malformed with
      | false =>
          apply agree.mono
          have whole : scanner.readEnd = place + last + decoded.size := by
            simp only [readEnd, loaded, reads.bytes_position]
          simp only [Bool.false_eq_true, if_false]
          exact Nat.le_trans (by omega) (Nat.le_max_right _ _)
      | true =>
          have flagged : scanner.malformed = true := by
            apply warns decoded
            · rw [loaded]
              rfl
            · rw [reads.text_eq, reads.bytes_position]
              exact read
            · exact malformed
          rw [if_pos flagged] at seen
          simp only [if_true]
          by_cases room : place + last + 5 ≤ maxOffset
          · apply agree.mono
            have far : scanner.finish.2 = place + last + 5 := by omega
            exact Nat.le_trans (by omega) (Nat.le_max_left _ _)
          · -- the count is cut off at the largest offset, which lies behind the text
            have far : scanner.finish.2 = maxOffset := by omega
            have room : text.size - place <
                max (scanner.finish.2 - place) (scanner.readEnd - place) :=
              Nat.lt_of_lt_of_le (by omega) (Nat.le_max_left _ _)
            exact agree.of_ended room (by omega) _

end Scanner

/-! ## Scans of a token -/

namespace Context

open Scanner (Twins)

variable {context after : Context} {text : Text} {scanner reached : Scanner} {token : Tree}
  {place : Nat}

/-- The parse scans its next token at a place of a text. -/
structure LexesAt (text : Text) (place : Nat) (context : Context) : Prop where
  placed : ∃ here, context.scanner.Placed text here
  warns : context.scanner.Warns
  position_eq : context.position = text.place place
  inside : place ≤ text.size

/-- The scan program accepts the next token, and leaves the scanner as `reached`. -/
def Accepts (context : Context) (token : Tree) (reached : Scanner) : Prop :=
  context.program.run (context.scanner.reset context.position).start = some (true, reached) ∧
    ∃ after, context.scanToken = some (token, after)

/-- A parse that has not begun can be moved to any place of its text. -/
theorem lexesAt_new (short : text.size < maxOffset) (inside : place ≤ text.size)
    (vocabulary : Vocabulary) (program : ScanProgram) (older : Option Tree) (limit : Nat) :
    LexesAt text place { new vocabulary program text [Span.whole] older limit with
      position := text.place place } where
  placed := ⟨0, placed_new_scanner short⟩
  warns := by
    have unread : (Scanner.new text [Span.whole]).loaded = none := by
      unfold Scanner.new Scanner.goTo
      split <;> rfl
    exact Scanner.warns_of_unread unread
  position_eq := rfl
  inside := inside

/-- Accepted tokens are what the scanner found. -/
theorem Accepts.token_eq (accepts : context.Accepts token reached) :
    token = (foundToken context.vocabulary reached context.position).1 := by
  rcases accepts with ⟨found, after, scanned⟩
  have made := @scanToken_of_some context true reached
    (foundToken context.vocabulary reached context.position).2
    (foundToken context.vocabulary reached context.position).1 found rfl
  rw [scanned, Option.some.injEq, Prod.mk.injEq] at made
  exact made.1

theorem exists_accepts
    (found : context.program.run (context.scanner.reset context.position).start =
      some (true, reached)) :
    context.Accepts (foundToken context.vocabulary reached context.position).1 reached :=
  ⟨found, _, scanToken_of_some found rfl⟩

/-- Whatever token is made of a scan, its scanner comes from the one before by steps that keep the
warning. -/
theorem warns_tokenOf {before : Scanner} (warns : before.Warns) {program : ScanProgram}
    {found : Bool} (run : program.run before.start = some (found, scanner))
    (vocabulary : Vocabulary) (start : Extent) :
    (tokenOf vocabulary found scanner start).2.Warns := by
  have known : scanner.Warns := Scanner.stable_warns.runFrom warns.start run
  refine tokenOf_cases (motive := fun made => made.2.Warns) vocabulary start
    (fun _ => known.finish) (fun _ => known.finish) fun _ => ?_
  have begun := (known.reset scanner.tokenStart).start.report .unrecognized
  exact (Scanner.stable_warns.markEnd (Scanner.stable_warns.advance false begun)).finish

/-- A parse that has scanned and consumed a token scans the next one behind it. -/
theorem LexesAt.consume (short : text.size < maxOffset) (lexes : context.LexesAt text place)
    (scanned : context.scanToken = some (token, after)) :
    (after.consume token).LexesAt text (place + token.total.bytes) := by
  rcases lexes with ⟨⟨here, placed⟩, warns, position, inside⟩
  rcases exists_filling_scan short placed position inside scanned with
    ⟨span, last, _, fills, _, there, _, still⟩
  rcases fills.covers with ⟨middle, covers, _⟩
  have reach : place + token.total.bytes = last := by
    have forward := covers.le
    rw [covers.total_eq, Text.bytes_width]
    omega
  rw [reach]
  refine ⟨⟨last, there⟩, ?_, ?_, fills.inside⟩
  · rcases exists_of_scanToken scanned with ⟨found, scanner, reached, run, made, rfl⟩
    have warned := (warns_tokenOf (warns.reset context.position) run context.vocabulary
      context.position).reset (context.position + token.total)
    rw [made] at warned
    change (tick _).scanner.Warns
    dsimp only [tick]
    split <;> exact warned
  · change after.position + token.total = _
    rw [still, position, covers.place_add]

/-- Twins make the same token, apart from how far they looked. -/
theorem foundToken_twins {other : Text} {otherPlace last : Nat} {right : Scanner}
    (twins : Twins text other place otherPlace last scanner right)
    (agree : text.Agree other place otherPlace last) (vocabulary others : Vocabulary) :
    (foundToken others right (other.place otherPlace)).1.info.symbol =
        (foundToken vocabulary scanner (text.place place)).1.info.symbol ∧
      (foundToken others right (other.place otherPlace)).1.info.padding =
        (foundToken vocabulary scanner (text.place place)).1.info.padding ∧
      (foundToken others right (other.place otherPlace)).1.info.size =
        (foundToken vocabulary scanner (text.place place)).1.info.size := by
  rcases twins.finish with ⟨first, stop, forward, before, left, right_⟩
  have leftStart : scanner.finish.1.tokenStart = _ := congrArg Span.start left
  have leftStop : scanner.finish.1.tokenEnd = _ := congrArg Span.stop left
  have rightStart : right.finish.1.tokenStart = _ := congrArg Span.start right_
  have rightStop : right.finish.1.tokenEnd = _ := congrArg Span.stop right_
  have longer : stop - first + first = stop := Nat.sub_add_cancel forward
  refine ⟨?_, ?_, ?_⟩
  · change right.finish.1.symbol = scanner.finish.1.symbol
    rw [Scanner.symbol_finish, Scanner.symbol_finish]
    exact twins.symbol_eq
  · change right.finish.1.tokenStart - other.place otherPlace =
      scanner.finish.1.tokenStart - text.place place
    rw [leftStart, rightStart, Text.place_difference, Text.place_difference]
    apply Text.width_congr
    intro index inside
    exact agree index (by omega)
  · change right.finish.1.tokenEnd - right.finish.1.tokenStart =
      scanner.finish.1.tokenEnd - scanner.finish.1.tokenStart
    rw [leftStart, leftStop, rightStart, rightStop, Text.place_sub (by omega),
      Text.place_sub (by omega), Nat.add_sub_add_left, Nat.add_sub_add_left]
    apply Text.width_congr
    intro index inside
    rw [Nat.add_assoc, Nat.add_assoc]
    exact agree (first + index) (by omega)

/-- The lookahead of a token ends where the scanner said that its scan ended. -/
theorem reach_foundToken {least offset : Nat} (short : text.size < maxOffset)
    (works : scanner.Works text least offset) (after : place ≤ least) (vocabulary : Vocabulary) :
    (foundToken vocabulary scanner (text.place place)).1.total.bytes +
      (foundToken vocabulary scanner (text.place place)).1.info.lookahead =
        scanner.finish.2 - place := by
  rcases works.finish short with ⟨first, last, least_le, forward, last_le, span, reads, beyond⟩
  have start : scanner.finish.1.tokenStart = text.place first := congrArg Span.start span
  have stop : scanner.finish.1.tokenEnd = text.place last := congrArg Span.stop span
  change (scanner.finish.1.tokenStart - text.place place +
      (scanner.finish.1.tokenEnd - scanner.finish.1.tokenStart)).bytes +
    (scanner.finish.2 - scanner.finish.1.tokenEnd.bytes) = scanner.finish.2 - place
  simp only [start, stop, Extent.bytes_add, Extent.bytes_sub, Text.bytes_place]
  omega

end Context

open Context (LexesAt)

/-- A plain scan program accepts the same token, with the same padding and size, at two places of
texts that agree from there on as far as the lookahead of the token says and over the character that
the scanner has come to stand before. -/
theorem token_covered_by_lookahead {context other : Context} {text otherText : Text}
    {place otherPlace : Nat} {token : Tree} {reached : Scanner}
    (short : text.size < maxOffset) (otherShort : otherText.size < maxOffset)
    (plain : ∀ label, (context.program label).IsPlain) (same : other.program = context.program)
    (lexes : context.LexesAt text place) (otherLexes : other.LexesAt otherText otherPlace)
    (behind : 0 < place) (otherBehind : 0 < otherPlace) (accepts : context.Accepts token reached)
    (agree : text.Agree otherText place otherPlace
      (max (token.total.bytes + token.info.lookahead) (reached.readEnd - place))) :
    ∃ otherToken otherReached, other.Accepts otherToken otherReached ∧
      otherToken.info.symbol = token.info.symbol ∧
      otherToken.info.padding = token.info.padding ∧
      otherToken.info.size = token.info.size := by
  have made := accepts.token_eq
  rcases lexes with ⟨⟨here, placed⟩, warns, position, inside⟩
  rcases otherLexes with ⟨⟨otherHere, otherPlaced⟩, _, otherPosition, otherInside⟩
  have run := accepts.1
  have warned := Scanner.stable_warns.runFrom (warns.reset context.position).start run
  rw [position] at made run
  have begun := placed.reset short inside
  have started := Scanner.twins_start short otherShort begun
    (otherPlaced.reset otherShort otherInside) behind otherBehind
  have works := (begun.start short).works (Nat.le_refl _)
  rw [Scanner.entry_of_pos behind] at works
  rcases works.runFrom short run with ⟨final, there⟩
  obtain ⟨last, rfl⟩ : ∃ last, final = place + last := ⟨final - place, by have := there.le; omega⟩
  -- as far as the scanner stands, and over what it stands before, the texts read alike
  have reach := Context.reach_foundToken short there (Nat.le_refl place) context.vocabulary
  rw [← made] at reach
  rw [reach] at agree
  have seen := there.toReads.covers short warned agree
  rcases started.runFrom short otherShort plain run there.toReads fun step => seen.next_eq with
    ⟨otherReached, otherRun, twins⟩
  have found : other.program.run (other.scanner.reset other.position).start =
      some (true, otherReached) := by
    rw [same, otherPosition]
    exact otherRun
  refine ⟨_, otherReached, Context.exists_accepts found, ?_⟩
  rw [made, otherPosition]
  exact Context.foundToken_twins twins (seen.mono (Nat.le_add_right _ _)) _ _

/-- The number `23` behind `1+` and behind `10+`, with `*` behind it in both texts. -/
theorem token_covered_by_lookahead_number :
    ∃ (context other : Context) (token : Tree) (reached : Scanner),
      context.LexesAt #[49, 43, 50, 51, 42, 52] 2 ∧ other.LexesAt #[49, 48, 43, 50, 51, 42, 57] 3 ∧
      context.Accepts token reached ∧ token.info.size = ⟨2, ⟨0, 2⟩⟩ ∧
      ∃ otherToken otherReached, other.Accepts otherToken otherReached ∧
        otherToken.info.symbol = token.info.symbol ∧
        otherToken.info.padding = token.info.padding ∧
        otherToken.info.size = token.info.size := by
  let text : Text := #[49, 43, 50, 51, 42, 52]
  let otherText : Text := #[49, 48, 43, 50, 51, 42, 57]
  let begun (text : Text) (place : Nat) : Context :=
    { Context.new Arithmetic.vocabulary Arithmetic.program text [Span.whole] none 0 with
      position := text.place place }
  let context := begun text 2
  have facts : ((context.program.run (context.scanner.reset context.position).start).any
      fun scanned =>
        let token := (Context.foundToken context.vocabulary scanned.2 context.position).1
        scanned.1 && decide (token.info.size = ⟨2, ⟨0, 2⟩⟩ ∧
          max (token.total.bytes + token.info.lookahead) (scanned.2.readEnd - 2) = 3)) = true := by
    decide +kernel
  simp only [Option.any_eq_true, Bool.and_eq_true, decide_eq_true_eq] at facts
  rcases facts with ⟨⟨found, reached⟩, run, accepted, size, reach⟩
  obtain rfl : found = true := accepted
  have accepts := Context.exists_accepts run
  have lexes : context.LexesAt text 2 := Context.lexesAt_new (by decide) (by decide) _ _ _ _
  have otherLexes : (begun otherText 3).LexesAt otherText 3 :=
    Context.lexesAt_new (by decide) (by decide) _ _ _ _
  have same : (begun otherText 3).program = context.program := rfl
  have agree : text.Agree otherText 2 3 3 := by
    show ∀ step < 3, otherText[3 + step]? = text[2 + step]?
    decide
  refine ⟨context, begun otherText 3, _, reached, lexes, otherLexes, accepts, size,
    token_covered_by_lookahead (by decide) (by decide) Arithmetic.isPlain_program same lexes
      otherLexes (by decide) (by decide) accepts ?_⟩
  rw [reach]
  exact agree

/-! ## A character that is not covered -/

namespace Script

/-- A token rule that applies in every column and wherever spans start. -/
def TokenRule.IsPlain (rule : TokenRule) : Prop := rule.column = none ∧ rule.atSpanStart = none

theorem TokenRule.isPlain_beyondBlock (rule : TokenRule) (label : Nat) :
    (rule.beyondBlock label).IsPlain := by
  intro char atEnd
  dsimp only
  split <;> trivial

theorem TokenRule.isPlain_moreBlock (rule : TokenRule) (label beyondLabel : Nat) :
    (rule.moreBlock label beyondLabel).IsPlain := by
  intro char atEnd
  dsimp only
  split
  · trivial
  · exact rule.isPlain_beyondBlock beyondLabel

theorem TokenRule.IsPlain.chooseBlock {rule : TokenRule} (plain : rule.IsPlain)
    {chosen otherwise : Block} (left : chosen.IsPlain) (right : otherwise.IsPlain) :
    (rule.chooseBlock chosen otherwise).IsPlain := by
  simp only [TokenRule.chooseBlock, plain.1, plain.2]
  split
  · exact left
  · intro char atEnd
    dsimp only
    split
    · exact left
    · exact right

theorem isPlain_chooseFrom {rules : List TokenRule} (plain : ∀ rule ∈ rules, rule.IsPlain)
    (number : Nat) : (chooseFrom number rules).IsPlain := by
  induction rules generalizing number with
  | nil => trivial
  | cons rule rest ih =>
      rcases List.forall_mem_cons.mp plain with ⟨first, later⟩
      apply first.chooseBlock
      · unfold TokenRule.beginBlock
        split <;> trivial
      · exact ih later (number + 1)

/-- A program of such rules asks for nothing but characters and the end. -/
theorem isPlain_program {rules : Array TokenRule} (plain : ∀ rule ∈ rules.toList, rule.IsPlain)
    (label : Nat) : (program rules label).IsPlain := by
  cases label with
  | zero =>
      intro char atEnd
      dsimp only
      split
      · trivial
      · exact isPlain_chooseFrom plain 0
  | succ label =>
      simp only [program]
      split
      · trivial
      · split
        · exact TokenRule.isPlain_moreBlock _ _ _
        · exact TokenRule.isPlain_beyondBlock _ _

end Script

/-- Tokens for `x`, for an amount of `€` after `a`, and for a single `₭`. -/
def priceRules : Array Script.TokenRule :=
  #[⟨some ['x'], none, none, false, [], [], 1⟩, ⟨some ['a'], none, none, false, ['€'], [], 2⟩,
    ⟨some ['₭'], none, none, false, [], [], 3⟩]

/-- The texts `xa₭` and `xa€` differ in the last byte only. In the first one, `a` is a token whose
lookahead ends before that byte, but the scan has seen that no `€` follows: in the second text the
token is `a€`. -/
theorem lookahead_misses_bytes :
    ∃ (context other : Context) (token otherToken : Tree) (reached otherReached : Scanner),
      (∀ label, (context.program label).IsPlain) ∧ other.program = context.program ∧
      context.LexesAt #[120, 97, 226, 130, 173] 1 ∧ other.LexesAt #[120, 97, 226, 130, 172] 1 ∧
      context.Accepts token reached ∧ other.Accepts otherToken otherReached ∧
      Text.Agree #[120, 97, 226, 130, 173] #[120, 97, 226, 130, 172] 1 1
        (token.total.bytes + token.info.lookahead) ∧
      token.info.size = ⟨1, ⟨0, 1⟩⟩ ∧ otherToken.info.size = ⟨4, ⟨0, 4⟩⟩ := by
  let text : Text := #[120, 97, 226, 130, 173]
  let otherText : Text := #[120, 97, 226, 130, 172]
  let begun (text : Text) : Context :=
    { Context.new Arithmetic.vocabulary (Script.program priceRules) text [Span.whole] none 0
      with position := text.place 1 }
  let accepted (text : Text) (size : Nat) : Bool :=
    ((begun text).program.run ((begun text).scanner.reset (begun text).position).start).any
      fun scanned =>
        let token := (Context.foundToken (begun text).vocabulary scanned.2 (begun text).position).1
        scanned.1 && decide (token.info.size = ⟨size, ⟨0, size⟩⟩ ∧
          token.total.bytes + token.info.lookahead = size + 1)
  have found (text : Text) (size : Nat) (facts : accepted text size = true) :
      ∃ token reached, (begun text).Accepts token reached ∧ token.info.size = ⟨size, ⟨0, size⟩⟩ ∧
        token.total.bytes + token.info.lookahead = size + 1 := by
    simp only [accepted, Option.any_eq_true, Bool.and_eq_true, decide_eq_true_eq] at facts
    rcases facts with ⟨⟨found, reached⟩, run, rfl, facts⟩
    exact ⟨_, reached, Context.exists_accepts run, facts⟩
  rcases found text 1 (by decide +kernel) with ⟨token, reached, accepts, size, reach⟩
  rcases found otherText 4 (by decide +kernel) with
    ⟨otherToken, otherReached, otherAccepts, otherSize, _⟩
  have plain : ∀ label, (Script.program priceRules label).IsPlain := by
    apply Script.isPlain_program
    intro rule among
    simp only [priceRules, List.mem_cons, List.not_mem_nil, or_false] at among
    rcases among with rfl | rfl | rfl <;> exact ⟨rfl, rfl⟩
  refine ⟨begun text, begun otherText, token, otherToken, reached, otherReached, plain, rfl,
    Context.lexesAt_new (by decide) (by decide) _ _ _ _,
    Context.lexesAt_new (by decide) (by decide) _ _ _ _, accepts, otherAccepts, ?_, size,
    otherSize⟩
  rw [reach]
  show ∀ step < 2, otherText[1 + step]? = text[1 + step]?
  decide

end Reparse
