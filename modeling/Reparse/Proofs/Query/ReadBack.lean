import Reparse.Proofs.Query.Progress
import Reparse.Proofs.Query.Tokens

/-!
# Patterns are read back

A pattern that tokens spell is the one that is read from them, whatever the gaps between them
(`Spells.reads`): each way to write a pattern has a first token that no other way has, and no
capture follows the last of its captures. A text that spells patterns compiles to these patterns
(`Query.compile_spelled`). How large the bound of a production must be does not matter here, since
that of a whole text is never reached.
-/

namespace Reparse

namespace QueryText

/-! ## Patterns -/

section Patterns

variable (vocabulary : Vocabulary) (names : List String)

/-- Tokens of which the next item reads a pattern. -/
def ReadsItem (scope : Scope) (pattern : Pattern) (tokens : List Token) : Prop :=
  ∀ (fuel : Nat) {more : List Token} {reading : Reading}, NoCapture more →
    Toward names (tokens ++ more) reading →
      Yields (readItem vocabulary scope fuel) reading fun item later =>
        item = .pattern pattern ∧ Toward names more later

/-- Tokens from which the body of a node is read. -/
def ReadsBody (scope : Scope) (children : List Pattern) (absent : List Nat)
    (tokens : List Token) : Prop :=
  ∀ (fuel : Nat) {more : List Token} {reading : Reading},
    Toward names (tokens ++ .sign ')' :: more) reading →
      Yields (readBody vocabulary scope fuel) reading fun body later =>
        body = ⟨children, absent⟩ ∧ Toward names more later

/-- Tokens from which alternatives are read. -/
def ReadsAlternatives (scope : Scope) (alternatives : List Pattern) (tokens : List Token) :
    Prop :=
  ∀ (fuel : Nat) {more : List Token} {reading : Reading},
    Toward names (tokens ++ .sign ']' :: more) reading →
      Yields (readAlternatives vocabulary scope fuel) reading fun found later =>
        found = alternatives ∧ Toward names more later

variable {vocabulary names} {scope : Scope} {children alternatives : List Pattern}
  {absent captures : List Nat} {tokens : List Token} {reading : Reading}

/-! ### Lookups and checks -/

theorem checkChild_run {symbol : Option Nat} (admitted : admitsChild vocabulary scope symbol = true)
    (offset : Nat) :
    (checkChild vocabulary scope symbol offset).run reading = .ok ((), reading) := by
  rw [checkChild, if_pos admitted]
  rfl

theorem checkField_run {parent : Option Nat} {field : Nat}
    (admitted : admitsField vocabulary parent field = true) (offset : Nat) :
    (checkField vocabulary parent field offset).run reading = .ok ((), reading) := by
  rw [checkField, if_pos admitted]
  rfl

theorem require_run {condition : Prop} [Decidable condition] (holds : condition) (offset : Nat) :
    (require condition offset).run reading = .ok ((), reading) := by
  rw [require, if_pos holds]
  rfl

theorem namedSymbol_run {name : String} {symbol : Nat} (named : NamesNode vocabulary name symbol)
    (start : Nat) : (namedSymbol vocabulary name start).run reading = .ok (symbol, reading) := by
  rw [namedSymbol, named.found]
  cases symbol with
  | zero => exact absurd rfl named.ne_zero
  | succ symbol => rfl

theorem fieldNumber_run {name : String} {field : Nat} (named : NamesField vocabulary name field)
    (start : Nat) : (fieldNumber vocabulary name start).run reading = .ok (field, reading) := by
  rw [fieldNumber, named.found]
  cases field with
  | zero => exact absurd rfl named.ne_zero
  | succ field => rfl

theorem On.readToken {value : String} {symbol : Nat} (named : NamesToken vocabulary value symbol)
    (on : On names (.string value :: tokens) reading) :
    ∃ later, (readToken vocabulary).run reading = .ok (symbol, later) ∧
      Toward names tokens later := by
  rcases on.readString with ⟨later, read, toward⟩
  refine ⟨later, ?_, toward⟩
  rw [QueryText.readToken, run_bind_of offset_run, run_bind_of read, named.found]
  cases symbol with
  | zero => exact absurd rfl named.ne_zero
  | succ symbol => rfl

/-! ### Patterns of one token -/

/-- An item that begins with a name is a wildcard, or a pattern in the field of that name. -/
theorem yields_readItem_word {name : String} {fuel : Nat} {good : Item → Reading → Prop}
    (toward : Toward names (.word name :: tokens) reading)
    (wildcard : ∀ start later, name = "_" → Toward names tokens later →
      Yields (do checkChild vocabulary scope none start; childless .any) later good)
    (field : ∀ start later, name ≠ "_" → Toward names tokens later →
      Yields (readField vocabulary scope name start fuel) later good) :
    Yields (readItem vocabulary scope (fuel + 1)) reading good := by
  rw [readItem]
  rcases toward.skipTrivia with ⟨here, skipped, on⟩
  refine Ends.take skipped (Ends.take offset_run (Ends.take peek_run ?_))
  rcases on.face with ⟨char, seen, faces⟩
  have named : isNamePart char = true := faces
  rcases on.readName with ⟨later, read, behind⟩
  rw [seen]
  split
  case h_6 other _ _ _ _ _ same =>
    obtain rfl : char = other := Option.some.inj same
    refine Ends.take (require_run named _) (Ends.take read ?_)
    exact .ite (fun same => wildcard _ _ same behind) fun other => field _ _ other behind
  case h_7 same => cases same
  all_goals
    next same =>
    obtain rfl := Option.some.inj same
    exact absurd named (by decide)

theorem readsItem_any {sign : Token} (signed : sign = .sign '*' ∨ sign = .word "_")
    (admitted : admitsChild vocabulary scope none = true) :
    ReadsItem vocabulary names scope (.node .any [] [] 0 captures)
      (sign :: captureTokens names captures) := by
  intro fuel more reading none toward
  cases fuel with
  | zero => exact .throw rfl
  | succ fuel =>
    rcases signed with rfl | rfl
    · rw [readItem]
      rcases toward.skipTrivia with ⟨here, skipped, on⟩
      refine Ends.take skipped (Ends.take offset_run (Ends.take peek_run ?_))
      rw [on.face_sign]
      rcases on.skip with ⟨later, star, toward⟩
      refine Ends.take star ?_
      exact Ends.take (checkChild_run admitted _) (yields_childless .any captures none toward)
    · refine yields_readItem_word toward (fun start later _ toward => ?_)
        fun _ _ other _ => absurd rfl other
      exact Ends.take (checkChild_run admitted _) (yields_childless .any captures none toward)

theorem readsItem_token {value : String} {symbol : Nat} (named : NamesToken vocabulary value symbol)
    (admitted : admitsChild vocabulary scope (some symbol) = true) :
    ReadsItem vocabulary names scope (.node (.symbol symbol) [] [] 0 captures)
      (.string value :: captureTokens names captures) := by
  intro fuel more reading none toward
  cases fuel with
  | zero => exact .throw rfl
  | succ fuel =>
    rw [readItem]
    rcases toward.skipTrivia with ⟨here, skipped, on⟩
    refine Ends.take skipped (Ends.take offset_run (Ends.take peek_run ?_))
    rw [on.face_string]
    rcases on.readToken named with ⟨later, read, toward⟩
    refine Ends.take read (Ends.take (checkChild_run admitted _) ?_)
    exact yields_childless (.symbol symbol) captures none toward

/-! ### Patterns in parentheses -/

/-- What is in parentheses and begins with a name is a node. -/
theorem yields_readItem_node {name : String} {fuel : Nat} {good : Item → Reading → Prop}
    (toward : Toward names (.sign '(' :: .word name :: tokens) reading)
    (node : ∀ start later, On names (.word name :: tokens) later →
      Yields (readNode vocabulary scope start fuel) later good) :
    Yields (readItem vocabulary scope (fuel + 1)) reading good := by
  rw [readItem]
  rcases toward.skipTrivia with ⟨here, skipped, on⟩
  refine Ends.take skipped (Ends.take offset_run (Ends.take peek_run ?_))
  rw [on.face_sign]
  rcases on.skip with ⟨inside, opened, toward⟩
  rcases toward.skipTrivia with ⟨there, gap, on⟩
  refine Ends.take opened (Ends.take gap (Ends.take peek_run ?_))
  rcases on.face with ⟨char, seen, faces⟩
  have named : isNamePart char = true := faces
  rw [seen]
  split
  case h_5 => exact node _ _ on
  all_goals
    next same =>
    obtain rfl := Option.some.inj same
    exact absurd named (by decide)

/-- Which token is missing is read up to the closing parenthesis. -/
theorem On.readMissingSymbol {symbol : Option Nat} {named : List Token}
    (misses : Misses vocabulary symbol named)
    (on : On names (named ++ .sign ')' :: tokens) reading) :
    ∃ later, (readMissingSymbol vocabulary).run reading = .ok (symbol, later) ∧
      Toward names (.sign ')' :: tokens) later := by
  rw [QueryText.readMissingSymbol, run_bind_of peek_run]
  cases misses with
  | any =>
    rw [on.face_sign]
    exact ⟨reading, rfl, on.toward⟩
  | @named name symbol named =>
    rcases on.face with ⟨char, seen, faces⟩
    have part : isNamePart char = true := faces
    rcases on.readName with ⟨later, read, toward⟩
    refine ⟨later, ?_, toward⟩
    rw [seen]
    split
    · next same =>
      obtain rfl := Option.some.inj same
      exact absurd part (by decide)
    · next other _ same =>
      obtain rfl : char = other := Option.some.inj same
      rw [if_pos part, run_bind_of offset_run, run_bind_of read,
        run_bind_of (namedSymbol_run named _)]
      rfl
    · next same => cases same
  | token named =>
    rcases on.readToken named with ⟨later, read, toward⟩
    refine ⟨later, ?_, toward⟩
    rw [on.face_string]
    exact run_bind_of read

theorem readsItem_missing {symbol : Option Nat} {named : List Token}
    (misses : Misses vocabulary symbol named)
    (admitted : admitsChild vocabulary scope symbol = true) :
    ReadsItem vocabulary names scope (.node (.missing symbol) [] [] 0 captures)
      (.sign '(' :: .word "MISSING" :: (named ++ .sign ')' :: captureTokens names captures)) := by
  intro fuel more reading none toward
  cases fuel with
  | zero => exact .throw rfl
  | succ fuel =>
    simp only [List.cons_append, List.append_assoc] at toward
    refine yields_readItem_node toward fun start later on => ?_
    cases fuel with
    | zero => exact .throw rfl
    | succ fuel =>
      rw [readNode]
      rcases on.readName with ⟨behind, read, toward⟩
      refine Ends.take offset_run (Ends.take read ?_)
      refine Ends.take (require_run (by decide) _) ?_
      rw [if_pos rfl, readMissing]
      rcases toward.skipTrivia with ⟨there, gap, on⟩
      rcases on.readMissingSymbol misses with ⟨found, symbolRead, toward⟩
      refine Ends.take gap (Ends.take symbolRead (Ends.take (checkChild_run admitted _) ?_))
      rcases toward.skipTrivia with ⟨last, gap, on⟩
      rcases on.skip with ⟨closed, skipped, toward⟩
      refine Ends.take gap (Ends.take peek_run (Ends.take offset_run ?_))
      refine Ends.take (require_run on.face_sign _) (Ends.take skipped ?_)
      exact yields_childless (.missing symbol) captures none toward

theorem readsItem_node {symbol : Option Nat} {head : Token} {body : List Token}
    (heads : Heads vocabulary symbol head)
    (admitted : admitsChild vocabulary scope symbol = true)
    (reads : ReadsBody vocabulary names (.within symbol) children absent body) :
    ReadsItem vocabulary names scope (.node (nodeMatcher symbol) children absent 0 captures)
      (.sign '(' :: head :: (body ++ .sign ')' :: captureTokens names captures)) := by
  intro fuel more reading none toward
  cases fuel with
  | zero => exact .throw rfl
  | succ fuel =>
    simp only [List.cons_append, List.append_assoc] at toward
    have named : ∃ name, head = .word name ∧ name ≠ "" ∧ name ≠ "MISSING" ∧
        ∀ place reading, (nodeSymbol vocabulary name place).run reading =
          .ok (symbol, reading) := by
      cases heads with
      | wildcard => exact ⟨"_", rfl, by decide, by decide, fun _ _ => rfl⟩
      | @named name symbol named =>
        refine ⟨name, rfl, named.isName.ne_empty, named.ne_missing, fun place reading => ?_⟩
        rw [nodeSymbol, if_neg named.ne_wildcard, run_bind_of (namedSymbol_run named _)]
        rfl
    rcases named with ⟨name, rfl, nonempty, other, found⟩
    refine yields_readItem_node toward fun start later on => ?_
    cases fuel with
    | zero => exact .throw rfl
    | succ fuel =>
      rw [readNode]
      rcases on.readName with ⟨behind, read, toward⟩
      refine Ends.take offset_run (Ends.take read (Ends.take (require_run nonempty _) ?_))
      rw [if_neg other]
      refine Ends.take (found _ _) (Ends.take (checkChild_run admitted _) ?_)
      refine Ends.bind (reads fuel toward) ?_
      rintro _ closed ⟨rfl, toward⟩
      refine Ends.bind (yields_captures captures none toward) ?_
      rintro _ last ⟨rfl, reached⟩
      exact .pure ⟨rfl, reached⟩

theorem readsItem_oneOf {body : List Token} (nonempty : alternatives ≠ [])
    (reads : ReadsAlternatives vocabulary names scope alternatives body) :
    ReadsItem vocabulary names scope (.oneOf alternatives 0 captures)
      (.sign '[' :: (body ++ .sign ']' :: captureTokens names captures)) := by
  intro fuel more reading none toward
  cases fuel with
  | zero => exact .throw rfl
  | succ fuel =>
    simp only [List.cons_append, List.append_assoc] at toward
    rw [readItem]
    rcases toward.skipTrivia with ⟨here, skipped, on⟩
    refine Ends.take skipped (Ends.take offset_run (Ends.take peek_run ?_))
    rw [on.face_sign]
    rcases on.skip with ⟨inside, opened, toward⟩
    refine Ends.take opened (Ends.bind (reads fuel toward) ?_)
    rintro _ closed ⟨rfl, toward⟩
    refine Ends.take (require_run (by simpa using nonempty) _) ?_
    refine Ends.bind (yields_captures captures none toward) ?_
    rintro _ last ⟨rfl, reached⟩
    exact .pure ⟨rfl, reached⟩

theorem readsItem_inField {pattern : Pattern} {name : String} {field : Nat}
    (named : NamesField vocabulary name field)
    (admitted : admitsField vocabulary scope.parent field = true)
    (reads : ReadsItem vocabulary names { scope with field } pattern tokens) :
    ReadsItem vocabulary names scope (pattern.inField field)
      (.word name :: .sign ':' :: tokens) := by
  intro fuel more reading none toward
  cases fuel with
  | zero => exact .throw rfl
  | succ fuel =>
    refine yields_readItem_word toward (fun _ _ same => absurd same named.ne_wildcard)
      fun start later _ toward => ?_
    cases fuel with
    | zero => exact .throw rfl
    | succ fuel =>
      rw [readField]
      rcases toward.skipTrivia with ⟨here, gap, on⟩
      rcases on.skip with ⟨behind, colon, toward⟩
      refine Ends.take gap (Ends.take peek_run (Ends.take (require_run on.face_sign _) ?_))
      refine Ends.take colon (Ends.take (fieldNumber_run named _) ?_)
      refine Ends.take (checkField_run admitted _) ?_
      rcases toward.skipTrivia with ⟨there, gap, on⟩
      refine Ends.take gap (Ends.take offset_run ?_)
      refine Ends.bind (reads fuel none on.toward) ?_
      rintro _ last ⟨rfl, reached⟩
      exact .pure ⟨rfl, reached⟩

/-- A field that must be absent is an item. -/
theorem yields_readItem_absent {name : String} {field : Nat}
    (named : NamesField vocabulary name field)
    (admitted : admitsField vocabulary scope.parent field = true) (fuel : Nat)
    (toward : Toward names (.absent name :: tokens) reading) :
    Yields (readItem vocabulary scope fuel) reading fun item later =>
      item = .absentField field ∧ Toward names tokens later := by
  cases fuel with
  | zero => exact .throw rfl
  | succ fuel =>
    rw [readItem]
    rcases toward.skipTrivia with ⟨here, skipped, on⟩
    refine Ends.take skipped (Ends.take offset_run (Ends.take peek_run ?_))
    rw [on.face_absent]
    rcases on.readAbsent with ⟨marked, later, sign, read, toward⟩
    refine Ends.take sign (Ends.take offset_run (Ends.take read ?_))
    refine Ends.take (fieldNumber_run named _) (Ends.take (checkField_run admitted _) ?_)
    exact .pure ⟨rfl, toward⟩

/-! ### Lists of items -/

/-- A token that an item begins with. -/
def Token.Opens : Token → Prop
  | .sign char => char ∈ ['(', '[', '*']
  | .word _ | .string _ | .absent _ => True
  | .capture _ => False

theorem Spells.first {pattern : Pattern} (spells : Spells vocabulary names scope pattern tokens) :
    ∃ token rest, tokens = token :: rest ∧ token.Opens := by
  cases spells with
  | any signed _ =>
    rcases signed with rfl | rfl
    · exact ⟨_, _, rfl, by simp [Token.Opens]⟩
    · exact ⟨_, _, rfl, trivial⟩
  | token | inField => exact ⟨_, _, rfl, trivial⟩
  | missing | node | oneOf => exact ⟨_, _, rfl, by simp [Token.Opens]⟩

/-- No capture stands behind an item of a list. -/
theorem SpellsItems.noCapture (items : SpellsItems vocabulary names scope children absent tokens)
    {more : List Token} (none : NoCapture more) : NoCapture (tokens ++ more) := by
  intro name rest same
  cases items with
  | nil => exact none name rest same
  | pattern spells _ =>
    rcases spells.first with ⟨token, rest, rfl, opens⟩
    obtain ⟨rfl, -⟩ := List.cons.inj same
    exact opens
  | absent => cases same

theorem noCapture_sign (char : Char) (more : List Token) : NoCapture (.sign char :: more) :=
  fun _ _ same => by cases same

/-- An item does not look like the end of a list. -/
theorem On.face_opens {token : Token} (on : On names (token :: tokens) reading)
    (opens : token.Opens) : ∃ char, reading.face = some char ∧ char ≠ ')' ∧ char ≠ ']' := by
  rcases on.face with ⟨char, seen, faces⟩
  refine ⟨char, seen, ?_⟩
  cases token with
  | sign listed =>
    obtain ⟨rfl, -⟩ := faces
    simp only [Token.Opens, List.mem_cons, List.not_mem_nil, or_false] at opens
    rcases opens with rfl | rfl | rfl <;> decide
  | word _ =>
    have named : isNamePart char = true := faces
    exact ⟨by rintro rfl; exact absurd named (by decide),
      by rintro rfl; exact absurd named (by decide)⟩
  | string _ | absent _ =>
    obtain rfl := faces
    decide
  | capture _ => exact opens.elim

theorem readsBody_nil : ReadsBody vocabulary names scope [] [] [] := by
  intro fuel more reading toward
  cases fuel with
  | zero => exact .throw rfl
  | succ fuel =>
    rw [readBody]
    rcases toward.skipTrivia with ⟨here, skipped, on⟩
    refine Ends.take skipped (Ends.take peek_run ?_)
    rw [on.face_sign]
    rcases on.skip with ⟨later, closed, toward⟩
    exact Ends.take closed (.pure ⟨rfl, toward⟩)

/-- An item is read, then the items behind it. -/
theorem yields_readBody {token : Token} {fuel : Nat} {good : Body → Reading → Prop}
    (toward : Toward names (token :: tokens) reading) (opens : token.Opens)
    (item : ∀ later, Toward names (token :: tokens) later →
      Yields (do
        let item ← readItem vocabulary scope fuel
        return item.onto (← readBody vocabulary scope fuel)) later good) :
    Yields (readBody vocabulary scope (fuel + 1)) reading good := by
  rw [readBody]
  rcases toward.skipTrivia with ⟨here, skipped, on⟩
  refine Ends.take skipped (Ends.take peek_run ?_)
  rcases on.face_opens opens with ⟨char, seen, unclosed, -⟩
  rw [seen]
  split
  · next same => exact absurd (Option.some.inj same) unclosed
  · next same => cases same
  · exact item _ on.toward

theorem readsBody_pattern {pattern : Pattern} {more : List Token}
    (spells : Spells vocabulary names scope pattern tokens)
    (reads : ReadsItem vocabulary names scope pattern tokens)
    (items : SpellsItems vocabulary names scope children absent more)
    (rest : ReadsBody vocabulary names scope children absent more) :
    ReadsBody vocabulary names scope (pattern :: children) absent (tokens ++ more) := by
  intro fuel behind reading toward
  cases fuel with
  | zero => exact .throw rfl
  | succ fuel =>
    rw [List.append_assoc] at toward
    rcases spells.first with ⟨token, tail, rfl, opens⟩
    refine yields_readBody toward opens fun later toward => ?_
    refine Ends.bind (reads fuel (items.noCapture (noCapture_sign _ _)) toward) ?_
    rintro _ behind ⟨rfl, toward⟩
    refine Ends.bind (rest fuel toward) ?_
    rintro _ last ⟨rfl, toward⟩
    exact .pure ⟨rfl, toward⟩

theorem readsBody_absent {name : String} {field : Nat} {more : List Token}
    (named : NamesField vocabulary name field)
    (admitted : admitsField vocabulary scope.parent field = true)
    (rest : ReadsBody vocabulary names scope children absent more) :
    ReadsBody vocabulary names scope children (field :: absent) (.absent name :: more) := by
  intro fuel behind reading toward
  cases fuel with
  | zero => exact .throw rfl
  | succ fuel =>
    refine yields_readBody toward trivial fun later toward => ?_
    refine Ends.bind (yields_readItem_absent named admitted fuel toward) ?_
    rintro _ behind ⟨rfl, toward⟩
    refine Ends.bind (rest fuel toward) ?_
    rintro _ last ⟨rfl, toward⟩
    exact .pure ⟨rfl, toward⟩

theorem readsAlternatives_nil : ReadsAlternatives vocabulary names scope [] [] := by
  intro fuel more reading toward
  cases fuel with
  | zero => exact .throw rfl
  | succ fuel =>
    rw [readAlternatives]
    rcases toward.skipTrivia with ⟨here, skipped, on⟩
    refine Ends.take skipped (Ends.take peek_run ?_)
    rw [on.face_sign]
    rcases on.skip with ⟨later, closed, toward⟩
    exact Ends.take closed (.pure ⟨rfl, toward⟩)

theorem readsAlternatives_pattern {pattern : Pattern} {more : List Token}
    (spells : Spells vocabulary names scope pattern tokens)
    (reads : ReadsItem vocabulary names scope pattern tokens)
    (items : SpellsItems vocabulary names scope alternatives absent more)
    (rest : ReadsAlternatives vocabulary names scope alternatives more) :
    ReadsAlternatives vocabulary names scope (pattern :: alternatives) (tokens ++ more) := by
  intro fuel behind reading toward
  cases fuel with
  | zero => exact .throw rfl
  | succ fuel =>
    rw [List.append_assoc] at toward
    rcases spells.first with ⟨token, tail, rfl, opens⟩
    rw [readAlternatives]
    rcases toward.skipTrivia with ⟨here, skipped, on⟩
    refine Ends.take skipped (Ends.take peek_run ?_)
    rcases on.face_opens opens with ⟨char, seen, -, unclosed⟩
    rw [seen]
    split
    · next same => exact absurd (Option.some.inj same) unclosed
    · next same => cases same
    · refine Ends.take offset_run ?_
      refine Ends.bind (reads fuel (items.noCapture (noCapture_sign _ _)) on.toward) ?_
      rintro _ behind ⟨rfl, toward⟩
      refine Ends.take rfl (Ends.bind (rest fuel toward) ?_)
      rintro _ last ⟨rfl, toward⟩
      exact .pure ⟨rfl, toward⟩

mutual

/-- The pattern that tokens spell is read from them. -/
theorem Spells.reads {pattern : Pattern} {scope : Scope} {tokens : List Token} :
    Spells vocabulary names scope pattern tokens →
      ReadsItem vocabulary names scope pattern tokens
  | .any signed admitted => readsItem_any signed admitted
  | .token named admitted => readsItem_token named admitted
  | .missing misses admitted => readsItem_missing misses admitted
  | .node heads admitted items => readsItem_node heads admitted items.reads.1
  | .oneOf nonempty items => readsItem_oneOf nonempty (items.reads.2 rfl)
  | .inField named admitted spells => readsItem_inField named admitted spells.reads

/-- The items that tokens spell are read from them, as the body of a node and, if all of them are
patterns, as alternatives. -/
theorem SpellsItems.reads {scope : Scope} {children : List Pattern} {absent : List Nat}
    {tokens : List Token} : SpellsItems vocabulary names scope children absent tokens →
      ReadsBody vocabulary names scope children absent tokens ∧
        (absent = [] → ReadsAlternatives vocabulary names scope children tokens)
  | .nil => ⟨readsBody_nil, fun _ => readsAlternatives_nil⟩
  | .pattern spells items =>
    ⟨readsBody_pattern spells spells.reads items items.reads.1, fun patterns =>
      readsAlternatives_pattern spells spells.reads items (items.reads.2 patterns)⟩
  | .absent named admitted items =>
    ⟨readsBody_absent named admitted items.reads.1, fun patterns => by cases patterns⟩

end

/-! ### Whole texts -/

theorem finishPattern_run (start : Nat) (sequence : List Pattern)
    (toward : Toward names tokens reading) :
    ∃ pattern later, (finishPattern start sequence).run reading = .ok (pattern, later) ∧
      pattern = ⟨start, sequence, [], []⟩ ∧ Toward names tokens later := by
  refine ⟨_, _, rfl, ?_, ?_⟩
  · rw [toward.recorded.tests_eq, toward.recorded.predicates_eq]
  · rcases toward.laid with ⟨behindName, before, text, stands, laid⟩
    exact ⟨⟨toward.recorded.captures, toward.recorded.strings_eq, rfl, rfl⟩, behindName, before,
      text, ⟨stands.text_eq, stands.rest_eq, stands.offset_eq⟩, laid⟩

/-- Patterns one behind the other are read up to the end of the text, without predicates. -/
theorem SpellsItems.readsPatterns {scope : Scope} {patterns : List Pattern} {absent : List Nat}
    {tokens : List Token} : SpellsItems vocabulary names scope patterns absent tokens →
      scope = ⟨none, 0⟩ → absent = [] → ∀ (depth fuel : Nat) {reading : Reading},
        Toward names tokens reading →
          Yields (readPatterns vocabulary depth fuel) reading fun found later =>
            found.map (fun pattern => (pattern.sequence, pattern.tests, pattern.predicates)) =
                patterns.map (fun pattern => ([pattern], [], [])) ∧
              Toward names [] later
  | _, _, _, _, 0, _, _ => .throw rfl
  | .nil, _, _, depth, fuel + 1, _, toward => by
    rcases toward.skipTrivia with ⟨here, skipped, on⟩
    refine Ends.take skipped (Ends.take peek_run ?_)
    rw [if_pos on.face_nil]
    exact .pure ⟨rfl, on.toward⟩
  | .pattern spells items, top, patterns, depth, fuel + 1, _, toward => by
    have last : NoCapture ([] : List Token) := fun _ _ same => by cases same
    have none := items.noCapture last
    rw [List.append_nil] at none
    rcases toward.skipTrivia with ⟨here, skipped, on⟩
    have more : here.face ≠ Option.none := by
      rcases spells.first with ⟨token, tail, rfl, opens⟩
      rcases on.face_opens opens with ⟨char, seen, -⟩
      simp [seen]
    refine Ends.take skipped (Ends.take peek_run ?_)
    rw [if_neg more]
    refine Ends.take offset_run (Ends.bind (top ▸ spells.reads depth none on.toward) ?_)
    rintro _ behind ⟨rfl, toward⟩
    refine Ends.take rfl ?_
    rcases finishPattern_run here.offset [_] toward with ⟨pattern, later, finished, rfl, toward⟩
    refine Ends.take finished ?_
    refine Ends.bind (items.readsPatterns top patterns depth fuel toward) ?_
    rintro found last ⟨same, toward⟩
    exact .pure ⟨by simp [same], toward⟩
  | .absent .., _, top, _, _, _, _ => by cases top

end Patterns

end QueryText

namespace Query

open QueryText

/-- The patterns of a query are read back from any text that spells them: the query has exactly
these patterns, in order and without predicates, and its captures are those of the text in order of
their first occurrence. -/
theorem compile_spelled (language : Language) (names : List String) (patterns : List Pattern)
    (tokens : List Token) (source : String)
    (spells : SpellsItems language.vocabulary names ⟨none, 0⟩ patterns [] tokens)
    (numbered : (capturesIn tokens).eraseDups = names) (laid : Laid false tokens source.toList) :
    ∃ query, compile language source = .ok query ∧
      query.patterns.toList.map
          (fun pattern => (pattern.sequence, pattern.tests, pattern.predicates)) =
        patterns.map (fun pattern => ([pattern], [], [])) ∧
      query.language = language ∧ query.captureNames = names ∧ query.strings = [] := by
  have start : Toward names tokens (.start source.toList) :=
    ⟨⟨⟨[], rfl, numbered⟩, rfl, rfl, rfl⟩, false, [], _, Reading.standsAt_start _, laid⟩
  have yields := spells.readsPatterns rfl rfl
    (2 * (Utf8.encode source.toList).length + 1) ((Utf8.encode source.toList).length + 1) start
  unfold Yields Ends at yields
  rcases (gains_readText language.vocabulary source.toList).outcome with
    ⟨found, later, ran, -⟩ | ⟨error, ran, -⟩
  · rw [ran] at yields
    rcases yields with ⟨same, ended⟩
    have got : read language source =
        .ok ⟨language, found.toArray, later.captureNames, later.strings⟩ := by
      rw [read, readText, ran]
      rfl
    have captured : later.captureNames = names := by
      rcases ended.recorded.captures with ⟨seen, known, whole⟩
      rw [known, ← whole]
      simp [capturesIn]
    exact ⟨_, by rw [compile, got]; rfl, by simpa using same, rfl, captured,
      ended.recorded.strings_eq⟩
  · -- the bound of the text is large enough for it
    rw [ran] at yields
    cases yields

/-- A sum with a captured operand in a field and its sign, and a comment behind it. -/
theorem compile_spelled_sum :
    ∃ query, compile (Language.arithmetic 0) "( sum left:(expression)@a\"\\+\");é\n" = .ok query ∧
      query.patterns.toList.map
          (fun pattern => (pattern.sequence, pattern.tests, pattern.predicates)) =
        [([.node (.symbol Arithmetic.sum)
            [.node (.symbol Arithmetic.expressionSymbol) [] [] Arithmetic.leftField [0],
              .node (.symbol Arithmetic.plus) [] [] 0 []] [] 0 []], [], [])] ∧
      query.language = Language.arithmetic 0 ∧ query.captureNames = ["a"] ∧ query.strings = [] := by
  have isName : ∀ name ∈ ["sum", "left", "expression", "a"], IsName name := by
    intro name member
    simp only [List.mem_cons, List.not_mem_nil, or_false] at member
    rcases member with rfl | rfl | rfl | rfl <;>
      exact ⟨by decide, List.all_eq_true.mp (by decide)⟩
  have operand : Spells Arithmetic.vocabulary ["a"] ⟨some Arithmetic.sum, Arithmetic.leftField⟩
      (.node (.symbol Arithmetic.expressionSymbol) [] [] 0 [0])
      [.sign '(', .word "expression", .sign ')', .capture "a"] :=
    Spells.node (.named ⟨isName _ (by simp), by decide, by decide, by decide, by decide⟩)
      (by decide) .nil
  have plus : Spells Arithmetic.vocabulary ["a"] ⟨some Arithmetic.sum, 0⟩
      (.node (.symbol Arithmetic.plus) [] [] 0 []) [.string "+"] :=
    Spells.token ⟨by decide, by decide⟩ (by decide)
  have field : NamesField Arithmetic.vocabulary "left" Arithmetic.leftField :=
    ⟨isName "left" (by simp), by decide, by decide, by decide⟩
  have left := @Spells.inField _ _ ⟨some Arithmetic.sum, 0⟩ _ _ _ _ field (by decide) operand
  have head : Heads Arithmetic.vocabulary (some Arithmetic.sum) (.word "sum") :=
    .named ⟨isName "sum" (by simp), by decide, by decide, by decide, by decide⟩
  have sum : Spells Arithmetic.vocabulary ["a"] ⟨none, 0⟩
      (.node (nodeMatcher (some Arithmetic.sum)) _ [] 0 []) _ :=
    .node head (by decide) (.pattern left (.pattern plus .nil))
  have blank : Trivia [' '] := .blank (by decide) .nil
  have remark : Trivia (';' :: (['é'] ++ '\n' :: [])) := .comment (by decide) .nil
  have string : Token.Spelled (.string "+") ('"' :: (['\\', '+'] ++ ['"'])) :=
    .string (.escaped '+' .nil)
  have laid : Laid false _ ("( sum left:(expression)@a\"\\+\");é\n".toList) :=
    .cons .nil (by decide) (.sign (by decide)) <|
    .cons blank (by decide) (.word (isName "sum" (by simp))) <|
    .cons blank (by decide) (.word (isName "left" (by simp))) <|
    .cons .nil (by decide) (.sign (by decide)) <|
    .cons .nil (by decide) (.sign (by decide)) <|
    .cons .nil (by decide) (.word (isName "expression" (by simp))) <|
    .cons .nil (by decide) (.sign (by decide)) <|
    .cons .nil (by decide) (.capture (isName "a" (by simp))) <|
    .cons .nil (by decide) string <|
    .cons .nil (by decide) (.sign (by decide)) (.nil remark)
  exact compile_spelled (Language.arithmetic 0) ["a"] [_] _ _ (.pattern sum .nil) (by decide) laid

end Query

end Reparse
