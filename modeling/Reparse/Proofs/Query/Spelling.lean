import Reparse.Proofs.Query.Stance

/-!
# How patterns are written

A pattern is written as a list of tokens (`Spells`), and tokens as characters, with blanks and
comments between them (`Laid`). Two names never touch; other tokens need nothing between them. The
relation leaves open what a writer may choose: which characters of a string are escaped, where the
fields that must be absent stand among the children, and which gaps there are.
-/

namespace Reparse

namespace QueryText

/-- The tokens of patterns. The sign before the name of a capture or of an absent field is part of
the token. -/
inductive Token where
  | sign (char : Char)
  | word (name : String)
  | string (value : String)
  | capture (name : String)
  | absent (name : String)

/-- A name that can be written: one character at least, and only those of names. -/
structure IsName (name : String) : Prop where
  ne_empty : name ≠ ""
  isNamePart : ∀ char ∈ name.toList, isNamePart char = true

/-! ## Tokens as characters -/

/-- Blanks and comments between tokens. -/
inductive Trivia : List Char → Prop
  | nil : Trivia []
  | blank {char : Char} {gap : List Char} : isBlankAscii char = true → Trivia gap →
    Trivia (char :: gap)
  | comment {words gap : List Char} : '\n' ∉ words → Trivia gap →
    Trivia (';' :: (words ++ '\n' :: gap))

/-- The characters of a string and how they stand between its quotes. -/
inductive Quoted : List Char → List Char → Prop
  | nil : Quoted [] []
  | plain {char : Char} {value text : List Char} : char ≠ '"' → char ≠ '\\' → Quoted value text →
    Quoted (char :: value) (char :: text)
  | escaped {value text : List Char} (char : Char) : Quoted value text →
    Quoted (unescaped char :: value) ('\\' :: char :: text)

namespace Token

/-- The characters of a token. -/
inductive Spelled : Token → List Char → Prop
  | sign {char : Char} : char ∈ ['(', ')', '[', ']', '*', ':'] → Spelled (.sign char) [char]
  | word {name : String} : IsName name → Spelled (.word name) name.toList
  | string {value : String} {text : List Char} : Quoted value.toList text →
    Spelled (.string value) ('"' :: (text ++ ['"']))
  | capture {name : String} : IsName name → Spelled (.capture name) ('@' :: name.toList)
  | absent {name : String} : IsName name → Spelled (.absent name) ('!' :: name.toList)

/-- Whether a token begins with a name. -/
def startsInName : Token → Bool
  | word _ => true
  | _ => false

/-- Whether a token ends with a name. -/
def endsInName : Token → Bool
  | word _ | capture _ | absent _ => true
  | sign _ | string _ => false

/-- The name of a capture. -/
def captureName? : Token → Option String
  | capture name => some name
  | _ => none

end Token

/-- Tokens laid out as a text, `behindName` telling whether a name stands right before it. -/
inductive Laid : Bool → List Token → List Char → Prop
  | nil {behindName : Bool} {gap : List Char} : Trivia gap → Laid behindName [] gap
  | cons {behindName : Bool} {token : Token} {tokens : List Token} {gap spelling text : List Char} :
    Trivia gap → (behindName = true → token.startsInName = true → gap ≠ []) →
      token.Spelled spelling → Laid token.endsInName tokens text →
        Laid behindName (token :: tokens) (gap ++ (spelling ++ text))

/-- The text begins with the first of the tokens, or it is empty. -/
inductive Ahead : List Token → List Char → Prop
  | nil : Ahead [] []
  | cons {token : Token} {tokens : List Token} {spelling text : List Char} :
    token.Spelled spelling → Laid token.endsInName tokens text →
      Ahead (token :: tokens) (spelling ++ text)

/-! ## Gaps -/

/-- Blanks and comments begin with a blank or a semicolon. -/
theorem Trivia.first {gap : List Char} (trivia : Trivia gap) {char : Char}
    (first : gap.head? = some char) : isBlankAscii char = true ∨ char = ';' := by
  cases trivia with
  | nil => cases first
  | blank blank _ => exact Or.inl (Option.some.inj first ▸ blank)
  | comment _ _ => exact Or.inr (Option.some.inj first).symm

/-- A comment is passed up to the end of its line. -/
theorem triviaLength_words (words after : List Char) (oneLine : '\n' ∉ words) :
    triviaLength true (Utf8.encode (words ++ '\n' :: after)) =
      triviaLength false (Utf8.encode after) + 1 + Utf8.width words := by
  induction words with
  | nil =>
    rw [List.nil_append, triviaLength_cons]
    rfl
  | cons char words ih =>
    have other : char ≠ '\n' := fun same => oneLine (same ▸ List.mem_cons_self)
    rw [List.cons_append, triviaLength_cons, if_pos (by simpa using other),
      ih fun member => oneLine (List.mem_cons_of_mem _ member), Utf8.width_cons]
    omega

/-- Blanks and comments are passed up to a character that does not go on with them. -/
theorem triviaLength_gap {gap after : List Char} (trivia : Trivia gap)
    (stops : ∀ char, after.head? = some char → isBlankAscii char = false ∧ char ≠ ';') :
    triviaLength false (Utf8.encode (gap ++ after)) = Utf8.width gap := by
  induction trivia with
  | nil =>
    rw [List.nil_append]
    cases after with
    | nil => rfl
    | cons char after =>
      rcases stops char rfl with ⟨notBlank, notSemicolon⟩
      rw [triviaLength_cons]
      simp [notBlank, notSemicolon]
  | @blank char gap blank _ ih =>
    rw [List.cons_append, triviaLength_cons, ih]
    simp [blank, Nat.add_comm]
  | @comment words gap oneLine _ ih =>
    have semicolon : Char.utf8Size ';' = 1 := by decide
    have lineBreak : Char.utf8Size '\n' = 1 := by decide
    rw [List.cons_append, List.append_assoc, List.cons_append, triviaLength_cons,
      triviaLength_words _ _ oneLine, ih, Utf8.width_cons, Utf8.width_append, Utf8.width_cons,
      semicolon, lineBreak]
    simp [isBlankAscii]
    omega

namespace Token

/-- What the first character of a token can be. -/
def Faces (char : Char) : Token → Prop
  | sign listed => char = listed ∧ char ∈ ['(', ')', '[', ']', '*', ':']
  | word _ => isNamePart char = true
  | string _ => char = '"'
  | capture _ => char = '@'
  | absent _ => char = '!'

theorem Spelled.first {token : Token} {spelling : List Char} (spelled : token.Spelled spelling) :
    ∃ char rest, spelling = char :: rest ∧ token.Faces char := by
  cases spelled with
  | sign listed => exact ⟨_, [], rfl, rfl, listed⟩
  | @word name isName =>
    rcases letters : name.toList with _ | ⟨char, rest⟩
    · exact absurd (String.toList_eq_nil_iff.mp letters) isName.ne_empty
    · exact ⟨char, rest, rfl, isName.isNamePart char (by simp [letters])⟩
  | string _ => exact ⟨'"', _, rfl, rfl⟩
  | capture _ => exact ⟨'@', _, rfl, rfl⟩
  | absent _ => exact ⟨'!', _, rfl, rfl⟩

variable {token : Token} {char : Char}

theorem isBlankAscii_of_isNamePart (named : isNamePart char = true) :
    isBlankAscii char = false := by
  rw [← Bool.not_eq_true]
  intro blank
  simp only [isBlankAscii, Bool.or_eq_true, beq_iff_eq] at blank
  rcases blank with (((rfl | rfl) | rfl) | rfl) | rfl <;> exact absurd named (by decide)

/-- A token does not go on with a gap. -/
theorem Faces.stops (faces : token.Faces char) :
    isBlankAscii char = false ∧ char ≠ ';' ∧ Utf8.IsAscii char := by
  cases token with
  | sign _ =>
    have listed := faces.2
    simp only [List.mem_cons, List.not_mem_nil, or_false] at listed
    rcases listed with rfl | rfl | rfl | rfl | rfl | rfl <;> decide
  | word _ =>
    refine ⟨isBlankAscii_of_isNamePart faces, ?_, isAscii_of_isNamePart faces⟩
    rintro rfl
    have named : QueryText.isNamePart ';' = true := faces
    exact absurd named (by decide)
  | string _ | capture _ | absent _ =>
    obtain rfl := faces
    decide

/-- Only a name goes on with a name. -/
theorem Faces.isNamePart (faces : token.Faces char) (other : token.startsInName = false) :
    QueryText.isNamePart char = false := by
  cases token with
  | sign _ =>
    have listed := faces.2
    simp only [List.mem_cons, List.not_mem_nil, or_false] at listed
    rcases listed with rfl | rfl | rfl | rfl | rfl | rfl <;> decide
  | word _ => cases other
  | string _ | capture _ | absent _ =>
    obtain rfl := faces
    decide

end Token

/-- Behind the gap before tokens stands the first of them. -/
theorem Laid.exists_ahead {behindName : Bool} {tokens : List Token} {text : List Char}
    (laid : Laid behindName tokens text) :
    ∃ gap after, text = gap ++ after ∧ Ahead tokens after ∧
      triviaLength false (Utf8.encode text) = Utf8.width gap := by
  cases laid with
  | nil trivia =>
    have whole : triviaLength false (Utf8.encode (text ++ [])) = Utf8.width text :=
      triviaLength_gap trivia (by simp)
    rw [List.append_nil] at whole
    exact ⟨text, [], (List.append_nil _).symm, .nil, whole⟩
  | cons trivia _ spelled laid =>
    refine ⟨_, _, rfl, .cons spelled laid, triviaLength_gap trivia ?_⟩
    rcases spelled.first with ⟨char, rest, rfl, faces⟩
    intro first same
    obtain rfl : char = first := Option.some.inj same
    exact ⟨faces.stops.1, faces.stops.2.1⟩

theorem Ahead.laid {tokens : List Token} {text : List Char} (ahead : Ahead tokens text) :
    Laid false tokens text := by
  cases ahead with
  | nil => exact .nil .nil
  | cons spelled laid => exact .cons .nil (by simp) spelled laid

/-- Right behind a name no other name goes on. -/
theorem Laid.first {tokens : List Token} {text : List Char} (laid : Laid true tokens text)
    {char : Char} (first : text.head? = some char) : isNamePart char = false := by
  have gapped : ∀ {gap : List Char}, Trivia gap → gap.head? = some char →
      isNamePart char = false := by
    intro gap trivia first
    rw [← Bool.not_eq_true]
    intro named
    rcases trivia.first first with blank | rfl
    · rw [Token.isBlankAscii_of_isNamePart named] at blank
      cases blank
    · exact absurd named (by decide)
  cases laid with
  | nil trivia => exact gapped trivia first
  | @cons _ token _ gap spelling _ trivia apart spelled laid =>
    rcases gap with _ | ⟨blank, gap⟩
    · rcases spelled.first with ⟨face, rest, rfl, faces⟩
      obtain rfl : face = char := Option.some.inj first
      cases starts : token.startsInName with
      | true => exact absurd rfl (apart rfl starts)
      | false => exact faces.isNamePart starts
    · exact gapped trivia first

/-! ## Patterns as tokens -/

section Patterns

variable (vocabulary : Vocabulary)

/-- A named node, by a name that is neither a wildcard nor a keyword. -/
structure NamesNode (name : String) (symbol : Nat) : Prop where
  isName : IsName name
  ne_wildcard : name ≠ "_"
  ne_missing : name ≠ "MISSING"
  found : vocabulary.symbolNamed name true = symbol
  ne_zero : symbol ≠ 0

/-- A field, by a name that is no wildcard. -/
structure NamesField (name : String) (field : Nat) : Prop where
  isName : IsName name
  ne_wildcard : name ≠ "_"
  found : vocabulary.fieldNamed name = field
  ne_zero : field ≠ 0

/-- An anonymous token, by its text. -/
structure NamesToken (value : String) (symbol : Nat) : Prop where
  found : vocabulary.symbolNamed value false = symbol
  ne_zero : symbol ≠ 0

/-- What stands between a parenthesis and the children of a node pattern. -/
inductive Heads : Option Nat → Token → Prop
  | wildcard : Heads none (.word "_")
  | named {name : String} {symbol : Nat} : NamesNode vocabulary name symbol →
    Heads (some symbol) (.word name)

/-- How a missing token is named, if it is. -/
inductive Misses : Option Nat → List Token → Prop
  | any : Misses none []
  | named {name : String} {symbol : Nat} : NamesNode vocabulary name symbol →
    Misses (some symbol) [.word name]
  | token {value : String} {symbol : Nat} : NamesToken vocabulary value symbol →
    Misses (some symbol) [.string value]

variable (names : List String)

/-- The captures behind a pattern. -/
def captureTokens (captures : List Nat) : List Token :=
  captures.map fun number => .capture (names.getD number "")

mutual

/-- A pattern that may stand in the scope, and its tokens. -/
inductive Spells : Scope → Pattern → List Token → Prop
  | any {scope : Scope} {captures : List Nat} {sign : Token} :
    sign = .sign '*' ∨ sign = .word "_" → admitsChild vocabulary scope none = true →
      Spells scope (.node .any [] [] 0 captures) (sign :: captureTokens names captures)
  | token {scope : Scope} {captures : List Nat} {value : String} {symbol : Nat} :
    NamesToken vocabulary value symbol → admitsChild vocabulary scope (some symbol) = true →
      Spells scope (.node (.symbol symbol) [] [] 0 captures)
        (.string value :: captureTokens names captures)
  | missing {scope : Scope} {captures : List Nat} {symbol : Option Nat} {named : List Token} :
    Misses vocabulary symbol named → admitsChild vocabulary scope symbol = true →
      Spells scope (.node (.missing symbol) [] [] 0 captures)
        (.sign '(' :: .word "MISSING" :: (named ++ .sign ')' :: captureTokens names captures))
  | node {scope : Scope} {children : List Pattern} {absent captures : List Nat}
      {symbol : Option Nat} {head : Token} {body : List Token} :
    Heads vocabulary symbol head → admitsChild vocabulary scope symbol = true →
      SpellsItems (.within symbol) children absent body →
        Spells scope (.node (nodeMatcher symbol) children absent 0 captures)
          (.sign '(' :: head :: (body ++ .sign ')' :: captureTokens names captures))
  | oneOf {scope : Scope} {alternatives : List Pattern} {captures : List Nat}
      {body : List Token} :
    alternatives ≠ [] → SpellsItems scope alternatives [] body →
      Spells scope (.oneOf alternatives 0 captures)
        (.sign '[' :: (body ++ .sign ']' :: captureTokens names captures))
  | inField {scope : Scope} {pattern : Pattern} {name : String} {field : Nat}
      {tokens : List Token} :
    NamesField vocabulary name field → admitsField vocabulary scope.parent field = true →
      Spells { scope with field } pattern tokens →
        Spells scope (pattern.inField field) (.word name :: .sign ':' :: tokens)

/-- Patterns one behind the other, and fields that must be absent anywhere among them. -/
inductive SpellsItems : Scope → List Pattern → List Nat → List Token → Prop
  | nil {scope : Scope} : SpellsItems scope [] [] []
  | pattern {scope : Scope} {pattern : Pattern} {children : List Pattern} {absent : List Nat}
      {tokens more : List Token} :
    Spells scope pattern tokens → SpellsItems scope children absent more →
      SpellsItems scope (pattern :: children) absent (tokens ++ more)
  | absent {scope : Scope} {children : List Pattern} {absent : List Nat} {name : String}
      {field : Nat} {more : List Token} :
    NamesField vocabulary name field → admitsField vocabulary scope.parent field = true →
      SpellsItems scope children absent more →
        SpellsItems scope children (field :: absent) (.absent name :: more)

end

end Patterns

end QueryText

end Reparse
