import Reparse.Text.Utf8
import Reparse.Unicode.CodeSet
import Reparse.Unicode.PropertyName

/-!
# Matching

A matcher is a regular expression whose flags are applied. It is run on all places of a text at
once: `Matcher.reach` takes the offsets where a match may begin, in increasing order, to those where
it may end. A repetition goes on only from offsets that it has not reached before, so it ends.

Texts need not be UTF-8. A character matches only where a well-formed one stands, and a byte matches
anywhere.
-/

namespace Reparse

namespace Regex

/-- What is asked of a place in a text. -/
inductive Look where
  | textStart
  | textEnd
  /-- The start of a line. `returns` tells that carriage returns end lines, too. -/
  | lineStart (returns : Bool)
  | lineEnd (returns : Bool)
  /-- A place by what stands at both sides of it. `unicode` tells that words are those of all
  scripts. -/
  | boundary (unicode : Bool)
  | noBoundary (unicode : Bool)
  | wordStart (unicode : Bool)
  | wordEnd (unicode : Bool)
  | wordStartHalf (unicode : Bool)
  | wordEndHalf (unicode : Bool)
  deriving DecidableEq, Repr

/-- What is matched. -/
inductive Matcher where
  | nothing
  | char (set : CodeSet)
  | byte (set : CodeSet)
  | look (look : Look)
  | sequence (first second : Matcher)
  | choice (first second : Matcher)
  | repetition (least : Nat) (most : Option Nat) (body : Matcher)
  deriving Repr

/-! ## Words -/

/-- What stands at one side of a place. -/
inductive Side where
  | edge
  | word
  | other
  | malformed
  deriving DecidableEq, Repr

namespace Side

/-- Whether a byte belongs to a word of ASCII characters. -/
def isWordByte (byte : UInt8) : Bool :=
  let char := Char.ofNat byte.toNat
  byte < 0x80 && (char.isAlphanum || char == '_')

/-- What a byte at a side is in ASCII. -/
def ofByte : Option UInt8 → Side
  | none => edge
  | some byte => if isWordByte byte then word else other

/-- What the piece of text at a side is. -/
def ofPiece : Option Utf8.Piece → Side
  | none => edge
  | some (.character char _) => if wordCharacters.contains char.toNat then word else other
  | some (.malformed _ _) => malformed

/-- The offset of the last byte among up to `count` before `offset` that does not continue a
character, or of the first of them. -/
def leadBefore (text : Text) (offset : Nat) : Nat → Nat
  | 0 => offset
  | count + 1 =>
    if offset = 0 then 0
    else if ((text[offset - 1]?).map Utf8.isTail).getD false ∧ count ≠ 0 then
      leadBefore text (offset - 1) count
    else offset - 1

/-- What stands before an offset. A character that begins at the last lead byte counts even if
malformed bytes follow it. -/
def before (unicode : Bool) (text : Text) (offset : Nat) : Side :=
  if offset = 0 then edge
  else if unicode then
    ofPiece (Utf8.piece? (text.extract 0 offset) (leadBefore text offset 4))
  else ofByte text[offset - 1]?

/-- What stands at an offset. -/
def after (unicode : Bool) (text : Text) (offset : Nat) : Side :=
  if unicode then ofPiece (Utf8.piece? text offset) else ofByte text[offset]?

end Side

/-- Whether a place is as asked for. Next to malformed text there is neither the lack of a boundary
nor one half of it. -/
def Look.holds (text : Text) (offset : Nat) : Look → Bool
  | textStart => offset == 0
  | textEnd => offset == text.size
  | lineStart returns =>
    offset == 0 || text[offset - 1]? == some 10 ||
      (returns && text[offset - 1]? == some 13 && text[offset]? != some 10)
  | lineEnd returns =>
    offset == text.size ||
      if returns then
        text[offset]? == some 13 ||
          (text[offset]? == some 10 && (offset == 0 || text[offset - 1]? != some 13))
      else text[offset]? == some 10
  | boundary unicode =>
    (Side.before unicode text offset == .word) != (Side.after unicode text offset == .word)
  | noBoundary unicode =>
    let before := Side.before unicode text offset
    let after := Side.after unicode text offset
    before != .malformed && after != .malformed && (before == .word) == (after == .word)
  | wordStart unicode =>
    Side.before unicode text offset != .word && Side.after unicode text offset == .word
  | wordEnd unicode =>
    Side.before unicode text offset == .word && Side.after unicode text offset != .word
  | wordStartHalf unicode =>
    let before := Side.before unicode text offset
    before != .malformed && before != .word
  | wordEndHalf unicode =>
    let after := Side.after unicode text offset
    after != .malformed && after != .word

/-! ## Places -/

/-- The offsets in either of two increasing lists, in order. -/
def mergePlaces (left right : List Nat) : List Nat :=
  match left, right with
  | [], right => right
  | left, [] => left
  | first :: left, second :: right =>
    if first < second then first :: mergePlaces left (second :: right)
    else if second < first then second :: mergePlaces (first :: left) right
    else first :: mergePlaces left right
termination_by left.length + right.length

/-- Takes offsets a number of times to those after a match. -/
def reachTimes (reach : List Nat → List Nat) (places : List Nat) : Nat → List Nat
  | 0 => places
  | count + 1 => if places.isEmpty then [] else reachTimes reach (reach places) count

/-- Takes offsets up to a number of times to those after a match. `reached` are those found so far,
and `places` those among them that were found last. -/
def reachUpTo (reach : List Nat → List Nat) (reached places : List Nat) : Nat → List Nat
  | 0 => reached
  | count + 1 =>
    let found := (reach places).filter fun place => !reached.contains place
    if found.isEmpty then reached else reachUpTo reach (mergePlaces reached found) found count

/-- The offset after a character of a set. -/
def afterChar? (text : Text) (set : CodeSet) (offset : Nat) : Option Nat :=
  match Utf8.piece? text offset with
  | some (.character char size) => if set.contains char.toNat then some (offset + size) else none
  | _ => none

/-- The offset after a byte of a set. -/
def afterByte? (text : Text) (set : CodeSet) (offset : Nat) : Option Nat :=
  match text[offset]? with
  | some byte => if set.contains byte.toNat then some (offset + 1) else none
  | none => none

namespace Matcher

/-- The offsets where matches that begin at some offsets may end. Of matches in a row that are more
than the text has bytes one is empty, and repeating that one more often changes nothing. -/
def reach (text : Text) : Matcher → List Nat → List Nat
  | nothing, places => places
  | char set, places => places.filterMap (afterChar? text set)
  | byte set, places => places.filterMap (afterByte? text set)
  | look asked, places => places.filter fun place => asked.holds text place
  | sequence first second, places => second.reach text (first.reach text places)
  | choice first second, places => mergePlaces (first.reach text places) (second.reach text places)
  | repetition least most body, places =>
    let started := reachTimes (body.reach text) places (min least (text.size + 1))
    let further := match most with
      | some most => min (most - least) (text.size + 1)
      | none => text.size + 1
    reachUpTo (body.reach text) started started further

/-- Whether the text has a match anywhere. -/
def matchesIn (matcher : Matcher) (text : Text) : Bool :=
  !(matcher.reach text (List.range (text.size + 1))).isEmpty

end Matcher

end Regex

end Reparse
