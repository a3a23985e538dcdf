import Reparse.Text.Extent

/-!
# UTF-8

Texts are bytes that should be UTF-8 but need not be. `Utf8.piece?` reads what starts at an offset:
a character, or the longest stretch of bytes that could have begun one but did not. The allowed
lead bytes and the range of the byte after each exclude overlong forms, surrogates and values past
U+10FFFF, so a character is read exactly where a well-formed encoding starts.

A scanner reads a malformed byte as one replacement character (`Utf8.next?`). The texts of nodes
are decoded stretch by stretch (`Utf8.lossy`), or refused with the place of the first malformed
stretch (`Utf8.check`).
-/

namespace Reparse

namespace Utf8

/-- The character that stands for malformed input. -/
def replacement : Char := '\uFFFD'

/-- Whether a byte continues a character. -/
def isTail (byte : UInt8) : Bool := byte &&& 0xC0 == 0x80

/-- What a lead byte of more than one byte asks for: the number of bytes that follow, the range of
the first of them, and the bits it gives to the code point. -/
structure Lead where
  tails : Nat
  low : UInt8
  high : UInt8
  bits : Nat

/-- The lead bytes of well-formed UTF-8 above ASCII. -/
def lead? (byte : UInt8) : Option Lead :=
  if byte < 0xC2 then none
  else if byte < 0xE0 then some ⟨1, 0x80, 0xBF, byte.toNat - 0xC0⟩
  else if byte == 0xE0 then some ⟨2, 0xA0, 0xBF, 0⟩
  else if byte == 0xED then some ⟨2, 0x80, 0x9F, 0xD⟩
  else if byte < 0xF0 then some ⟨2, 0x80, 0xBF, byte.toNat - 0xE0⟩
  else if byte == 0xF0 then some ⟨3, 0x90, 0xBF, 0⟩
  else if byte < 0xF4 then some ⟨3, 0x80, 0xBF, byte.toNat - 0xF0⟩
  else if byte == 0xF4 then some ⟨3, 0x80, 0x8F, 4⟩
  else none

/-- What starts at an offset: a character, or bytes that belong to none. `cut` tells that the
malformed bytes are the beginning of a character that the end of the text cuts off. -/
inductive Piece where
  | character (char : Char) (size : Nat)
  | malformed (size : Nat) (cut : Bool)
  deriving DecidableEq, Repr

/-- Reads the bytes after a lead byte: `count` of them, the first between `low` and `high`. -/
def tails (text : Text) (count : Nat) (low high : UInt8) (code size offset : Nat) : Piece :=
  match count with
  | 0 => .character (Char.ofNat code) size
  | count + 1 =>
    match text[offset]? with
    | none => .malformed size true
    | some byte =>
      if low ≤ byte ∧ byte ≤ high then
        tails text count 0x80 0xBF (code * 64 + (byte.toNat - 0x80)) (size + 1) (offset + 1)
      else .malformed size false

/-- What starts at `offset`, nothing at the end of the text. -/
def piece? (text : Text) (offset : Nat) : Option Piece :=
  match text[offset]? with
  | none => none
  | some byte =>
    if byte < 0x80 then some (.character (Char.ofNat byte.toNat) 1)
    else
      match lead? byte with
      | none => some (.malformed 1 false)
      | some lead => some (tails text lead.tails lead.low lead.high lead.bits 1 (offset + 1))

/-- The number of bytes of a piece. -/
def Piece.size : Piece → Nat
  | .character _ size => size
  | .malformed size _ => size

/-- A character as a scanner sees it. A malformed byte is a replacement character of one byte. -/
structure Decoded where
  char : Char
  size : Nat
  malformed : Bool
  deriving DecidableEq, Repr

/-- The next character at `offset`, nothing at the end of the text. -/
def next? (text : Text) (offset : Nat) : Option Decoded :=
  match piece? text offset with
  | none => none
  | some (.character char size) => some ⟨char, size, false⟩
  | some (.malformed _ _) => some ⟨replacement, 1, true⟩

/-- The number of characters in a stretch of text, counted by the bytes that begin one. -/
def countCharacters (text : Text) (start stop : Nat) : Nat :=
  ((text.extract start stop).filter fun byte => !isTail byte).size

/-- Why a text is not UTF-8: how many bytes are, and how long the malformed stretch after them is
unless the end of the text cuts it off. -/
structure Malformed where
  validUpTo : Nat
  length : Option Nat
  deriving DecidableEq, Repr

/-- Reads up to `count` pieces from `offset`, each malformed one as a replacement character. -/
def lossyFrom (text : Text) (offset : Nat) (decoded : String) : Nat → String
  | 0 => decoded
  | count + 1 =>
    match piece? text offset with
    | none => decoded
    | some (.character char size) => lossyFrom text (offset + size) (decoded.push char) count
    | some (.malformed size _) => lossyFrom text (offset + size) (decoded.push replacement) count

/-- The characters of a text, one replacement character for each malformed stretch. -/
def lossy (text : Text) : String := lossyFrom text 0 "" text.size

/-- Reads up to `count` pieces from `offset` and stops at the first malformed one. -/
def checkFrom (text : Text) (offset : Nat) (decoded : String) : Nat → Except Malformed String
  | 0 => .ok decoded
  | count + 1 =>
    match piece? text offset with
    | none => .ok decoded
    | some (.character char size) => checkFrom text (offset + size) (decoded.push char) count
    | some (.malformed size cut) => .error ⟨offset, if cut then none else some size⟩

/-- The characters of a well-formed text. -/
def check (text : Text) : Except Malformed String := checkFrom text 0 "" text.size

end Utf8

end Reparse
