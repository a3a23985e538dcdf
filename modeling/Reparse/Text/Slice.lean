/-!
# Slices by byte offsets

A text of characters is cut by offsets into its UTF-8 bytes. An offset inside a character or past
the end cuts off no text: a slice there is nothing.
-/

namespace Reparse

namespace Utf8

/-- The bytes of characters. -/
def encode (chars : List Char) : List UInt8 := chars.flatMap String.utf8EncodeChar

/-- The number of bytes of characters. -/
def width : List Char → Nat
  | [] => 0
  | char :: rest => char.utf8Size + width rest

/-- The characters before an offset and those from it on. -/
def split? (offset : Nat) : List Char → Option (List Char × List Char)
  | [] => if offset = 0 then some ([], []) else none
  | char :: rest =>
    if offset = 0 then some ([], char :: rest)
    else if offset < char.utf8Size then none
    else (split? (offset - char.utf8Size) rest).map fun (before, after) => (char :: before, after)

/-- The characters from the offset `start` on. -/
def from? (start : Nat) (chars : List Char) : Option (List Char) := (split? start chars).map (·.2)

/-- The characters between two offsets. -/
def slice? (start stop : Nat) (chars : List Char) : Option (List Char) :=
  if stop < start then none
  else (from? start chars).bind fun after => (split? (stop - start) after).map (·.1)

end Utf8

end Reparse
