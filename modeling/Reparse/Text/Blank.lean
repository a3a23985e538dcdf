/-!
# Blank characters

The characters with the Unicode property White_Space: the ASCII blanks, the next-line control, the
spaces of fixed width, and the line and paragraph separators.
-/

namespace Reparse

/-- The ranges of White_Space, in order. -/
def blankRanges : List (Nat × Nat) :=
  [(0x9, 0xD), (0x20, 0x20), (0x85, 0x85), (0xA0, 0xA0), (0x1680, 0x1680), (0x2000, 0x200A),
    (0x2028, 0x2029), (0x202F, 0x202F), (0x205F, 0x205F), (0x3000, 0x3000)]

/-- Whether a character is white space. -/
def isBlank (char : Char) : Bool :=
  blankRanges.any fun (low, high) => low ≤ char.toNat && char.toNat ≤ high

/-- Everything that ASCII counts as white space is blank. -/
theorem isBlank_of_isWhitespace {char : Char} (white : char.isWhitespace = true) :
    isBlank char = true := by
  simp only [Char.isWhitespace, Bool.or_eq_true, decide_eq_true_eq] at white
  rcases white with ((rfl | rfl) | rfl) | rfl <;> decide

end Reparse
