import Reparse.Unicode.PropertyName

/-!
# Quoted text

Texts shown to a developer stand in double quotes, with escapes for the quote, the backslash and the
characters that would not be seen as such.
-/

namespace Reparse

/-- A number in lower-case hexadecimal digits. -/
def hexadecimal (number : Nat) : String := String.ofList (Nat.toDigits 16 number)

/-- The characters that are shown by their code: controls, blanks other than the space, code points
without a character to show, and the characters that merge with the one before them. -/
def hiddenCharacters : CodeSet :=
  let blank := categoryUnion ["cc", "cf", "co", "cn", "zl", "zp", "zs"]
  (blank.union (propertyCharacters "graphemeextend")).sdiff (CodeSet.single ' '.toNat)

/-- A character inside quotes. -/
def quotedCharacter (char : Char) : String :=
  if char = '\x00' then "\\0"
  else if char = '\t' then "\\t"
  else if char = '\r' then "\\r"
  else if char = '\n' then "\\n"
  else if char = '"' then "\\\""
  else if char = '\\' then "\\\\"
  else if hiddenCharacters.contains char.toNat then
    "\\u\x7b" ++ hexadecimal char.toNat ++ "\x7d"
  else char.toString

/-- A text in quotes. -/
def quoted (text : String) : String :=
  "\"" ++ text.foldl (fun written char => written ++ quotedCharacter char) "" ++ "\""

end Reparse
