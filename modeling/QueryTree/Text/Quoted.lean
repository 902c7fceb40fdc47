import QueryTree.Text.CharClass

/-!
# Quoted text

Text between double quotes, as it stands inside the structural form of a value. Quotes, backslashes
and the common controls have short escapes; a character that would not be seen on its own, or that
would attach itself to the quote before it, is written by its code point in braces.
-/

namespace QueryTree.Quoted

/-- A character by its code point, in hexadecimal digits. -/
def codePoint (c : Char) : List Char :=
  ['\\', 'u', '\x7b'] ++ Nat.toDigits 16 c.toNat ++ ['\x7d']

/-- One character between quotes. -/
def escape (c : Char) : List Char :=
  if c = '"' then ['\\', '"']
  else if c = '\\' then ['\\', '\\']
  else if c = '\n' then ['\\', 'n']
  else if c = '\r' then ['\\', 'r']
  else if c = '\t' then ['\\', 't']
  else if c.toNat = 0 then ['\\', '0']
  else if CharClass.isExtending c then codePoint c
  else if CharClass.isVisible c then [c]
  else codePoint c

/-- Text between double quotes. -/
def text (s : String) : String := String.ofList ('"' :: s.toList.flatMap escape ++ ['"'])

end QueryTree.Quoted
