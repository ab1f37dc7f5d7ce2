import MethodLang.Text.Unprintable

/-!
# Quoted texts

How a text is shown between quotes: short escapes for the quote, the backslash and four
controls, the number of any other character that cannot be seen, and all else as it is.
-/

namespace MethodLang.Text

/-- A number in hexadecimal, in small letters and without leading zeros. -/
def hex (n : Nat) : List Char := Nat.toDigits 16 n

/-- How one character is shown. -/
def showChar (c : Char) : List Char :=
  if c = '\x00' then ['\\', '0']
  else if c = '\t' then ['\\', 't']
  else if c = '\r' then ['\\', 'r']
  else if c = '\n' then ['\\', 'n']
  else if c = '"' then ['\\', '"']
  else if c = '\\' then ['\\', '\\']
  else if isUnprintable c then ['\\', 'u', '\x7b'] ++ hex c.toNat ++ ['\x7d']
  else [c]

/-- A text between quotes. -/
def quote (text : String) : List Char := '"' :: (text.toList.flatMap showChar ++ ['"'])

end MethodLang.Text
