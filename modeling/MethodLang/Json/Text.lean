/-!
# Strings in JSON

How a text is written between quotes, and which text the elements of a written string stand for.
-/

namespace MethodLang.Json

/-- An element of a written string: a character, or the number of a 16-bit code unit. -/
inductive StringUnit
  | char (c : Char)
  | code (n : Nat)
  deriving DecidableEq

/-- Code units that begin a surrogate pair. -/
def isHighSurrogate (n : Nat) : Bool := 0xD800 ≤ n && n < 0xDC00

/-- Code units that end a surrogate pair. -/
def isLowSurrogate (n : Nat) : Bool := 0xDC00 ≤ n && n < 0xE000

/-- The character that a surrogate pair stands for. -/
def joinSurrogates (high low : Nat) : Char :=
  Char.ofNat (0x10000 + (high - 0xD800) * 0x400 + (low - 0xDC00))

/-- The text of a string under construction: its characters so far, newest first, and the first
half of a surrogate pair if the other half must follow. -/
structure TextSoFar where
  chars : List Char
  high : Option Nat

/-- Extend a text by one element, unless a surrogate stays without its partner. -/
def TextSoFar.extend? (t : TextSoFar) : StringUnit → Option TextSoFar
  | .char c =>
    match t.high with
    | none => some ⟨c :: t.chars, none⟩
    | some _ => none
  | .code n =>
    match t.high with
    | some high =>
      if isLowSurrogate n then some ⟨joinSurrogates high n :: t.chars, none⟩ else none
    | none =>
      if isHighSurrogate n then some ⟨t.chars, some n⟩
      else if isLowSurrogate n then none
      else some ⟨Char.ofNat n :: t.chars, none⟩

/-- The text that the elements of a string stand for. -/
def textOf? (units : List StringUnit) : Option String :=
  match units.foldlM TextSoFar.extend? ⟨[], none⟩ with
  | some ⟨chars, none⟩ => some (String.ofList chars.reverse)
  | _ => none

/-- The value of a hexadecimal digit, in either case. -/
def hexDigit? (c : Char) : Option Nat :=
  if '0' ≤ c ∧ c ≤ '9' then some (c.toNat - '0'.toNat)
  else if 'a' ≤ c ∧ c ≤ 'f' then some (c.toNat - 'a'.toNat + 10)
  else if 'A' ≤ c ∧ c ≤ 'F' then some (c.toNat - 'A'.toNat + 10)
  else none

/-- The element that a backslash and one more character write. -/
def shortEscape? : Char → Option Char
  | '"' => some '"'
  | '\\' => some '\\'
  | '/' => some '/'
  | 'b' => some '\x08'
  | 'f' => some '\x0c'
  | 'n' => some '\n'
  | 'r' => some '\r'
  | 't' => some '\t'
  | _ => none

/-- How a character is written in a string: the short escapes where there are any, but none for
the slash; a number for other control characters; and all else as it is. -/
def escapeChar (c : Char) : List Char :=
  if c = '"' then ['\\', '"']
  else if c = '\\' then ['\\', '\\']
  else if c = '\x08' then ['\\', 'b']
  else if c = '\x0c' then ['\\', 'f']
  else if c = '\n' then ['\\', 'n']
  else if c = '\r' then ['\\', 'r']
  else if c = '\t' then ['\\', 't']
  else if c < ' ' then
    ['\\', 'u', '0', '0', Nat.digitChar (c.toNat / 16), Nat.digitChar (c.toNat % 16)]
  else [c]

/-- A text between quotes. Where there is no text, half a surrogate pair stands for it. -/
def quoted : Option String → List Char
  | some text => '"' :: (text.toList.flatMap escapeChar ++ ['"'])
  | none => "\"\\ud800\"".toList

end MethodLang.Json
