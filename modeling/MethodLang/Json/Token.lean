import MethodLang.Json.Basic
import MethodLang.Json.Text
import MethodLang.Text.Decimal

/-!
# Tokens of a JSON text

A text is cut into tokens by one pass over its characters. Words, that is numbers and the three
names, end where a character follows that no word contains.
-/

namespace MethodLang.Json

inductive Token
  | beginArray
  | endArray
  | beginObject
  | endObject
  | colon
  | comma
  /-- A value without parts. -/
  | scalar (value : Json)

/-! ### Words -/

/-- One digit or more. -/
def isDigits (cs : List Char) : Bool := !cs.isEmpty && cs.all Char.isDigit

/-- Digits without a needless zero in front. -/
def isWhole (cs : List Char) : Bool := isDigits cs && (cs.head? != some '0' || cs.length == 1)

/-- What may follow the mark of an exponent: digits, with or without a sign. -/
def isExponent : List Char → Bool
  | '+' :: cs | '-' :: cs => isDigits cs
  | cs => isDigits cs

/-- What may follow the digits before the point: a fraction, an exponent, or both. -/
def isTail : List Char → Bool
  | '.' :: cs =>
    match cs.span Char.isDigit with
    | (digits, []) => isDigits digits
    | (digits, mark :: cs) => isDigits digits && (mark == 'e' || mark == 'E') && isExponent cs
  | mark :: cs => (mark == 'e' || mark == 'E') && isExponent cs
  | [] => false

/-- The number that a word writes, a minus sign in front of it aside. -/
def unsigned? (negative : Bool) (cs : List Char) : Option Json :=
  match cs.span Char.isDigit with
  | (digits, []) =>
    if isWhole digits then
      match negative, Text.natOfDigits? digits with
      | false, some n => some (.int n)
      | true, some 0 => some (.decimal "-0")
      | true, some n => some (.int (-n))
      | _, none => none
    else none
  | (digits, tail) =>
    if isWhole digits && isTail tail then
      some (.decimal (String.ofList (if negative then '-' :: cs else cs)))
    else none

/-- The value of a word. -/
def wordValue? (cs : List Char) : Option Json :=
  if cs = "null".toList then some .null
  else if cs = "true".toList then some (.bool true)
  else if cs = "false".toList then some (.bool false)
  else match cs with
    | '-' :: cs => unsigned? true cs
    | cs => unsigned? false cs

/-- Characters of words. -/
def isWordChar (c : Char) : Bool := c.isAlphanum || c == '-' || c == '+' || c == '.'

/-! ### Cutting -/

/-- Where a scan stands inside a token. The characters of the token are kept newest first. -/
inductive Position
  | between
  | word (chars : List Char)
  | string (units : List StringUnit)
  /-- After a backslash. -/
  | escape (units : List StringUnit)
  /-- After a backslash, `u`, and so many hexadecimal digits of this value. -/
  | code (units : List StringUnit) (digits value : Nat)

/-- A scan: the tokens so far, newest first, and where it stands. -/
structure Scan where
  tokens : List Token
  position : Position

namespace Scan

def start : Scan := ⟨[], .between⟩

/-- A character outside strings and words. -/
def atStart? (tokens : List Token) (c : Char) : Option Scan :=
  if isSpace c then some ⟨tokens, .between⟩
  else match c with
    | '[' => some ⟨.beginArray :: tokens, .between⟩
    | ']' => some ⟨.endArray :: tokens, .between⟩
    | '\x7b' => some ⟨.beginObject :: tokens, .between⟩
    | '\x7d' => some ⟨.endObject :: tokens, .between⟩
    | ':' => some ⟨.colon :: tokens, .between⟩
    | ',' => some ⟨.comma :: tokens, .between⟩
    | '"' => some ⟨tokens, .string []⟩
    | c => if isWordChar c then some ⟨tokens, .word [c]⟩ else none

/-- One more character. Control characters may not stand in a string. -/
def step? (s : Scan) (c : Char) : Option Scan :=
  match s.position with
  | .between => atStart? s.tokens c
  | .word chars =>
    if isWordChar c then some ⟨s.tokens, .word (c :: chars)⟩
    else do atStart? (.scalar (← wordValue? chars.reverse) :: s.tokens) c
  | .string units =>
    if c = '"' then some ⟨.scalar (.str (textOf? units.reverse)) :: s.tokens, .between⟩
    else if c = '\\' then some ⟨s.tokens, .escape units⟩
    else if c < ' ' then none
    else some ⟨s.tokens, .string (.char c :: units)⟩
  | .escape units =>
    if c = 'u' then some ⟨s.tokens, .code units 0 0⟩
    else do some ⟨s.tokens, .string (.char (← shortEscape? c) :: units)⟩
  | .code units digits value => do
    let value := 16 * value + (← hexDigit? c)
    if digits = 3 then some ⟨s.tokens, .string (.code value :: units)⟩
    else some ⟨s.tokens, .code units (digits + 1) value⟩

/-- The end of the text: the tokens in order, if none is cut short. -/
def finish? (s : Scan) : Option (List Token) :=
  match s.position with
  | .between => some s.tokens.reverse
  | .word chars => do some (.scalar (← wordValue? chars.reverse) :: s.tokens).reverse
  | _ => none

end Scan

/-- The tokens of a text. -/
def tokens? (cs : List Char) : Option (List Token) := do
  (← cs.foldlM Scan.step? Scan.start).finish?

end MethodLang.Json
