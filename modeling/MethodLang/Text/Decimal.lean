/-!
# Decimal integers

Reading a signed decimal as an integer of 64 bits: one optional sign, at least one digit of the
ten ASCII digits, any number of leading zeros, and a value that 64 bits hold.
-/

namespace MethodLang.Text

/-- The number that decimal digits write; anything else has none, nor has the empty text. -/
def natOfDigits? : List Char → Option Nat
  | [] => none
  | cs => if cs.all Char.isDigit then some (cs.foldl digit 0) else none
where
  digit (n : Nat) (c : Char) : Nat := 10 * n + (c.toNat - '0'.toNat)

/-- The number that an optional sign and digits write. -/
def intOfDecimal? : List Char → Option Int
  | '-' :: cs => (natOfDigits? cs).map fun n => -(n : Int)
  | '+' :: cs => (natOfDigits? cs).map Int.ofNat
  | cs => (natOfDigits? cs).map Int.ofNat

/-- An integer as 64 bits, if it fits. -/
def int64? (n : Int) : Option Int64 :=
  let word := Int64.ofInt n
  if word.toInt = n then some word else none

/-- The integer of 64 bits that a signed decimal writes. -/
def int64OfDecimal? (cs : List Char) : Option Int64 := (intOfDecimal? cs).bind int64?

end MethodLang.Text
