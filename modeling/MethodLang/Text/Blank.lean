/-!
# Blanks and words

Which characters separate words, and the words of a text.
-/

namespace MethodLang.Text

/-- Characters with the property White_Space. -/
def isBlank (c : Char) : Bool :=
  ('\t' ≤ c && c ≤ '\r') || c == ' ' || c == '\x85' || c == '\xa0' || c == '\u1680' ||
  ('\u2000' ≤ c && c ≤ '\u200a') || c == '\u2028' || c == '\u2029' || c == '\u202f' ||
  c == '\u205f' || c == '\u3000'

/-- Close the word under construction, if it has begun. -/
def closeWord : List Char × List (List Char) → List (List Char)
  | ([], done) => done
  | (word, done) => word :: done

/-- Split off what one more character in front does: a blank closes the word after it, any
other character extends it. -/
def wordStep (c : Char) (acc : List Char × List (List Char)) : List Char × List (List Char) :=
  if isBlank c then ([], closeWord acc) else (c :: acc.1, acc.2)

/-- The maximal runs of characters that are not blank, in order. -/
def words (cs : List Char) : List (List Char) := closeWord (cs.foldr wordStep ([], []))

end MethodLang.Text
