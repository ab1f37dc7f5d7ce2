/-!
# JSON values

JSON as data. Objects keep their members in order, repeated keys included. Numbers are integers
or something else, and only integers are given a value. The escapes of a string may name halves
of surrogate pairs that do not pair; such a string is well formed but has no text.
-/

namespace MethodLang

inductive Json
  | null
  | bool (b : Bool)
  /-- A number without fraction and exponent. -/
  | int (n : Int)
  /-- Any other number, by its spelling: with a fraction or an exponent, or a negative zero. -/
  | decimal (spelling : String)
  /-- A string, by its text if it has one. -/
  | str (text : Option String)
  | arr (items : List Json)
  | obj (members : List (Option String × Json))

namespace Json

/-- The string of a text. -/
def text (s : String) : Json := .str (some s)

/-- The object with one member. -/
def single (key : String) (value : Json) : Json := .obj [(some key, value)]

/-- The object with these members. -/
def record (members : List (String × Json)) : Json :=
  .obj (members.map fun (key, value) => (some key, value))

/-- Characters that may stand between the tokens of a JSON text. -/
def isSpace (c : Char) : Bool := c == ' ' || c == '\n' || c == '\r' || c == '\t'

end Json

end MethodLang
