import MethodLang.Json.Token

/-!
# Reading JSON

A value is built from tokens in one pass. What is still open is kept in a list, so values may
nest as deeply as the text does.
-/

namespace MethodLang.Json

/-- A container whose next value is being read. What it holds so far stands newest first. -/
inductive Holder
  | array (items : List Json)
  | object (members : List (Option String × Json)) (key : Option String)

/-- What must follow, with what is open around it, innermost first. -/
inductive Reading
  | value (around : List Holder)
  /-- The first item of an array, or its end. -/
  | firstItem (around : List Holder)
  /-- A comma and another item, or the end of the array. -/
  | afterItem (items : List Json) (around : List Holder)
  /-- The first key of an object, or its end. -/
  | firstKey (around : List Holder)
  | nextKey (members : List (Option String × Json)) (around : List Holder)
  | colon (members : List (Option String × Json)) (key : Option String) (around : List Holder)
  /-- A comma and another member, or the end of the object. -/
  | afterMember (members : List (Option String × Json)) (around : List Holder)
  /-- Nothing: the value is complete. -/
  | nothing (value : Json)

namespace Reading

/-- Hand a complete value to what it stands in. -/
def deliver (v : Json) : List Holder → Reading
  | [] => .nothing v
  | .array items :: around => .afterItem (v :: items) around
  | .object members key :: around => .afterMember ((key, v) :: members) around

/-- The first token of a value. -/
def begin? (around : List Holder) : Token → Option Reading
  | .scalar v => some (deliver v around)
  | .beginArray => some (.firstItem around)
  | .beginObject => some (.firstKey around)
  | _ => none

/-- One more token. -/
def step? : Reading → Token → Option Reading
  | .value around, t => begin? around t
  | .firstItem around, .endArray => some (deliver (.arr []) around)
  | .firstItem around, t => begin? (.array [] :: around) t
  | .afterItem items around, .comma => some (.value (.array items :: around))
  | .afterItem items around, .endArray => some (deliver (.arr items.reverse) around)
  | .firstKey around, .endObject => some (deliver (.obj []) around)
  | .firstKey around, .scalar (.str key) => some (.colon [] key around)
  | .nextKey members around, .scalar (.str key) => some (.colon members key around)
  | .colon members key around, .colon => some (.value (.object members key :: around))
  | .afterMember members around, .comma => some (.nextKey members around)
  | .afterMember members around, .endObject => some (deliver (.obj members.reverse) around)
  | _, _ => none

/-- The value read, if it is complete. -/
def result? : Reading → Option Json
  | .nothing v => some v
  | _ => none

end Reading

/-- The value that a sequence of tokens writes. -/
def ofTokens? (tokens : List Token) : Option Json := do
  (← tokens.foldlM Reading.step? (.value [])).result?

/-- The value that a text writes. -/
def ofText? (text : String) : Option Json := do
  ofTokens? (← tokens? text.toList)

end MethodLang.Json
