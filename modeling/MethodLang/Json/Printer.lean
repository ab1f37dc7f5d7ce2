import MethodLang.Json.Basic
import MethodLang.Json.Text

/-!
# Writing JSON

One printer for both forms in which trees are shown. A layout says what stands between tokens;
the tokens are the same in every layout.
-/

namespace MethodLang.Json

/-- What is written where white space is free. -/
structure Layout where
  /-- Before an item or member at some depth of nesting, and before the end of its container. -/
  newline : Nat → List Char
  /-- After the colon of a member. -/
  afterColon : List Char

/-- Nothing between tokens. -/
def Layout.compact : Layout := ⟨fun _ => [], []⟩

/-- A line for each item and member, indented by two blanks a level. -/
def Layout.pretty : Layout := ⟨fun depth => '\n' :: List.replicate (2 * depth) ' ', [' ']⟩

variable (layout : Layout)

mutual

/-- The text of a value that stands at some depth. An empty container is written without a
line break. -/
def render (depth : Nat) : Json → List Char
  | .null => "null".toList
  | .bool true => "true".toList
  | .bool false => "false".toList
  | .int n => (toString n).toList
  | .decimal spelling => spelling.toList
  | .str text => quoted text
  | .arr [] => ['[', ']']
  | .arr (v :: vs) =>
    '[' :: (layout.newline (depth + 1) ++ render (depth + 1) v ++ renderItems (depth + 1) vs ++
      layout.newline depth ++ [']'])
  | .obj [] => ['\x7b', '\x7d']
  | .obj ((key, v) :: ms) =>
    '\x7b' :: (layout.newline (depth + 1) ++ quoted key ++ ':' :: layout.afterColon ++
      render (depth + 1) v ++ renderMembers (depth + 1) ms ++ layout.newline depth ++ ['\x7d'])

/-- The items after the first. -/
def renderItems (depth : Nat) : List Json → List Char
  | [] => []
  | v :: vs => ',' :: (layout.newline depth ++ render depth v ++ renderItems depth vs)

/-- The members after the first. -/
def renderMembers (depth : Nat) : List (Option String × Json) → List Char
  | [] => []
  | (key, v) :: ms =>
    ',' :: (layout.newline depth ++ quoted key ++ ':' :: layout.afterColon ++ render depth v ++
      renderMembers depth ms)

end

/-- The text of a value. -/
def toText (v : Json) : String := String.ofList (render layout 0 v)

end MethodLang.Json
