/-!
# Outlines

A layout for nested data: a group opens on a line, holds each item on lines of its own, indented
by four blanks and followed by a comma, and closes on a line of its own.
-/

namespace MethodLang.Text

inductive Outline
  | leaf (text : List Char)
  /-- A group with the texts that open and close it, and its items with their labels. -/
  | group (opening closing : String) (items : List (String × Outline))

namespace Outline

/-- Items in square brackets. -/
def list (items : List Outline) : Outline := .group "[" "]" (items.map fun item => ("", item))

/-- A name with unnamed parts. -/
def tuple (name : String) (items : List Outline) : Outline :=
  .group (name ++ "(") ")" (items.map fun item => ("", item))

/-- A name with named parts. -/
def record (name : String) (items : List (String × Outline)) : Outline :=
  .group (name ++ " \x7b") "\x7d" (items.map fun (label, item) => (label ++ ": ", item))

/-- The start of a line at some depth. -/
def newline (depth : Nat) : List Char := '\n' :: List.replicate (4 * depth) ' '

mutual

/-- The text of an outline that stands at some depth. A group without items is closed at once. -/
def render (depth : Nat) : Outline → List Char
  | .leaf text => text
  | .group opening closing [] => opening.toList ++ closing.toList
  | .group opening closing (item :: items) =>
    opening.toList ++ renderItems (depth + 1) (item :: items) ++ newline depth ++ closing.toList

def renderItems (depth : Nat) : List (String × Outline) → List Char
  | [] => []
  | (label, item) :: items =>
    newline depth ++ label.toList ++ render depth item ++ ',' :: renderItems depth items

end

/-- The text of an outline. -/
def toText (o : Outline) : String := String.ofList (o.render 0)

end Outline

end MethodLang.Text
