import MethodLang.Folder
import MethodLang.Tree.Decode

/-!
# Loading

A tree is loaded from text, and text from a file. What can go wrong on the way is told in the
order in which it happens: reaching the file, decoding it, its size, its form.
-/

namespace MethodLang

/-- The longest text that is read as a tree, in bytes. -/
def maxTextSize : Nat := 1000000

/-- What can be wrong with a text. -/
inductive TextError
  | tooLong (bytes : Nat)
  | malformed
  deriving DecidableEq

def TextError.message : TextError → String
  | tooLong bytes => s!"syntax tree exceeds {maxTextSize / 1000000}MB limit ({bytes} bytes)"
  | malformed => "malformed syntax tree"

/-- The tree that a text writes. -/
def Tree.ofText (text : String) : Except TextError Tree :=
  if maxTextSize < text.utf8ByteSize then .error (.tooLong text.utf8ByteSize)
  else match (Json.ofText? text).bind (Tree.ofJson? maxNesting) with
    | none => .error .malformed
    | some tree => .ok tree

/-- Why a tree cannot be loaded from a path. -/
inductive LoadError
  | unreadable (path : String) (why : FileError)
  | rejected (path : String) (why : TextError)
  deriving DecidableEq

def LoadError.message : LoadError → String
  | unreadable path why => s!"failed to read `{path}`: {why.message}"
  | rejected path why => s!"in `{path}`: {why.message}"

/-- The tree in the file to which a path leads, given what reading that file gave. -/
def Tree.load (path : String) (contents : Except FileError ByteArray) :
    Except LoadError Tree := do
  let bytes ← contents.mapError (.unreadable path)
  match String.fromUTF8? bytes with
  | none => .error (.unreadable path .undecodable)
  | some text => (Tree.ofText text).mapError (.rejected path)

end MethodLang
