import MethodLang.Loading
import MethodLang.Program
import MethodLang.Tree.Outline

/-!
# Commands

What may be asked for on a command line, and the answer: to run the program in a file, or to
show its tree. An answer is text for the two outputs and an exit code.
-/

namespace MethodLang

/-- The forms in which a tree is shown. -/
inductive Format
  | outline
  | json
  deriving DecidableEq

inductive Command
  | run (file : String) (entry : Option String) (limit : Nat)
  | dump (file : String) (format : Format)
  deriving DecidableEq

/-! ### Arguments -/

/-- Arguments sorted into options with their values, and all others, each in their order. -/
structure Arguments where
  options : List (String × String)
  operands : List String
  deriving DecidableEq

namespace Arguments

def addOption (name value : String) (a : Arguments) : Arguments :=
  { a with options := (name, value) :: a.options }

def addOperand (operand : String) (a : Arguments) : Arguments :=
  { a with operands := operand :: a.operands }

/-- Whether an argument looks like an option. A single hyphen does not. -/
def isHyphened (arg : String) : Bool := arg.startsWith "-" && arg != "-"

/-- Split an argument at its first equals sign. -/
def splitEquals (arg : String) : String × Option String :=
  match arg.toList.span (· != '=') with
  | (name, []) => (String.ofList name, none)
  | (name, _ :: value) => (String.ofList name, some (String.ofList value))

/-- Sort arguments. Every option takes a value: what follows an equals sign, or else the next
argument, which must then not look like an option. After a double hyphen nothing is an option. -/
def sort? : List String → Option Arguments
  | [] => some ⟨[], []⟩
  | "--" :: rest => some ⟨[], rest⟩
  | arg :: rest =>
    if isHyphened arg then
      match splitEquals arg, rest with
      | (name, some value), rest => (sort? rest).map (addOption name value)
      | (name, none), value :: rest =>
        if isHyphened value then none else (sort? rest).map (addOption name value)
      | (_, none), [] => none
    else (sort? rest).map (addOperand arg)

/-- The value of an option; `none` if it is given more than once. -/
def value? (a : Arguments) (name : String) : Option (Option String) :=
  match a.options.filter (·.1 = name) with
  | [] => some none
  | [(_, value)] => some (some value)
  | _ => none

/-- Whether all options are among `names`. -/
def onlyOptions (a : Arguments) (names : List String) : Bool :=
  a.options.all fun (name, _) => names.contains name

/-- The only argument that is not an option. -/
def operand? (a : Arguments) : Option String :=
  match a.operands with
  | [operand] => some operand
  | _ => none

end Arguments

/-- The largest limit that may be asked for. -/
def maxLimit : Nat := 4294967295

/-- A limit: a decimal, which may have a sign, from zero to the largest limit. -/
def limit? (text : String) : Option Nat :=
  match Text.intOfDecimal? text.toList with
  | some (.ofNat n) => if n ≤ maxLimit then some n else none
  | _ => none

def Format.ofName? : String → Option Format
  | "pretty" => some .outline
  | "json" => some .json
  | _ => none

/-- The command that arguments ask for. -/
def Command.ofArguments? : List String → Option Command
  | "run" :: rest => do
    let a ← Arguments.sort? rest
    guard (a.onlyOptions ["--entry", "--max-depth"])
    let limit ← (← a.value? "--max-depth").elim (some defaultLimit) limit?
    return .run (← a.operand?) (← a.value? "--entry") limit
  | "dump" :: rest => do
    let a ← Arguments.sort? rest
    guard (a.onlyOptions ["--format"])
    let format ← (← a.value? "--format").elim (some .outline) Format.ofName?
    return .dump (← a.operand?) format
  | _ => none

def Command.file : Command → String
  | run file .. | dump file .. => file

/-! ### Answers -/

structure Answer where
  code : Nat
  output : ByteArray
  errors : String

namespace Answer

def success (output : ByteArray) : Answer := ⟨0, output, ""⟩

/-- Arguments that ask for nothing. -/
def misuse : Answer := ⟨2, .empty, ""⟩

def notLoaded (why : LoadError) : Answer := ⟨1, .empty, s!"Error: {why.message}\n"⟩

def failure (output : ByteArray) (why : EvalError) : Answer :=
  ⟨1, output, s!"error[{why.kind}]: {why.message}\n"⟩

end Answer

/-- A tree in one of its forms. -/
def Tree.display (tree : Tree) : Format → String
  | .outline => tree.outline.toText
  | .json => tree.toJson.toText .pretty

/-- Run a tree on some input with `n` steps; `none` if they do not suffice. -/
def Tree.run (tree : Tree) (entry : Option String) (limit n : Nat) (input : List UInt8) :
    Option Answer :=
  match Program.ofTree tree limit with
  | .error why => some (.failure .empty why)
  | .ok p =>
    let p := entry.elim p p.setEntry
    (p.run n (.ofInput input none false)).map fun (result, _, console) =>
      let output := ⟨console.sink.written⟩
      match result with
      | .ok () => .success output
      | .error why => .failure output why

/-- The answer to a command, given what reading its file gave, and the input. -/
def Command.answer (contents : Except FileError ByteArray) (n : Nat) (input : List UInt8) :
    Command → Option Answer
  | .run file entry limit =>
    match Tree.load file contents with
    | .error why => some (.notLoaded why)
    | .ok tree => tree.run entry limit n input
  | .dump file format =>
    match Tree.load file contents with
    | .error why => some (.notLoaded why)
    | .ok tree => some (.success (tree.display format ++ "\n").toUTF8)

end MethodLang
