import MethodLang.CommandLine

/-!
# The program

Reads what a command asks for, and writes its answer.
-/

namespace MethodLang

def usage : String :=
  "usage: run FILE [--entry NAME] [--max-depth CALLS]\n       dump FILE [--format pretty|json]\n"

/-- How many steps evaluation may nest or repeat: more than any machine takes. -/
def steps : Nat := 4611686018427387904

/-- Why reading a file failed. -/
def FileError.ofError : IO.Error → FileError
  | .noFileOrDirectory .. => .notFound
  | .inappropriateType _ code _ =>
    if code = 20 then .notADirectory else .isADirectory
  | .invalidArgument _ 36 _ => .nameTooLong
  | e => .other (toString e)

def readContents (path : String) : IO (Except FileError ByteArray) := do
  try return .ok (← IO.FS.readBinFile path)
  catch e => return .error (.ofError e)

/-- All that comes in. -/
partial def readAllInput (stream : IO.FS.Stream) (before : ByteArray) : IO ByteArray := do
  let bytes ← stream.read 65536
  if bytes.isEmpty then return before
  else readAllInput stream (before ++ bytes)

def execute (command : Command) : IO UInt32 := do
  let contents ← readContents command.file
  let input ← match command with
    | .run .. => readAllInput (← IO.getStdin) .empty
    | .dump .. => pure .empty
  match command.answer contents steps input.toList with
  | none => return 1
  | some answer =>
    let output ← IO.getStdout
    output.write answer.output
    output.flush
    (← IO.getStderr).putStr answer.errors
    return answer.code.toUInt32

end MethodLang

def main (args : List String) : IO UInt32 := do
  match MethodLang.Command.ofArguments? args with
  | none =>
    (← IO.getStderr).putStr MethodLang.usage
    return MethodLang.Answer.misuse.code.toUInt32
  | some command => MethodLang.execute command
