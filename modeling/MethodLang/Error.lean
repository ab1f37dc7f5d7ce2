import MethodLang.Value

/-!
# Runtime errors

A program cannot catch an error: the first one ends the run. An error is its cause; the wording
is one function of the cause, and so is the name of its kind.
-/

namespace MethodLang

/-- Statements with a condition. -/
inductive Conditional
  | ite
  | doWhile
  deriving DecidableEq

/-- How messages name a conditional statement. -/
def Conditional.keyword : Conditional → String
  | .ite => "if"
  | .doWhile => "while"

/-- Ways to break a type rule. -/
inductive Mismatch
  /-- Assigning to a slot of another type. -/
  | assignment (name : String) (expected found : Ty)
  /-- A condition that is not a truth value. -/
  | condition (construct : Conditional) (found : Ty)
  /-- Operands outside the operator's class. -/
  | operands (op : BinOp) (lhs rhs : Ty)
  /-- Writing a value that has no text. -/
  | unprintable
  deriving DecidableEq

/-- What can go wrong at the console. -/
inductive ConsoleError
  | endOfInput
  /-- A line of input that is not UTF-8. -/
  | undecodable
  | notAnInteger (token : String)
  /-- The output takes no more bytes. -/
  | sinkFull
  /-- The output cannot be flushed. -/
  | flushRefused
  deriving DecidableEq

inductive EvalError
  /-- The name is already visible, or the method name already taken. -/
  | redeclaration (name : String)
  | undeclaredVariable (name : String)
  | undeclaredMethod (name : String)
  | uninitializedVariable (name : String)
  | typeMismatch (why : Mismatch)
  | argumentCount (method : String) (expected found : Nat)
  | divisionByZero (op : BinOp)
  | missingEntryPoint
  | console (why : ConsoleError)
  | callDepthExceeded (limit : Nat)
  deriving DecidableEq

def Mismatch.message : Mismatch → String
  | assignment name expected found =>
    s!"can't convert {found.display} to {expected.display} in assignment to `{name}`"
  | condition construct found =>
    s!"expected boolean expression in {construct.keyword}, found {found.display}"
  | operands op lhs rhs =>
    s!"operator `{op.symbol}` cannot be applied to {lhs.display} and {rhs.display}"
  | unprintable => "cannot write a value of undefined type"

def ConsoleError.message : ConsoleError → String
  | endOfInput => "unexpected end of input"
  | undecodable => "failed to read input: stream did not contain valid UTF-8"
  | notAnInteger token => s!"expected an integer, found `{token}`"
  | sinkFull => "failed to write output: sink full"
  | flushRefused => "failed to write output: flush refused"

namespace EvalError

/-- The kind of an error, as reports name it. -/
def kind : EvalError → String
  | redeclaration _ => "RedeclarationError"
  | undeclaredVariable _ => "UndeclaredVariableError"
  | undeclaredMethod _ => "UndeclaredMethodError"
  | uninitializedVariable _ => "UninitializedVariableError"
  | typeMismatch _ => "TypeMismatchError"
  | argumentCount .. => "ArgumentCountError"
  | divisionByZero _ => "DivisionByZeroError"
  | missingEntryPoint => "MissingEntryPointError"
  | console _ => "IOError"
  | callDepthExceeded _ => "CallDepthExceededError"

def message : EvalError → String
  | redeclaration name => s!"redefinition of `{name}`"
  | undeclaredVariable name => s!"undeclared variable `{name}`"
  | undeclaredMethod name => s!"method `{name}` not found"
  | uninitializedVariable name => s!"using uninitialized variable `{name}`"
  | typeMismatch why => why.message
  | argumentCount method expected found =>
    let which := if expected < found then "many" else "few"
    s!"`{method}`: too {which} arguments (expected {expected}, got {found})"
  | divisionByZero op => s!"right operand of `{op.symbol}` is zero"
  | missingEntryPoint => "entry method not set"
  | console why => why.message
  | callDepthExceeded limit => s!"maximum call depth exceeded (limit: {limit} calls)"

end EvalError

end MethodLang
