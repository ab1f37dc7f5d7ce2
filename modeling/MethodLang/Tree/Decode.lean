import MethodLang.Json.Reader
import MethodLang.Tree.Basic

/-!
# Trees from JSON

Several JSON values write the same tree. A record is an object with its fields in any order and
any other keys besides, or an array of its fields in order; fields with a default may be missing,
in an array only at its end. A variant is an object whose one key is its name, and one that
carries nothing may also be its bare name.

Reading a tree goes into at most `maxNesting` arrays and objects inside each other. The values
of keys that a record does not know are not gone into.
-/

namespace MethodLang

/-- How many arrays and objects inside each other may write a tree. -/
def maxNesting : Nat := 127

namespace Json

def text? : Json → Option String
  | .str text => text
  | _ => none

/-- What `read` makes of a value, and nothing of null. -/
def nullable {α : Type} (read : Json → Option α) : Json → Option (Option α)
  | .null => some none
  | v => (read v).map some

/-- What `read` makes of a field, or a default if the field is missing. -/
def orDefault {α : Type} (default : α) (read : Json → Option α) : Option Json → Option α
  | none => some default
  | some v => read v

/-- The values under one key. -/
def under (key : String) (members : List (Option String × Json)) : List Json :=
  (members.filter (·.1 = some key)).map Prod.snd

/-- The fields of a record, in the order of `names`, each present or missing. An object may
hold other keys too, but a known key once only, and every key must be a text. An array holds the
fields from the first on. -/
def fields? (names : List String) : Json → Option (List (Option Json))
  | .arr items =>
    if items.length ≤ names.length then
      some (items.map some ++ List.replicate (names.length - items.length) none)
    else none
  | .obj members =>
    if members.all (·.1.isSome) && names.all fun name => (under name members).length ≤ 1 then
      some (names.map fun name => (under name members).head?)
    else none
  | _ => none

/-- An array, each item read by `read`. It is one array to go into; `n` more remain for its
items. -/
def list? {α : Type} (n : Nat) (read : Nat → Json → Option α) (v : Json) : Option (List α) :=
  match n, v with
  | n + 1, .arr items => items.mapM (read n)
  | _, _ => none

/-- The name of a variant that carries nothing. -/
def bare? (n : Nat) (v : Json) : Option String :=
  match n, v with
  | _, .str name => name
  | _ + 1, .obj [(name, .null)] => name
  | _, _ => none

end Json

open Json

/-- The operator of a name. -/
def BinOp.ofVariant? : String → Option BinOp
  | "Add" => some .add
  | "Sub" => some .sub
  | "Mul" => some .mul
  | "Div" => some .div
  | "Mod" => some .mod
  | "And" => some .and
  | "Or" => some .or
  | "Eq" => some .eq
  | "Ne" => some .ne
  | "Lt" => some .lt
  | "Gt" => some .gt
  | "Le" => some .le
  | "Ge" => some .ge
  | _ => none

def BinOp.ofJson? (n : Nat) (v : Json) : Option BinOp := (bare? n v).bind BinOp.ofVariant?

def Literal.ofJson? (n : Nat) (v : Json) : Option Literal :=
  match n, v with
  | _ + 1, .obj [(some "Int", .int i)] => (Text.int64? i).map .int
  | _ + 1, .obj [(some "Bool", .bool b)] => some (.bool b)
  | _, _ => none

/-! ### Expressions -/

mutual

/-- The expression that a value writes; `n` arrays and objects may be gone into. -/
def Expr.ofJson? : Nat → Json → Option Expr
  | n + 1, .obj [(some "Lit", v)] => (Literal.ofJson? n v).map .lit
  | _ + 1, .obj [(some "Var", v)] => v.text?.map .var
  | n + 2, .obj [(some "Binary", v)] => do
    let [some lhs, some op, some rhs] ← v.fields? ["lhs", "op", "rhs"] | none
    return .binary (← Expr.ofJson? n lhs) (← BinOp.ofJson? n op) (← Expr.ofJson? n rhs)
  | n + 2, .obj [(some "Call", v)] => do
    let [some method, args] ← v.fields? ["method", "args"] | none
    return .call (← method.text?) (← orDefault [] (fun v => Expr.allOfJson? n v) args)
  | _, _ => none

def Expr.allOfJson? : Nat → Json → Option (List Expr)
  | n + 1, .arr items => items.mapM fun v => Expr.ofJson? n v
  | _, _ => none

end

def WriteItem.ofJson? (n : Nat) (v : Json) : Option WriteItem :=
  match n, v with
  | n + 1, .obj [(some "Expr", v)] => (Expr.ofJson? n v).map .expr
  | _ + 1, .obj [(some "Text", v)] => v.text?.map .text
  | _, _ => none

/-! ### Statements -/

mutual

/-- The statement that a value writes. -/
def Stmt.ofJson? : Nat → Json → Option Stmt
  | _, .str (some "Break") => some .brk
  | _, .str (some "Return") => some .ret
  | _ + 1, .obj [(some "Break", .null)] => some .brk
  | _ + 1, .obj [(some "Return", .null)] => some .ret
  | _ + 2, .obj [(some "Declare", v)] => do
    let [some name, some ty] ← v.fields? ["name", "ty"] | none
    return .declare (← name.text?) ⟨← ty.text?⟩
  | n + 2, .obj [(some "Assign", v)] => do
    let [some name, some value] ← v.fields? ["name", "value"] | none
    return .assign (← name.text?) (← Expr.ofJson? n value)
  | n + 1, .obj [(some "Block", v)] => do return .block (← Stmt.allOfJson? n v)
  | n + 1, .obj [(some "Seq", v)] => do return .seq (← Stmt.allOfJson? n v)
  | n + 2, .obj [(some "If", v)] => do
    let [some cond, some yes, no] ← v.fields? ["cond", "then_", "else_"] | none
    return .ite (← Expr.ofJson? n cond) (← Stmt.ofJson? n yes)
      (← orDefault none (nullable fun v => Stmt.ofJson? n v) no)
  | n + 2, .obj [(some "While", v)] => do
    let [some cond, some body] ← v.fields? ["cond", "body"] | none
    return .doWhile (← Expr.ofJson? n cond) (← Stmt.ofJson? n body)
  | n + 1, .obj [(some "Read", v)] => do return .read (← list? n (fun _ => text?) v)
  | n + 1, .obj [(some "Write", v)] => do return .write (← list? n WriteItem.ofJson? v)
  | n + 1, .obj [(some "Invoke", v)] => do return .invoke (← Expr.ofJson? n v)
  | _, _ => none

def Stmt.allOfJson? : Nat → Json → Option (List Stmt)
  | n + 1, .arr items => items.mapM fun v => Stmt.ofJson? n v
  | _, _ => none

end

/-! ### Programs -/

def MethodDecl.ofJson? (n : Nat) (v : Json) : Option MethodDecl :=
  match n with
  | 0 => none
  | n + 1 => do
    let [some name, returns, params, some body] ← v.fields? ["name", "ret_ty", "params", "body"]
      | none
    return {
      name := ← name.text?
      returns := (← orDefault none (nullable text?) returns).map TyName.mk
      params := ← orDefault [] (list? n fun _ => text?) params
      body := ← Stmt.allOfJson? n body }

def Tree.ofJson? (n : Nat) (v : Json) : Option Tree :=
  match n with
  | 0 => none
  | n + 1 => do
    let [name, fields, methods, entry] ← v.fields? ["name", "fields", "methods", "entry"] | none
    return {
      name := ← orDefault "" text? name
      fields := ← orDefault [] (Stmt.allOfJson? n) fields
      methods := ← orDefault [] (list? n MethodDecl.ofJson?) methods
      entry := ← orDefault none (nullable text?) entry }

end MethodLang
