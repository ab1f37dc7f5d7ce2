import Mathlib
import MethodLang.Tree.Decode
import MethodLang.Tree.Encode

/-!
# The spellings of a tree

Which JSON values spell a tree is said here by recursion on the tree, without reading anything:
every node has a predicate on values, put together from few forms. A text, a truth value, a number
and a list are spelled by their JSON counterparts. A record is spelled by an object, with its fields
in any order and any other keys besides, or by an array of its fields. A variant is spelled by an
object whose one key is its name, or by the bare name if it carries nothing.

How deeply a value nests, not counting what stands under keys that are not known, depends on what is
expected where the value stands: `Place` says what may be expected, and which keys are known there.
-/

namespace MethodLang

namespace Json

/-! ### Forms -/

/-- A text. -/
def IsText (s : String) (v : Json) : Prop := v = .text s

/-- An array with an item for each predicate, in order. -/
def IsArray (items : List (Json → Prop)) (v : Json) : Prop :=
  ∃ vs, v = .arr vs ∧ List.Forall₂ (fun item v => item v) items vs

/-- What may be absent: null, or what spells the thing that is present. -/
def IsOptional (present : Option (Json → Prop)) (v : Json) : Prop :=
  match present with
  | none => v = .null
  | some spelled => spelled v

/-- A variant that carries something: an object whose one key is its name. -/
def IsVariant (name : String) (payload : Json → Prop) (v : Json) : Prop :=
  ∃ w, v = .single name w ∧ payload w

/-- A variant that carries nothing: its name, or an object with null under its name. -/
def IsBare (name : String) (v : Json) : Prop := v = .text name ∨ v = .single name .null

/-- A field of a record with something to spell: which values spell it, and whether it may be left
out, as it may if it has a default and holds it. -/
structure Field where
  name : String
  spelled : Json → Prop
  omissible : Prop

/-- A field without a default. -/
def Field.required (name : String) (spelled : Json → Prop) : Field := ⟨name, spelled, False⟩

/-- A record: an object of texts to values that has each known key once, or not at all if the field
may be left out; or an array of the first fields, if those after them may be left out. -/
def IsRecord (fields : List Field) : Json → Prop
  | .obj members =>
    (∀ m ∈ members, m.1 ≠ none) ∧
      ∀ f ∈ fields, (under f.name members = [] ∧ f.omissible) ∨
        ∃ v, under f.name members = [v] ∧ f.spelled v
  | .arr items =>
    ∃ given omitted, fields = given ++ omitted ∧
      List.Forall₂ (fun f v => f.spelled v) given items ∧ ∀ f ∈ omitted, f.omissible
  | _ => False

end Json

open Json

/-! ### Spellings -/

def BinOp.SpelledBy (op : BinOp) : Json → Prop := IsBare op.variant

/-- An integer is spelled by an integer, which a negative zero is not. -/
def Literal.SpelledBy : Literal → Json → Prop
  | .int n => IsVariant "Int" (· = .int n.toInt)
  | .bool b => IsVariant "Bool" (· = .bool b)

mutual

def Expr.SpelledBy : Expr → Json → Prop
  | .lit l => IsVariant "Lit" l.SpelledBy
  | .var x => IsVariant "Var" (IsText x)
  | .binary lhs op rhs =>
    IsVariant "Binary" (IsRecord [
      .required "lhs" lhs.SpelledBy, .required "op" op.SpelledBy, .required "rhs" rhs.SpelledBy])
  | .call method args =>
    IsVariant "Call" (IsRecord [
      .required "method" (IsText method), ⟨"args", IsArray (Expr.spellings args), args = []⟩])

def Expr.spellings : List Expr → List (Json → Prop)
  | [] => []
  | e :: es => e.SpelledBy :: Expr.spellings es

end

def WriteItem.SpelledBy : WriteItem → Json → Prop
  | .expr e => IsVariant "Expr" e.SpelledBy
  | .text s => IsVariant "Text" (IsText s)

mutual

def Stmt.SpelledBy : Stmt → Json → Prop
  | .declare x ty =>
    IsVariant "Declare" (IsRecord [.required "name" (IsText x), .required "ty" (IsText ty.text)])
  | .assign x value =>
    IsVariant "Assign" (IsRecord [
      .required "name" (IsText x), .required "value" value.SpelledBy])
  | .block body => IsVariant "Block" (IsArray (Stmt.spellings body))
  | .seq body => IsVariant "Seq" (IsArray (Stmt.spellings body))
  | .ite cond yes no =>
    IsVariant "If" (IsRecord [
      .required "cond" cond.SpelledBy, .required "then_" yes.SpelledBy,
      ⟨"else_", IsOptional (Stmt.spelling? no), no = none⟩])
  | .doWhile cond body =>
    IsVariant "While" (IsRecord [
      .required "cond" cond.SpelledBy, .required "body" body.SpelledBy])
  | .brk => IsBare "Break"
  | .ret => IsBare "Return"
  | .read targets => IsVariant "Read" (IsArray (targets.map IsText))
  | .write items => IsVariant "Write" (IsArray (items.map WriteItem.SpelledBy))
  | .invoke e => IsVariant "Invoke" e.SpelledBy

def Stmt.spelling? : Option Stmt → Option (Json → Prop)
  | none => none
  | some st => some st.SpelledBy

def Stmt.spellings : List Stmt → List (Json → Prop)
  | [] => []
  | st :: rest => st.SpelledBy :: Stmt.spellings rest

end

def MethodDecl.SpelledBy (decl : MethodDecl) : Json → Prop :=
  IsRecord [
    .required "name" (IsText decl.name),
    ⟨"ret_ty", IsOptional (decl.returns.map fun ty => IsText ty.text), decl.returns = none⟩,
    ⟨"params", IsArray (decl.params.map IsText), decl.params = []⟩,
    .required "body" (IsArray (Stmt.spellings decl.body))]

def Tree.SpelledBy (tree : Tree) : Json → Prop :=
  IsRecord [
    ⟨"name", IsText tree.name, tree.name = ""⟩,
    ⟨"fields", IsArray (Stmt.spellings tree.fields), tree.fields = []⟩,
    ⟨"methods", IsArray (tree.methods.map MethodDecl.SpelledBy), tree.methods = []⟩,
    ⟨"entry", IsOptional (tree.entry.map IsText), tree.entry = none⟩]

/-! ### Nesting -/

/-- What may be expected at some place in the JSON form of a tree. -/
inductive Place
  /-- Something without known keys. -/
  | plain
  | list (each : Place)
  | literal | binary | call | expr
  | writeItem
  | declare | assign | ite | doWhile | stmt
  | method
  | program

namespace Place

/-- The known keys at a place, in order, and what is expected under each. -/
def keys : Place → List (String × Place)
  | plain | list _ => []
  | literal => [("Int", plain), ("Bool", plain)]
  | binary => [("lhs", expr), ("op", plain), ("rhs", expr)]
  | call => [("method", plain), ("args", list expr)]
  | expr => [("Lit", literal), ("Var", plain), ("Binary", binary), ("Call", call)]
  | writeItem => [("Expr", expr), ("Text", plain)]
  | declare => [("name", plain), ("ty", plain)]
  | assign => [("name", plain), ("value", expr)]
  | ite => [("cond", expr), ("then_", stmt), ("else_", stmt)]
  | doWhile => [("cond", expr), ("body", stmt)]
  | stmt => [
    ("Declare", declare), ("Assign", assign), ("Block", list stmt), ("Seq", list stmt),
    ("If", ite), ("While", doWhile), ("Break", plain), ("Return", plain),
    ("Read", list plain), ("Write", list writeItem), ("Invoke", expr)]
  | method => [("name", plain), ("ret_ty", plain), ("params", list plain), ("body", list stmt)]
  | program => [("name", plain), ("fields", list stmt), ("methods", list method), ("entry", plain)]

/-- What is expected under a key, if it is known. -/
def under? (p : Place) (key : Option String) : Option Place := key.bind fun key => p.keys.lookup key

/-- What is expected as an item of an array. -/
def itemAt : Place → Nat → Place
  | list q, _ => q
  | p, i => (p.keys[i]?.map Prod.snd).getD plain

end Place

namespace Json

mutual

/-- How many arrays and objects stand inside each other in a value at some place, itself included,
without those under keys that are not known. -/
def nestingAt (p : Place) : Json → Nat
  | .null | .bool _ | .int _ | .decimal _ | .str _ => 0
  | .arr items => itemNestingAt p 0 items + 1
  | .obj members => memberNestingAt p members + 1

def itemNestingAt (p : Place) (i : Nat) : List Json → Nat
  | [] => 0
  | v :: vs => max (nestingAt (p.itemAt i) v) (itemNestingAt p (i + 1) vs)

def memberNestingAt (p : Place) : List (Option String × Json) → Nat
  | [] => 0
  | (key, v) :: ms =>
    match p.under? key with
    | some expected => max (nestingAt expected v) (memberNestingAt p ms)
    | none => memberNestingAt p ms

end

end Json

end MethodLang
