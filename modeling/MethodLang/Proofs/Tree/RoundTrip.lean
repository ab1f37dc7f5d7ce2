import Mathlib
import MethodLang.Loading
import MethodLang.Proofs.Json.Printing
import MethodLang.Proofs.Parts
import MethodLang.Tree.Encode

/-!
# The JSON form of a tree

A tree is read from the text that it is printed as, in both layouts, as long as the text is not too
long and does not nest too deeply. Each kind of node is shown to be written by its JSON value
(`Json.Writes`): the value prints exactly, and reading it gives the node back if as many arrays and
objects may be gone into as nest in the value.

* `Expr.writes_toJson` and `Stmt.writes_toJson` go by induction over the parts of the node;
* `Tree.ofText_toText` is the result for whole trees, and says that no other tree is printed as the
  same text.
-/

namespace MethodLang

namespace Json

variable {α β : Type} {n : Nat} {key : String} {v : Json} {items : List Json}
  {read : Nat → Json → Option α} {a : α}

/-! ### Nesting -/

mutual

/-- How many arrays and objects stand inside each other in a value, itself included. -/
def nesting : Json → Nat
  | .null | .bool _ | .int _ | .decimal _ | .str _ => 0
  | .arr items => itemNesting items + 1
  | .obj members => memberNesting members + 1

def itemNesting : List Json → Nat
  | [] => 0
  | v :: vs => max (nesting v) (itemNesting vs)

def memberNesting : List (Option String × Json) → Nat
  | [] => 0
  | (_, v) :: ms => max (nesting v) (memberNesting ms)

end

theorem itemNesting_le_iff : itemNesting items ≤ n ↔ ∀ v ∈ items, v.nesting ≤ n := by
  induction items with
  | nil => simp [itemNesting]
  | cons v vs ih => simp [itemNesting, ih]

theorem memberNesting_le_iff {members : List (Option String × Json)} :
    memberNesting members ≤ n ↔ ∀ m ∈ members, m.2.nesting ≤ n := by
  induction members with
  | nil => simp [memberNesting]
  | cons m ms ih =>
    obtain ⟨key, v⟩ := m
    rw [memberNesting, Nat.max_le, ih, List.forall_mem_cons]

theorem nesting_arr_le_iff :
    (arr items).nesting ≤ n ↔ ∃ k, n = k + 1 ∧ ∀ v ∈ items, v.nesting ≤ k := by
  rw [nesting]
  constructor
  · intro h
    obtain ⟨k, rfl⟩ : ∃ k, n = k + 1 := ⟨n - 1, by omega⟩
    exact ⟨k, rfl, itemNesting_le_iff.1 (Nat.le_of_succ_le_succ h)⟩
  · rintro ⟨k, rfl, h⟩
    exact Nat.succ_le_succ (itemNesting_le_iff.2 h)

theorem nesting_record_le_iff {members : List (String × Json)} :
    (record members).nesting ≤ n ↔ ∃ k, n = k + 1 ∧ ∀ m ∈ members, m.2.nesting ≤ k := by
  have hmembers : ∀ k, memberNesting (members.map fun m => (some m.1, m.2)) ≤ k ↔
      ∀ m ∈ members, m.2.nesting ≤ k := fun k => by
    rw [memberNesting_le_iff, List.forall_mem_map]
  show memberNesting (members.map fun m => (some m.1, m.2)) + 1 ≤ n ↔ _
  constructor
  · intro h
    obtain ⟨k, rfl⟩ : ∃ k, n = k + 1 := ⟨n - 1, by omega⟩
    exact ⟨k, rfl, (hmembers k).1 (Nat.le_of_succ_le_succ h)⟩
  · rintro ⟨k, rfl, h⟩
    exact Nat.succ_le_succ ((hmembers k).2 h)

theorem nesting_single_le_iff :
    (single key v).nesting ≤ n ↔ ∃ k, n = k + 1 ∧ v.nesting ≤ k := by
  have hrecord : single key v = record [(key, v)] := rfl
  rw [hrecord, nesting_record_le_iff]
  simp

/-! ### Fields -/

/-- Under each key of a record stands the one value of that key. -/
theorem under_of_nodup {members : List (String × Json)} (h : (members.map Prod.fst).Nodup) :
    ∀ m ∈ members, under m.1 (members.map fun m => (some m.1, m.2)) = [m.2] := by
  induction members with
  | nil => simp
  | cons m ms ih =>
    rw [List.map_cons, List.nodup_cons, List.mem_map, not_exists] at h
    have hother : ∀ m' ∈ ms, m'.1 ≠ m.1 := fun m' hm' heq => h.1 m' ⟨hm', heq⟩
    have hnone : under m.1 (ms.map fun m => (some m.1, m.2)) = [] := by
      rw [under, List.map_eq_nil_iff, List.filter_eq_nil_iff, List.forall_mem_map]
      simpa using hother
    rw [List.forall_mem_cons]
    constructor
    · simpa [under] using hnone
    · intro m' hm'
      have hne : m.1 ≠ m'.1 := (hother m' hm').symm
      simpa [under, hne] using ih h.2 m' hm'

/-- The fields of a record are the values of its members. -/
theorem fields?_record {members : List (String × Json)} (h : (members.map Prod.fst).Nodup) :
    fields? (members.map Prod.fst) (record members) = some (members.map fun m => some m.2) := by
  have hunder := under_of_nodup h
  have hvalues : (members.map Prod.fst).map
      (fun name => (under name (members.map fun m => (some m.1, m.2))).head?) =
        members.map fun m => some m.2 := by
    rw [List.map_map]
    refine List.map_congr_left fun m hm => ?_
    simp [hunder m hm]
  have hone : ∀ m ∈ members,
      (under m.1 (members.map fun m => (some m.1, m.2))).length ≤ 1 := fun m hm => by
    simp [hunder m hm]
  rw [record, fields?, hvalues, if_pos]
  simpa using hone

/-! ### Values that write something -/

/-- The numbers of a value are integers, and what the value is read as, if that many arrays and
objects may be gone into as nest in it. -/
structure Writes (read : Nat → Json → Option α) (v : Json) (a : α) : Prop where
  integral : v.Integral
  reads {n : Nat} (h : v.nesting ≤ n) : read n v = some a

theorem Integral.single (h : v.Integral) : (single key v).Integral :=
  .obj (by simpa using h)

theorem Integral.record {members : List (String × Json)} (h : ∀ m ∈ members, m.2.Integral) :
    (record members).Integral :=
  .obj (List.forall_mem_map.2 h)

/-- An object with one key, around a value that writes something itself. -/
theorem Writes.single {readInner : Nat → Json → Option β} {b : β} (h : Writes readInner v b)
    (hread : ∀ k, readInner k v = some b → read (k + 1) (.single key v) = some a) :
    Writes read (.single key v) a where
  integral := h.integral.single
  reads hn := by
    obtain ⟨k, rfl, hk⟩ := nesting_single_le_iff.1 hn
    exact hread k (h.reads hk)

section Records

variable {members : List (String × Json)} (hnames : (members.map Prod.fst).Nodup)
  (hi : ∀ m ∈ members, m.2.Integral)

include hnames hi

/-- A record is read from its fields, each of which nests less deeply. -/
theorem Writes.record
    (hread : ∀ k, fields? (members.map Prod.fst) (.record members) =
      some (members.map fun m => some m.2) → (∀ m ∈ members, m.2.nesting ≤ k) →
        read (k + 1) (.record members) = some a) :
    Writes read (.record members) a where
  integral := .record hi
  reads hn := by
    obtain ⟨k, rfl, hk⟩ := nesting_record_le_iff.1 hn
    exact hread k (fields?_record hnames) hk

/-- An object with one key, around a record. -/
theorem Writes.variant
    (hread : ∀ k, fields? (members.map Prod.fst) (.record members) =
      some (members.map fun m => some m.2) → (∀ m ∈ members, m.2.nesting ≤ k) →
        read (k + 2) (.single key (.record members)) = some a) :
    Writes read (.single key (.record members)) a where
  integral := .single (.record hi)
  reads hn := by
    obtain ⟨k, rfl, hrecord⟩ := nesting_single_le_iff.1 hn
    obtain ⟨k, rfl, hk⟩ := nesting_record_le_iff.1 hrecord
    exact hread k (fields?_record hnames) hk

end Records

theorem integral_text (s : String) : (text s).Integral := .str _

@[simp] theorem text?_text (s : String) : (text s).text? = some s := rfl

theorem writes_text (s : String) : Writes (fun _ => text?) (.text s) s where
  integral := .str _
  reads _ := rfl

theorem writes_list {f : α → Json} {as : List α} (h : ∀ a ∈ as, Writes read (f a) a) :
    Writes (fun n => list? n read) (.arr (as.map f)) as where
  integral := .arr (List.forall_mem_map.2 fun a ha => (h a ha).integral)
  reads {n} hn := by
    obtain ⟨k, rfl, hk⟩ := nesting_arr_le_iff.1 hn
    rw [List.forall_mem_map] at hk
    show (as.map f).mapM (read k) = some as
    clear hn
    induction as with
    | nil => rfl
    | cons a as ih =>
      rw [List.forall_mem_cons] at h hk
      simp [List.mapM_cons, h.1.reads hk.1, ih h.2 hk.2]

theorem writes_nullable_text (s : Option String) :
    Writes (fun _ => nullable text?) (s.elim .null .text) s where
  integral := by cases s <;> constructor
  reads _ := by cases s <;> rfl

end Json

open Json

/-! ### Expressions -/

theorem BinOp.ofJson?_variant (n : Nat) (op : BinOp) :
    BinOp.ofJson? n (.text op.variant) = some op := by
  cases op <;> cases n <;> rfl

theorem Literal.writes_toJson (l : Literal) : Writes Literal.ofJson? l.toJson l where
  integral := by
    cases l with
    | int n => exact .single (.int _)
    | bool b => exact .single (.bool b)
  reads {n} h := by
    cases l with
    | int i =>
      obtain ⟨k, rfl, -⟩ := nesting_single_le_iff.1 h
      simp [Literal.toJson, single, Literal.ofJson?, Text.int64?]
    | bool b =>
      obtain ⟨k, rfl, -⟩ := nesting_single_le_iff.1 h
      rfl

theorem Expr.allToJson_eq_map (es : List Expr) : Expr.allToJson es = es.map Expr.toJson := by
  induction es with
  | nil => rfl
  | cons e es ih => rw [Expr.allToJson, ih, List.map_cons]

theorem Expr.allOfJson?_eq_list? (n : Nat) (v : Json) :
    Expr.allOfJson? n v = list? n Expr.ofJson? v := by
  cases n with
  | zero => rfl
  | succ n => cases v <;> simp [Expr.allOfJson?, list?]

theorem Expr.writes_toJson (e : Expr) : Writes Expr.ofJson? e.toJson e := by
  induction e using Expr.parts_induction with
  | step e ih =>
    cases e with
    | lit l =>
      rw [Expr.toJson]
      refine l.writes_toJson.single fun k hk => ?_
      rw [single, Expr.ofJson?, hk, Option.map_some]
    | var name =>
      rw [Expr.toJson]
      refine (writes_text name).single fun k hk => ?_
      rw [single, Expr.ofJson?, hk, Option.map_some]
    | binary lhs op rhs =>
      simp only [Expr.parts, List.forall_mem_cons] at ih
      obtain ⟨hlhs, hrhs, -⟩ := ih
      rw [Expr.toJson]
      refine .variant (by simp) ?_ fun k hfields hk => ?_
      · simp [hlhs.integral, hrhs.integral, integral_text]
      simp only [List.map_cons, List.map_nil, List.forall_mem_cons] at hfields hk
      rw [single, Expr.ofJson?, hfields]
      simp [hlhs.reads hk.1, BinOp.ofJson?_variant, hrhs.reads hk.2.2.1]
    | call method args =>
      have hargs : Writes (fun n => list? n Expr.ofJson?) (.arr (args.map Expr.toJson)) args :=
        writes_list ih
      rw [Expr.toJson, Expr.allToJson_eq_map]
      refine .variant (by simp) ?_ fun k hfields hk => ?_
      · simp [hargs.integral, integral_text]
      simp only [List.map_cons, List.map_nil, List.forall_mem_cons] at hfields hk
      have hread := hargs.reads hk.2.1
      rw [single, Expr.ofJson?, hfields]
      simp [orDefault, Expr.allOfJson?_eq_list?, hread]

theorem WriteItem.writes_toJson (item : WriteItem) : Writes WriteItem.ofJson? item.toJson item := by
  cases item with
  | expr value =>
    refine value.writes_toJson.single fun k hk => ?_
    rw [single, WriteItem.ofJson?, hk, Option.map_some]
  | text content =>
    refine (writes_text content).single fun k hk => ?_
    rw [single, WriteItem.ofJson?, hk, Option.map_some]

/-! ### Statements -/

theorem Stmt.allToJson_eq_map (body : List Stmt) : Stmt.allToJson body = body.map Stmt.toJson := by
  induction body with
  | nil => rfl
  | cons st rest ih => rw [Stmt.allToJson, ih, List.map_cons]

theorem Stmt.allOfJson?_eq_list? (n : Nat) (v : Json) :
    Stmt.allOfJson? n v = list? n Stmt.ofJson? v := by
  cases n with
  | zero => rfl
  | succ n => cases v <;> simp [Stmt.allOfJson?, list?]

/-- A statement is never written as null. -/
theorem Stmt.nullable_toJson {α : Type} (read : Json → Option α) (st : Stmt) :
    nullable read st.toJson = (read st.toJson).map some := by
  cases st <;> simp [Stmt.toJson, nullable, single, Json.text]

theorem Stmt.writes_optionToJson {no : Option Stmt}
    (h : ∀ st ∈ no, Writes Stmt.ofJson? st.toJson st) :
    Writes (fun n => nullable fun v => Stmt.ofJson? n v) (Stmt.optionToJson no) no := by
  cases no with
  | none => exact ⟨.null, fun _ => rfl⟩
  | some st =>
    have hst := h st rfl
    refine ⟨hst.integral, fun hn => ?_⟩
    rw [Stmt.optionToJson] at hn ⊢
    rw [Stmt.nullable_toJson, hst.reads hn, Option.map_some]

theorem Stmt.writes_toJson (st : Stmt) : Writes Stmt.ofJson? st.toJson st := by
  induction st using Stmt.parts_induction with
  | step st ih =>
    cases st with
    | declare name ty =>
      rw [Stmt.toJson]
      refine .variant (by simp) ?_ fun k hfields _ => ?_
      · simp [integral_text]
      simp only [List.map_cons, List.map_nil] at hfields
      rw [single, Stmt.ofJson?, hfields]
      simp
    | assign name value =>
      have hvalue := value.writes_toJson
      rw [Stmt.toJson]
      refine .variant (by simp) ?_ fun k hfields hk => ?_
      · simp [hvalue.integral, integral_text]
      simp only [List.map_cons, List.map_nil, List.forall_mem_cons] at hfields hk
      rw [single, Stmt.ofJson?, hfields]
      simp [hvalue.reads hk.2.1]
    | block body | seq body =>
      have hbody : Writes (fun n => list? n Stmt.ofJson?) (.arr (body.map Stmt.toJson)) body :=
        writes_list ih
      rw [Stmt.toJson, Stmt.allToJson_eq_map]
      refine hbody.single fun k hk => ?_
      rw [single, Stmt.ofJson?, Stmt.allOfJson?_eq_list?, hk]
      rfl
    | ite cond yes no =>
      simp only [Stmt.parts, List.forall_mem_cons, Option.mem_toList] at ih
      obtain ⟨hyes, hno⟩ := ih
      have hcond := cond.writes_toJson
      have hno := Stmt.writes_optionToJson hno
      rw [Stmt.toJson]
      refine .variant (by simp) ?_ fun k hfields hk => ?_
      · simp [hcond.integral, hyes.integral, hno.integral]
      simp only [List.map_cons, List.map_nil, List.forall_mem_cons] at hfields hk
      have hread := hno.reads hk.2.2.1
      rw [single, Stmt.ofJson?, hfields]
      simp [hcond.reads hk.1, hyes.reads hk.2.1, orDefault, hread]
    | doWhile cond body =>
      simp only [Stmt.parts, List.forall_mem_cons] at ih
      obtain ⟨hbody, -⟩ := ih
      have hcond := cond.writes_toJson
      rw [Stmt.toJson]
      refine .variant (by simp) ?_ fun k hfields hk => ?_
      · simp [hcond.integral, hbody.integral]
      simp only [List.map_cons, List.map_nil, List.forall_mem_cons] at hfields hk
      rw [single, Stmt.ofJson?, hfields]
      simp [hcond.reads hk.1, hbody.reads hk.2.1]
    | brk =>
      rw [Stmt.toJson]
      exact ⟨.str _, fun _ => by rw [Json.text, Stmt.ofJson?]⟩
    | ret =>
      rw [Stmt.toJson]
      exact ⟨.str _, fun _ => by rw [Json.text, Stmt.ofJson?]⟩
    | read targets =>
      rw [Stmt.toJson]
      refine (writes_list fun target _ => writes_text target).single fun k hk => ?_
      rw [single, Stmt.ofJson?, hk]
      rfl
    | write items =>
      rw [Stmt.toJson]
      refine (writes_list fun item _ => item.writes_toJson).single fun k hk => ?_
      rw [single, Stmt.ofJson?, hk]
      rfl
    | invoke value =>
      rw [Stmt.toJson]
      refine value.writes_toJson.single fun k hk => ?_
      rw [single, Stmt.ofJson?, hk]
      rfl

theorem Stmt.writes_allToJson (body : List Stmt) :
    Writes Stmt.allOfJson? (.arr (Stmt.allToJson body)) body := by
  rw [Stmt.allToJson_eq_map]
  refine ⟨(writes_list fun st _ => st.writes_toJson).integral, fun {n} hn => ?_⟩
  rw [Stmt.allOfJson?_eq_list?]
  exact (writes_list fun st _ => st.writes_toJson).reads hn

/-! ### Programs -/

theorem MethodDecl.writes_toJson (decl : MethodDecl) :
    Writes MethodDecl.ofJson? decl.toJson decl := by
  obtain ⟨name, returns, params, body⟩ := decl
  have hreturns : Writes (fun _ => nullable text?)
      (returns.elim .null fun ty => .text ty.text) (returns.map TyName.text) := by
    cases returns with
    | none => exact writes_nullable_text none
    | some ty => exact writes_nullable_text (some ty.text)
  have hnames : (returns.map TyName.text).map TyName.mk = returns := by cases returns <;> rfl
  have hparams : Writes (fun n => list? n fun _ => text?) (.arr (params.map .text)) params :=
    writes_list fun param _ => writes_text param
  have hbody := Stmt.writes_allToJson body
  refine .record (by simp) ?_ fun k hfields hk => ?_
  · simp [integral_text, hreturns.integral, hparams.integral, hbody.integral]
  simp only [List.map_cons, List.map_nil, List.forall_mem_cons] at hfields hk
  have hreadReturns := hreturns.reads hk.2.1
  have hreadParams := hparams.reads hk.2.2.1
  have hreadBody := hbody.reads hk.2.2.2.1
  rw [MethodDecl.ofJson?, hfields]
  simpa [orDefault, hreadReturns, hreadParams, hreadBody] using hnames

theorem Tree.writes_toJson (tree : Tree) : Writes Tree.ofJson? tree.toJson tree := by
  obtain ⟨name, fields, methods, entry⟩ := tree
  have hfields := Stmt.writes_allToJson fields
  have hmethods : Writes (fun n => list? n MethodDecl.ofJson?)
      (.arr (methods.map MethodDecl.toJson)) methods :=
    writes_list fun decl _ => decl.writes_toJson
  have hentry := writes_nullable_text entry
  refine .record (by simp) ?_ fun k hmembers hk => ?_
  · simp [integral_text, hfields.integral, hmethods.integral, hentry.integral]
  simp only [List.map_cons, List.map_nil, List.forall_mem_cons] at hmembers hk
  have hreadFields := hfields.reads hk.2.1
  have hreadMethods := hmethods.reads hk.2.2.1
  have hreadEntry := hentry.reads hk.2.2.2.1
  rw [Tree.ofJson?, hmembers]
  simp [orDefault, hreadFields, hreadMethods, hreadEntry]

/-! ### Texts -/

/-- The layouts in which trees are printed. -/
theorem Json.Layout.blank_of_printed {layout : Layout} (h : layout = .pretty ∨ layout = .compact) :
    layout.Blank := by
  rcases h with rfl | rfl
  · exact blank_pretty
  · exact blank_compact

/-- A tree whose printed text is not too long and does not nest too deeply is read from that text,
and no other tree is printed as the same text, in whatever layout. -/
theorem Tree.ofText_toText (tree : Tree) (layout : Layout)
    (hlayout : layout = .pretty ∨ layout = .compact)
    (hsize : (tree.toJson.toText layout).utf8ByteSize ≤ maxTextSize)
    (hnesting : tree.toJson.nesting ≤ maxNesting) :
    Tree.ofText (tree.toJson.toText layout) = .ok tree ∧
      ∀ (other : Tree) (layout' : Layout), layout' = .pretty ∨ layout' = .compact →
        other.toJson.toText layout' = tree.toJson.toText layout → other = tree := by
  have hread : Json.ofText? (tree.toJson.toText layout) = some tree.toJson :=
    ofText?_toText (Layout.blank_of_printed hlayout) tree.writes_toJson.integral
  have htree := tree.writes_toJson.reads hnesting
  constructor
  · rw [Tree.ofText, if_neg (Nat.not_lt.2 hsize), hread, Option.bind_some, htree]
  · intro other layout' hlayout' htext
    have hother : Json.ofText? (other.toJson.toText layout') = some other.toJson :=
      ofText?_toText (Layout.blank_of_printed hlayout') other.writes_toJson.integral
    rw [htext, hread, Option.some.injEq] at hother
    have hsame := other.writes_toJson.reads (hother ▸ hnesting)
    rw [← hother, htree] at hsame
    exact (Option.some.inj hsame).symm

/-- A tree with the least integer, characters that are escaped and one beyond 16 bits, empty lists,
and what may be absent both absent and present. -/
def tricky : Tree where
  name := "\"\n\x01😀"
  fields := [.declare "" ⟨"?"⟩, .seq []]
  methods := [
    ⟨"f", some ⟨"int"⟩, ["x"], [.ite (.var "x") (.block [.ret]) (some .brk)]⟩,
    ⟨"g", none, [], [.ite (.call "f" []) (.write [.expr (.int (-9223372036854775808))]) none]⟩]
  entry := none

theorem tricky_ofText_toText :
    Tree.ofText (tricky.toJson.toText .pretty) = .ok tricky ∧
    Tree.ofText (tricky.toJson.toText .compact) = .ok tricky ∧
    { tricky with name := "" }.toJson.toText .compact ≠ tricky.toJson.toText .pretty := by
  have hnesting : tricky.toJson.nesting ≤ maxNesting := by decide +kernel
  have hpretty : (tricky.toJson.toText .pretty).utf8ByteSize ≤ maxTextSize := by
    rw [toText, String.utf8ByteSize_ofList]
    decide +kernel
  have hcompact : (tricky.toJson.toText .compact).utf8ByteSize ≤ maxTextSize := by
    rw [toText, String.utf8ByteSize_ofList]
    decide +kernel
  obtain ⟨hread, hsame⟩ := tricky.ofText_toText .pretty (.inl rfl) hpretty hnesting
  refine ⟨hread, (tricky.ofText_toText .compact (.inr rfl) hcompact hnesting).1, fun htext => ?_⟩
  have hname := congrArg Tree.name (hsame _ .compact (.inr rfl) htext)
  revert hname
  decide

end MethodLang
