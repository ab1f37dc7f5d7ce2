import MethodLang.Proofs.Tree.Forms
import MethodLang.Proofs.Tree.RoundTrip

/-!
# The values that are read as a tree

A value is read as a tree exactly if it spells the tree and does not nest too deeply. For each kind
of node there is a theorem that its reader reads what spells it (`Json.Reads`), put together from
the theorems on the forms:

* `Expr.reads` and `Stmt.reads` go by induction on how many arrays and objects may be gone into. The
  cases are those of the reader, and each variant that carries a record has a lemma of its own;
* `Tree.ofJson?_eq_some_iff_spelledBy` is the result for whole trees;
* `Tree.ofText_eq_ok_iff` is the same for texts.
-/

namespace MethodLang

open Json

variable {n : Nat} {v w : Json}

/-! ### Operators and literals -/

theorem BinOp.ofVariant?_eq_some_iff {s : String} {op : BinOp} :
    BinOp.ofVariant? s = some op ↔ s = op.variant := by
  constructor
  · intro h
    unfold BinOp.ofVariant? at h
    split at h <;> cases h <;> rfl
  · rintro rfl
    cases op <;> rfl

theorem Json.bare?_eq_some_iff {name : String} :
    bare? n v = some name ↔ IsBare name v ∧ v.nestingAt .plain ≤ n := by
  fun_cases bare? n v with
  | case1 n name' => simp [IsBare, text, single, nestingAt]
  | case2 n name' =>
    simp [IsBare, text, single, nestingAt, memberNestingAt, Place.under?, Place.keys]
  | case3 n v hstr hobj =>
    simp only [reduceCtorEq, false_iff, not_and]
    intro h hn
    obtain rfl | ⟨k, rfl, rfl⟩ := h.form hn
    · exact hstr _ rfl
    · exact hobj k _ rfl rfl

theorem BinOp.reads (n : Nat) : Reads (BinOp.ofJson? n) .plain n BinOp.SpelledBy := by
  intro v op
  simp only [BinOp.ofJson?, Option.bind_eq_some_iff, bare?_eq_some_iff,
    BinOp.ofVariant?_eq_some_iff, BinOp.SpelledBy, exists_eq_right]

theorem Literal.reads (n : Nat) : Reads (Literal.ofJson? n) .literal n Literal.SpelledBy := by
  intro v l
  fun_cases Literal.ofJson? n v with
  | case1 n i =>
    have hread : (Text.int64? i).map Literal.int = some l ↔
        (∃ a : Int64, a.toInt = i ∧ .int a = l) ∧ nestingAt .plain (.int i) ≤ n := by
      simp [Text.int64?_eq_some_iff, nestingAt]
    refine reads_single_iff rfl hread ?_
    cases l <;> simp [Literal.SpelledBy, eq_comm]
  | case2 n b =>
    have hread : some (.bool b) = some l ↔
        .bool b = l ∧ nestingAt .plain (.bool b) ≤ n := by
      simp [nestingAt]
    refine reads_single_iff rfl hread ?_
    cases l <;> simp [Literal.SpelledBy]
  | case3 n v hint hbool =>
    simp only [reduceCtorEq, false_iff, not_and]
    intro h hn
    cases l with
    | int i =>
      obtain ⟨k, _, rfl, rfl, rfl, -⟩ := h.form rfl hn
      exact hint k _ rfl rfl
    | bool b =>
      obtain ⟨k, _, rfl, rfl, rfl, -⟩ := h.form rfl hn
      exact hbool k b rfl rfl

/-! ### Expressions -/

theorem Expr.spellings_eq_map (es : List Expr) : Expr.spellings es = es.map Expr.SpelledBy := by
  induction es with
  | nil => rfl
  | cons e es ih => rw [Expr.spellings, ih, List.map_cons]

namespace Expr

section Records

variable (ih : ∀ k ≤ n, Reads (Expr.ofJson? k) .expr k Expr.SpelledBy)

include ih

theorem reads_all :
    Reads (Expr.allOfJson? n) (.list .expr) n fun es => IsArray (Expr.spellings es) := by
  have hlist : Expr.allOfJson? n = list? n Expr.ofJson? := funext (Expr.allOfJson?_eq_list? n)
  simp only [hlist, Expr.spellings_eq_map]
  exact reads_list fun k hk => ih k hk.le

theorem reads_binary (w : Json) (e : Expr) :
    Expr.ofJson? (n + 2) (single "Binary" w) = some e ↔
      e.SpelledBy (single "Binary" w) ∧ (single "Binary" w).nestingAt .expr ≤ n + 2 := by
  have hspelled : e.SpelledBy (single "Binary" w) ↔ ∃ i : Expr × BinOp × Expr,
      IsRecord [.required "lhs" i.1.SpelledBy, .required "op" i.2.1.SpelledBy,
        .required "rhs" i.2.2.SpelledBy] w ∧ .binary i.1 i.2.1 i.2.2 = e := by
    cases e <;> simp [Expr.SpelledBy, single]
  refine reads_single_iff rfl ?_ hspelled
  rw [single, Expr.ofJson?]
  refine bind_fields?_eq_some_iff (p := .binary) ?_ fun found => ?_
  · exact fun _ => rfl
  simp only [Place.keys, List.zip_cons_cons, List.zip_nil_right, List.forall₂_cons_left_iff,
    List.forall₂_nil_left_iff, fits_required_iff (ih n le_rfl), fits_required_iff (BinOp.reads n)]
  -- Either the three fields are there, and both sides read them, or neither side gives anything.
  split
  · simp [Option.bind_eq_some_iff, and_assoc]
  · simp_all

theorem reads_call (w : Json) (e : Expr) :
    Expr.ofJson? (n + 2) (single "Call" w) = some e ↔
      e.SpelledBy (single "Call" w) ∧ (single "Call" w).nestingAt .expr ≤ n + 2 := by
  have hspelled : e.SpelledBy (single "Call" w) ↔ ∃ i : String × List Expr,
      IsRecord [.required "method" (IsText i.1),
        ⟨"args", IsArray (Expr.spellings i.2), i.2 = []⟩] w ∧ .call i.1 i.2 = e := by
    cases e <;> simp [Expr.SpelledBy, single]
  refine reads_single_iff rfl ?_ hspelled
  rw [single, Expr.ofJson?]
  refine bind_fields?_eq_some_iff (p := .call) ?_ fun found => ?_
  · exact fun _ => rfl
  simp only [Place.keys, List.zip_cons_cons, List.zip_nil_right, List.forall₂_cons_left_iff,
    List.forall₂_nil_left_iff, fits_required_iff (reads_text .plain n),
    fits_defaulted_iff (reads_all ih)]
  split
  · simp [Option.bind_eq_some_iff, and_assoc]
  · simp_all

end Records

theorem reads (n : Nat) : Reads (Expr.ofJson? n) .expr n Expr.SpelledBy := by
  induction n using Nat.strongRecOn with
  | ind n ih =>
  intro v e
  fun_cases Expr.ofJson? n v with
  | case1 n w =>
    refine reads_single_iff rfl (map_read_eq_some_iff (Literal.reads n)) ?_
    cases e <;> simp [Expr.SpelledBy]
  | case2 n w =>
    refine reads_single_iff rfl (map_read_eq_some_iff (reads_text .plain n)) ?_
    cases e <;> simp [Expr.SpelledBy]
  | case3 n w =>
    have h := reads_binary (n := n) (fun k hk => ih k (by omega)) w e
    rwa [single, Expr.ofJson?] at h
  | case4 n w =>
    have h := reads_call (n := n) (fun k hk => ih k (by omega)) w e
    rwa [single, Expr.ofJson?] at h
  | case5 n v hlit hvar hbinary hcall =>
    -- The reader knows no other form, and every spelling is of one that it knows.
    simp only [reduceCtorEq, false_iff, not_and]
    intro h hn
    cases e with
    | lit l =>
      obtain ⟨k, w, rfl, rfl, -⟩ := IsVariant.form h rfl hn
      exact hlit k w rfl rfl
    | var x =>
      obtain ⟨k, w, rfl, rfl, -⟩ := IsVariant.form h rfl hn
      exact hvar k w rfl rfl
    | binary lhs op rhs =>
      obtain ⟨k, w, rfl, rfl⟩ := IsVariant.form_of_isRecord (p := .binary) rfl h rfl hn
      exact hbinary k w rfl rfl
    | call method args =>
      obtain ⟨k, w, rfl, rfl⟩ := IsVariant.form_of_isRecord (p := .call) rfl h rfl hn
      exact hcall k w rfl rfl

end Expr

theorem WriteItem.reads (n : Nat) :
    Reads (WriteItem.ofJson? n) .writeItem n WriteItem.SpelledBy := by
  intro v item
  fun_cases WriteItem.ofJson? n v with
  | case1 n w =>
    refine reads_single_iff rfl (map_read_eq_some_iff (Expr.reads n)) ?_
    cases item <;> simp [WriteItem.SpelledBy]
  | case2 n w =>
    refine reads_single_iff rfl (map_read_eq_some_iff (reads_text .plain n)) ?_
    cases item <;> simp [WriteItem.SpelledBy]
  | case3 n v hexpr htext =>
    simp only [reduceCtorEq, false_iff, not_and]
    intro h hn
    cases item with
    | expr e =>
      obtain ⟨k, w, rfl, rfl, -⟩ := IsVariant.form h rfl hn
      exact hexpr k w rfl rfl
    | text s =>
      obtain ⟨k, w, rfl, rfl, -⟩ := IsVariant.form h rfl hn
      exact htext k w rfl rfl

/-! ### Statements -/

theorem Stmt.spellings_eq_map (body : List Stmt) :
    Stmt.spellings body = body.map Stmt.SpelledBy := by
  induction body with
  | nil => rfl
  | cons st rest ih => rw [Stmt.spellings, ih, List.map_cons]

theorem Stmt.spelling?_eq_map (st : Option Stmt) : Stmt.spelling? st = st.map Stmt.SpelledBy := by
  cases st <;> rfl

theorem Stmt.not_spelledBy_null (st : Stmt) : ¬st.SpelledBy .null := by
  cases st <;> simp [Stmt.SpelledBy, IsVariant, IsBare, single, Json.text]

theorem TyName.mk_eq_iff {s : String} {ty : TyName} : TyName.mk s = ty ↔ s = ty.text := by
  cases ty
  simp

theorem TyName.map_mk_eq_iff {s : Option String} {ty : Option TyName} :
    s.map TyName.mk = ty ↔ s = ty.map TyName.text := by
  cases s <;> cases ty <;> simp [TyName.mk_eq_iff]

namespace Stmt

theorem reads_declare (n : Nat) (w : Json) (st : Stmt) :
    Stmt.ofJson? (n + 2) (single "Declare" w) = some st ↔
      st.SpelledBy (single "Declare" w) ∧ (single "Declare" w).nestingAt .stmt ≤ n + 2 := by
  have hspelled : st.SpelledBy (single "Declare" w) ↔ ∃ i : String × String,
      IsRecord [.required "name" (IsText i.1), .required "ty" (IsText i.2)] w ∧
        .declare i.1 ⟨i.2⟩ = st := by
    cases st <;> simp [Stmt.SpelledBy, single, TyName.mk_eq_iff]
  refine reads_single_iff rfl ?_ hspelled
  rw [single, Stmt.ofJson?]
  refine bind_fields?_eq_some_iff (p := .declare) ?_ fun found => ?_
  · exact fun _ => rfl
  simp only [Place.keys, List.zip_cons_cons, List.zip_nil_right, List.forall₂_cons_left_iff,
    List.forall₂_nil_left_iff, fits_required_iff (reads_text .plain n)]
  split
  · simp [Option.bind_eq_some_iff, and_assoc]
  · simp_all

theorem reads_assign (n : Nat) (w : Json) (st : Stmt) :
    Stmt.ofJson? (n + 2) (single "Assign" w) = some st ↔
      st.SpelledBy (single "Assign" w) ∧ (single "Assign" w).nestingAt .stmt ≤ n + 2 := by
  have hspelled : st.SpelledBy (single "Assign" w) ↔ ∃ i : String × Expr,
      IsRecord [.required "name" (IsText i.1), .required "value" i.2.SpelledBy] w ∧
        .assign i.1 i.2 = st := by
    cases st <;> simp [Stmt.SpelledBy, single]
  refine reads_single_iff rfl ?_ hspelled
  rw [single, Stmt.ofJson?]
  refine bind_fields?_eq_some_iff (p := .assign) ?_ fun found => ?_
  · exact fun _ => rfl
  simp only [Place.keys, List.zip_cons_cons, List.zip_nil_right, List.forall₂_cons_left_iff,
    List.forall₂_nil_left_iff, fits_required_iff (reads_text .plain n),
    fits_required_iff (Expr.reads n)]
  split
  · simp [Option.bind_eq_some_iff, and_assoc]
  · simp_all

section Records

variable (ih : ∀ k ≤ n, Reads (Stmt.ofJson? k) .stmt k Stmt.SpelledBy)

include ih

theorem reads_all_of_reads :
    Reads (Stmt.allOfJson? n) (.list .stmt) n fun body => IsArray (Stmt.spellings body) := by
  have hlist : Stmt.allOfJson? n = list? n Stmt.ofJson? := funext (Stmt.allOfJson?_eq_list? n)
  simp only [hlist, Stmt.spellings_eq_map]
  exact reads_list fun k hk => ih k hk.le

theorem reads_ite (w : Json) (st : Stmt) :
    Stmt.ofJson? (n + 2) (single "If" w) = some st ↔
      st.SpelledBy (single "If" w) ∧ (single "If" w).nestingAt .stmt ≤ n + 2 := by
  have hspelled : st.SpelledBy (single "If" w) ↔ ∃ i : Expr × Stmt × Option Stmt,
      IsRecord [.required "cond" i.1.SpelledBy, .required "then_" i.2.1.SpelledBy,
        ⟨"else_", IsOptional (i.2.2.map Stmt.SpelledBy), i.2.2 = none⟩] w ∧
        .ite i.1 i.2.1 i.2.2 = st := by
    cases st <;> simp [Stmt.SpelledBy, single, Stmt.spelling?_eq_map]
  refine reads_single_iff rfl ?_ hspelled
  rw [single, Stmt.ofJson?]
  refine bind_fields?_eq_some_iff (p := .ite) ?_ fun found => ?_
  · exact fun _ => rfl
  simp only [Place.keys, List.zip_cons_cons, List.zip_nil_right, List.forall₂_cons_left_iff,
    List.forall₂_nil_left_iff, fits_required_iff (Expr.reads n), fits_required_iff (ih n le_rfl),
    fits_defaulted_iff (reads_nullable (ih n le_rfl) Stmt.not_spelledBy_null)]
  split
  · simp [Option.bind_eq_some_iff, and_assoc]
  · simp_all

theorem reads_doWhile (w : Json) (st : Stmt) :
    Stmt.ofJson? (n + 2) (single "While" w) = some st ↔
      st.SpelledBy (single "While" w) ∧ (single "While" w).nestingAt .stmt ≤ n + 2 := by
  have hspelled : st.SpelledBy (single "While" w) ↔ ∃ i : Expr × Stmt,
      IsRecord [.required "cond" i.1.SpelledBy, .required "body" i.2.SpelledBy] w ∧
        .doWhile i.1 i.2 = st := by
    cases st <;> simp [Stmt.SpelledBy, single]
  refine reads_single_iff rfl ?_ hspelled
  rw [single, Stmt.ofJson?]
  refine bind_fields?_eq_some_iff (p := .doWhile) ?_ fun found => ?_
  · exact fun _ => rfl
  simp only [Place.keys, List.zip_cons_cons, List.zip_nil_right, List.forall₂_cons_left_iff,
    List.forall₂_nil_left_iff, fits_required_iff (Expr.reads n), fits_required_iff (ih n le_rfl)]
  split
  · simp [Option.bind_eq_some_iff, and_assoc]
  · simp_all

end Records

theorem reads (n : Nat) : Reads (Stmt.ofJson? n) .stmt n Stmt.SpelledBy := by
  induction n using Nat.strongRecOn with
  | ind n ih =>
  intro v st
  fun_cases Stmt.ofJson? n v with
  | case1 n | case2 n =>
    cases st <;> simp [Stmt.SpelledBy, IsBare, IsVariant, Json.text, single, nestingAt]
  | case3 n =>
    have hread : some Stmt.brk = some st ↔ .brk = st ∧ nestingAt .plain .null ≤ n := by
      simp [nestingAt]
    refine reads_single_iff rfl hread ?_
    cases st <;> simp [Stmt.SpelledBy]
  | case4 n =>
    have hread : some Stmt.ret = some st ↔ .ret = st ∧ nestingAt .plain .null ≤ n := by
      simp [nestingAt]
    refine reads_single_iff rfl hread ?_
    cases st <;> simp [Stmt.SpelledBy]
  | case5 n w =>
    have h := reads_declare n w st
    rwa [single, Stmt.ofJson?] at h
  | case6 n w =>
    have h := reads_assign n w st
    rwa [single, Stmt.ofJson?] at h
  | case7 n w | case8 n w =>
    have hall := reads_all_of_reads (n := n) fun k hk => ih k (by omega)
    rw [bind_pure_comp, Option.map_eq_map]
    refine reads_single_iff rfl (map_read_eq_some_iff hall) ?_
    cases st <;> simp [Stmt.SpelledBy]
  | case9 n w =>
    have h := reads_ite (n := n) (fun k hk => ih k (by omega)) w st
    rwa [single, Stmt.ofJson?] at h
  | case10 n w =>
    have h := reads_doWhile (n := n) (fun k hk => ih k (by omega)) w st
    rwa [single, Stmt.ofJson?] at h
  | case11 n w =>
    have htexts := reads_list (n := n) fun k _ => reads_text .plain k
    rw [bind_pure_comp, Option.map_eq_map]
    refine reads_single_iff rfl (map_read_eq_some_iff htexts) ?_
    cases st <;> simp [Stmt.SpelledBy]
  | case12 n w =>
    have hitems := reads_list (n := n) fun k _ => WriteItem.reads k
    rw [bind_pure_comp, Option.map_eq_map]
    refine reads_single_iff rfl (map_read_eq_some_iff hitems) ?_
    cases st <;> simp [Stmt.SpelledBy]
  | case13 n w =>
    rw [bind_pure_comp, Option.map_eq_map]
    refine reads_single_iff rfl (map_read_eq_some_iff (Expr.reads n)) ?_
    cases st <;> simp [Stmt.SpelledBy]
  | case14 n v hbrk hret hbrk' hret' hdeclare hassign hblock hseq hite hwhile hread hwrite
      hinvoke =>
    -- The reader knows no other form, and every spelling is of one that it knows.
    simp only [reduceCtorEq, false_iff, not_and]
    intro h hn
    cases st with
    | brk =>
      obtain rfl | ⟨k, rfl, rfl⟩ := IsBare.form h hn
      · exact hbrk rfl
      · exact hbrk' k rfl rfl
    | ret =>
      obtain rfl | ⟨k, rfl, rfl⟩ := IsBare.form h hn
      · exact hret rfl
      · exact hret' k rfl rfl
    | declare x ty =>
      obtain ⟨k, w, rfl, rfl⟩ := IsVariant.form_of_isRecord (p := .declare) rfl h rfl hn
      exact hdeclare k w rfl rfl
    | assign x value =>
      obtain ⟨k, w, rfl, rfl⟩ := IsVariant.form_of_isRecord (p := .assign) rfl h rfl hn
      exact hassign k w rfl rfl
    | ite cond yes no =>
      obtain ⟨k, w, rfl, rfl⟩ := IsVariant.form_of_isRecord (p := .ite) rfl h rfl hn
      exact hite k w rfl rfl
    | doWhile cond body =>
      obtain ⟨k, w, rfl, rfl⟩ := IsVariant.form_of_isRecord (p := .doWhile) rfl h rfl hn
      exact hwhile k w rfl rfl
    | block body =>
      obtain ⟨k, w, rfl, rfl, -⟩ := IsVariant.form h rfl hn
      exact hblock k w rfl rfl
    | seq body =>
      obtain ⟨k, w, rfl, rfl, -⟩ := IsVariant.form h rfl hn
      exact hseq k w rfl rfl
    | read targets =>
      obtain ⟨k, w, rfl, rfl, -⟩ := IsVariant.form h rfl hn
      exact hread k w rfl rfl
    | write items =>
      obtain ⟨k, w, rfl, rfl, -⟩ := IsVariant.form h rfl hn
      exact hwrite k w rfl rfl
    | invoke e =>
      obtain ⟨k, w, rfl, rfl, -⟩ := IsVariant.form h rfl hn
      exact hinvoke k w rfl rfl

theorem reads_all (n : Nat) :
    Reads (Stmt.allOfJson? n) (.list .stmt) n fun body => IsArray (Stmt.spellings body) :=
  reads_all_of_reads fun k _ => reads k

end Stmt

/-! ### Programs -/

theorem MethodDecl.reads (n : Nat) :
    Reads (MethodDecl.ofJson? n) .method n MethodDecl.SpelledBy := by
  intro v decl
  cases n with
  | zero =>
    simp only [MethodDecl.ofJson?, reduceCtorEq, false_iff, not_and]
    intro h hn
    obtain ⟨k, hk⟩ := IsRecord.pos_of_nestingAt_le (p := .method) rfl h hn
    cases hk
  | succ n =>
    have hspelled : decl.SpelledBy v ↔ ∃ i : String × Option String × List String × List Stmt,
        IsRecord [.required "name" (IsText i.1),
          ⟨"ret_ty", IsOptional (i.2.1.map IsText), i.2.1 = none⟩,
          ⟨"params", IsArray (i.2.2.1.map IsText), i.2.2.1 = []⟩,
          .required "body" (IsArray (Stmt.spellings i.2.2.2))] v ∧
          (⟨i.1, i.2.1.map TyName.mk, i.2.2.1, i.2.2.2⟩ : MethodDecl) = decl := by
      obtain ⟨name, returns, params, body⟩ := decl
      simp [MethodDecl.SpelledBy, TyName.map_mk_eq_iff, Function.comp_def]
    rw [hspelled, MethodDecl.ofJson?]
    refine bind_fields?_eq_some_iff (p := .method) ?_ fun found => ?_
    · exact fun _ => rfl
    simp only [Place.keys, List.zip_cons_cons, List.zip_nil_right, List.forall₂_cons_left_iff,
      List.forall₂_nil_left_iff, fits_required_iff (reads_text .plain n),
      fits_defaulted_iff (reads_nullable (reads_text .plain n) not_isText_null),
      fits_defaulted_iff (reads_list fun k _ => reads_text .plain k),
      fits_required_iff (Stmt.reads_all n)]
    split
    · simp [Option.bind_eq_some_iff, and_assoc]
    · simp_all

theorem Tree.reads (n : Nat) : Reads (Tree.ofJson? n) .program n Tree.SpelledBy := by
  intro v tree
  cases n with
  | zero =>
    simp only [Tree.ofJson?, reduceCtorEq, false_iff, not_and]
    intro h hn
    obtain ⟨k, hk⟩ := IsRecord.pos_of_nestingAt_le (p := .program) rfl h hn
    cases hk
  | succ n =>
    have hspelled : tree.SpelledBy v ↔ ∃ i : String × List Stmt × List MethodDecl × Option String,
        IsRecord [⟨"name", IsText i.1, i.1 = ""⟩,
          ⟨"fields", IsArray (Stmt.spellings i.2.1), i.2.1 = []⟩,
          ⟨"methods", IsArray (i.2.2.1.map MethodDecl.SpelledBy), i.2.2.1 = []⟩,
          ⟨"entry", IsOptional (i.2.2.2.map IsText), i.2.2.2 = none⟩] v ∧
          (⟨i.1, i.2.1, i.2.2.1, i.2.2.2⟩ : Tree) = tree := by
      obtain ⟨name, fields, methods, entry⟩ := tree
      simp [Tree.SpelledBy]
    rw [hspelled, Tree.ofJson?]
    refine bind_fields?_eq_some_iff (p := .program) ?_ fun found => ?_
    · exact fun _ => rfl
    simp only [Place.keys, List.zip_cons_cons, List.zip_nil_right, List.forall₂_cons_left_iff,
      List.forall₂_nil_left_iff, fits_defaulted_iff (reads_text .plain n),
      fits_defaulted_iff (reads_nullable (reads_text .plain n) not_isText_null),
      fits_defaulted_iff (reads_list fun k _ => MethodDecl.reads k),
      fits_defaulted_iff (Stmt.reads_all n)]
    split
    · simp [Option.bind_eq_some_iff, and_assoc]
    · simp_all

/-- A value is read as a tree exactly if it spells the tree and, without what stands under unknown
keys, does not nest too deeply; and a value spells one tree at most. -/
theorem Tree.ofJson?_eq_some_iff_spelledBy (v : Json) (tree : Tree) :
    (Tree.ofJson? maxNesting v = some tree ↔
      tree.SpelledBy v ∧ v.nestingAt .program ≤ maxNesting) ∧
    (tree.SpelledBy v → ∀ other : Tree, other.SpelledBy v → other = tree) := by
  refine ⟨Tree.reads maxNesting v tree, fun htree other hother => ?_⟩
  have hread := (Tree.reads _ v tree).2 ⟨htree, le_rfl⟩
  have hreadOther := (Tree.reads _ v other).2 ⟨hother, le_rfl⟩
  exact Option.some.inj (hreadOther.symm.trans hread)

/-- An object with a key that is not known, and an array, in which what has a default is missing
and a statement without parts stands in both its forms. -/
def oddlySpelled : Json :=
  .obj [
    (some "fields", .arr [.single "Seq" (.arr [
      .single "Break" .null, .text "Return",
      .single "Invoke" (.single "Call" (.arr [.text "f"]))])]),
    (some "comment", .arr [.arr [.null]])]

def oddTree : Tree := ⟨"", [.seq [.brk, .ret, .invoke (.call "f" [])]], [], none⟩

theorem oddTree_spelledBy : oddTree.SpelledBy oddlySpelled := by
  have hcall : (Expr.call "f" []).SpelledBy (.single "Call" (.arr [.text "f"])) :=
    ⟨_, rfl, [_], [_], rfl, by simp [IsText, Field.required], by simp⟩
  have hseq : (Stmt.seq [.brk, .ret, .invoke (.call "f" [])]).SpelledBy
      (.single "Seq" (.arr [.single "Break" .null, .text "Return",
        .single "Invoke" (.single "Call" (.arr [.text "f"]))])) :=
    ⟨_, rfl, _, rfl, .cons (.inr rfl) (.cons (.inl rfl) (.cons ⟨_, rfl, hcall⟩ .nil))⟩
  refine ⟨by simp, ?_⟩
  simp only [List.forall_mem_cons]
  exact ⟨.inl ⟨rfl, rfl⟩, .inr ⟨_, rfl, _, rfl, .cons hseq .nil⟩, .inl ⟨rfl, rfl⟩,
    .inl ⟨rfl, rfl⟩, by simp⟩

theorem oddlySpelled_read : Tree.ofJson? maxNesting oddlySpelled = some oddTree :=
  (Tree.ofJson?_eq_some_iff_spelledBy oddlySpelled oddTree).1.2 ⟨oddTree_spelledBy, by decide⟩

/-- A text is read as a tree exactly if it is not too long and has the form of a value that is. -/
theorem Tree.ofText_eq_ok_iff {src : String} {tree : Tree} :
    Tree.ofText src = .ok tree ↔ src.utf8ByteSize ≤ maxTextSize ∧
      ∃ v, Json.ofText? src = some v ∧ tree.SpelledBy v ∧ v.nestingAt .program ≤ maxNesting := by
  have hread : ∀ v, Tree.ofJson? maxNesting v = some tree ↔
      tree.SpelledBy v ∧ v.nestingAt .program ≤ maxNesting := (Tree.reads maxNesting · tree)
  simp only [← hread, ← Option.bind_eq_some_iff]
  rw [Tree.ofText]
  split
  · next hlong => simp [Nat.not_le.2 hlong]
  · next hlong =>
    cases (Json.ofText? src).bind (Tree.ofJson? maxNesting) <;> simp [Nat.not_lt.1 hlong]

end MethodLang
