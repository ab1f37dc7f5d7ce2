import MethodLang.CommandLine
import MethodLang.Proofs.Tree.Acceptance

/-!
# Loading what was shown

The JSON form in which a tree is shown need not be the one that it was loaded from: it spells out
what a text may leave out. It does not nest much more deeply, though. A call without arguments may
leave out the empty list, which is one array more, and that is all; so a tree that was loaded from a
text is shown in a form that nests in at most one array more than may be gone into. Such a tree is
loaded from what is shown of it unless it has this one array too many.
-/

namespace MethodLang

namespace Json

variable {α β : Type} {n : Nat} {p q : Place} {name : String} {v w : Json} {items : List Json}
  {members : List (String × Json)}

/-! ### Nesting of what is written -/

@[simp] theorem nesting_text (s : String) : (text s).nesting = 0 := by rw [text, nesting]

theorem nesting_elim_text_le (f : α → String) (a : Option α) :
    (a.elim .null fun a => text (f a)).nesting ≤ n := by
  cases a <;> simp [nesting]

theorem nesting_single_le_succ_iff : (single name w).nesting ≤ n + 1 ↔ w.nesting ≤ n := by
  simp [nesting_single_le_iff]

theorem nesting_record_le_succ_iff :
    (record members).nesting ≤ n + 1 ↔ ∀ m ∈ members, m.2.nesting ≤ n := by
  simp [nesting_record_le_iff]

theorem nesting_arr_le_succ_iff : (arr items).nesting ≤ n + 1 ↔ ∀ v ∈ items, v.nesting ≤ n := by
  simp [nesting_arr_le_iff]

/-- What is read by going into `n` arrays and objects is written with one more of them at most. -/
def Deepens (read : Json → Option α) (toJson : α → Json) (n : Nat) : Prop :=
  ∀ v a, read v = some a → (toJson a).nesting ≤ n + 1

variable {toJson : α → Json}

theorem deepens_text (n : Nat) : Deepens text? text n := fun _ s _ => by simp

theorem Deepens.list {read : Nat → Json → Option α} (h : ∀ k < n, Deepens (read k) toJson k) :
    Deepens (list? n read) (fun as => .arr (as.map toJson)) n := by
  intro v as
  fun_cases list? n read v with
  | case1 n items =>
    rw [mapM_eq_some_iff, nesting_arr_le_succ_iff, List.forall_mem_map]
    intro hread
    induction hread with
    | nil => simp
    | cons ha _ ih => exact List.forall_mem_cons.2 ⟨h n n.lt_succ_self _ _ ha, ih⟩
  | case2 => simp

variable {read : Json → Option α}

theorem Deepens.nullable (h : Deepens read toJson n) :
    Deepens (nullable read) (fun a => a.elim .null toJson) n := by
  intro v a
  fun_cases Json.nullable read v with
  | case1 =>
    rintro ⟨⟩
    simp [nesting]
  | case2 v =>
    intro hread
    obtain ⟨a, ha, rfl⟩ := Option.map_eq_some_iff.1 hread
    exact h v a ha

theorem Deepens.orDefault (h : Deepens read toJson n) {d a : α} {x : Option Json}
    (hd : (toJson d).nesting ≤ n + 1) (hread : orDefault d read x = some a) :
    (toJson a).nesting ≤ n + 1 := by
  cases x with
  | none =>
    cases hread
    exact hd
  | some v => exact h v a hread

theorem Deepens.single (h : Deepens read toJson n) {make : α → β} {b : β} {toJson' : β → Json}
    (hmake : ∀ a, toJson' (make a) = .single name (toJson a)) (hread : (read w).map make = some b) :
    (toJson' b).nesting ≤ n + 1 + 1 := by
  obtain ⟨a, ha, rfl⟩ := Option.map_eq_some_iff.1 hread
  rw [hmake, nesting_single_le_succ_iff]
  exact h w a ha

/-! ### Keys of what is written -/

theorem nestingAt_arr_eq (h : ∀ v ∈ items, v.nestingAt p = v.nesting) :
    (arr items).nestingAt (.list p) = (arr items).nesting := by
  have hitems : ∀ i, itemNestingAt (.list p) i items = itemNesting items := by
    induction items with
    | nil => exact fun _ => rfl
    | cons v vs ih =>
      rw [List.forall_mem_cons] at h
      intro i
      rw [itemNestingAt, itemNesting, Place.itemAt, h.1, ih h.2]
  rw [nestingAt, nesting, hitems]

theorem nestingAt_record_eq
    (h : ∀ m ∈ members, ∃ q, p.under? (some m.1) = some q ∧ m.2.nestingAt q = m.2.nesting) :
    (record members).nestingAt p = (record members).nesting := by
  have hmembers : memberNestingAt p (members.map fun m => (some m.1, m.2)) =
      memberNesting (members.map fun m => (some m.1, m.2)) := by
    induction members with
    | nil => rfl
    | cons m ms ih =>
      rw [List.forall_mem_cons] at h
      obtain ⟨⟨q, hq, hm⟩, hms⟩ := h
      simp only [List.map_cons, memberNestingAt, memberNesting, hq, hm, ih hms]
  rw [record, nestingAt, nesting, hmembers]

theorem nestingAt_single_eq (hplace : p.under? (some name) = some q)
    (h : w.nestingAt q = w.nesting) : (single name w).nestingAt p = (single name w).nesting := by
  have hrecord : single name w = record [(name, w)] := rfl
  rw [hrecord]
  exact nestingAt_record_eq (by simp [hplace, h])

end Json

open Json

variable {n : Nat} {v : Json}

/-! ### Expressions -/

theorem Literal.deepens (n : Nat) : Deepens (Literal.ofJson? n) Literal.toJson n := by
  intro v l
  fun_cases Literal.ofJson? n v with
  | case1 n i =>
    intro h
    obtain ⟨a, -, rfl⟩ := Option.map_eq_some_iff.1 h
    rw [Literal.toJson, nesting_single_le_succ_iff]
    simp [nesting]
  | case2 n b =>
    rintro ⟨⟩
    rw [Literal.toJson, nesting_single_le_succ_iff]
    simp [nesting]
  | case3 => simp

theorem Expr.deepens (n : Nat) : Deepens (Expr.ofJson? n) Expr.toJson n := by
  induction n using Nat.strongRecOn with
  | ind n ih =>
  intro v e
  fun_cases Expr.ofJson? n v with
  | case1 n w => exact (Literal.deepens n).single fun l => by rw [Expr.toJson]
  | case2 n w => exact (deepens_text n).single fun x => by rw [Expr.toJson]
  | case3 n w =>
    have ih := ih n (by omega)
    simp only [Option.bind_eq_bind, Option.bind_eq_some_iff]
    rintro ⟨found, -, h⟩
    split at h
    · simp only [Option.bind_eq_some_iff, Option.pure_def, Option.some.injEq] at h
      obtain ⟨lhs, hlhs, op, -, rhs, hrhs, rfl⟩ := h
      have hlhs := ih _ _ hlhs
      have hrhs := ih _ _ hrhs
      rw [Expr.toJson, nesting_single_le_succ_iff, nesting_record_le_succ_iff]
      simp [hlhs, hrhs]
    · cases h
  | case4 n w =>
    have hargs : Deepens (list? n Expr.ofJson?) (fun es => .arr (es.map Expr.toJson)) n :=
      .list fun k hk => ih k (by omega)
    simp only [Option.bind_eq_bind, Option.bind_eq_some_iff, Expr.allOfJson?_eq_list?]
    rintro ⟨found, -, h⟩
    split at h
    · simp only [Option.bind_eq_some_iff, Option.pure_def, Option.some.injEq] at h
      obtain ⟨method, -, args, hread, rfl⟩ := h
      have hargs := hargs.orDefault (by simp [nesting, itemNesting]) hread
      rw [Expr.toJson, Expr.allToJson_eq_map, nesting_single_le_succ_iff,
        nesting_record_le_succ_iff]
      simp [hargs]
    · cases h
  | case5 => simp

theorem Literal.nestingAt_toJson (l : Literal) :
    l.toJson.nestingAt .literal = l.toJson.nesting := by
  cases l <;> rfl

theorem Expr.nestingAt_toJson (e : Expr) : e.toJson.nestingAt .expr = e.toJson.nesting := by
  induction e using Expr.parts_induction with
  | step e ih =>
    cases e with
    | lit l =>
      rw [Expr.toJson]
      exact nestingAt_single_eq rfl l.nestingAt_toJson
    | var x => rfl
    | binary lhs op rhs =>
      simp only [Expr.parts, List.forall_mem_cons] at ih
      rw [Expr.toJson]
      refine nestingAt_single_eq rfl (nestingAt_record_eq ?_)
      simp only [List.forall_mem_cons]
      exact ⟨⟨_, rfl, ih.1⟩, ⟨_, rfl, rfl⟩, ⟨_, rfl, ih.2.1⟩, by simp⟩
    | call method args =>
      rw [Expr.toJson, Expr.allToJson_eq_map]
      refine nestingAt_single_eq rfl (nestingAt_record_eq ?_)
      simp only [List.forall_mem_cons]
      exact ⟨⟨_, rfl, rfl⟩, ⟨_, rfl, nestingAt_arr_eq (List.forall_mem_map.2 ih)⟩, by simp⟩

/-! ### Statements -/

theorem WriteItem.deepens (n : Nat) : Deepens (WriteItem.ofJson? n) WriteItem.toJson n := by
  intro v item
  fun_cases WriteItem.ofJson? n v with
  | case1 n w => exact (Expr.deepens n).single fun e => rfl
  | case2 n w => exact (deepens_text n).single fun s => rfl
  | case3 => simp

theorem WriteItem.nestingAt_toJson (item : WriteItem) :
    item.toJson.nestingAt .writeItem = item.toJson.nesting := by
  cases item with
  | expr e => exact nestingAt_single_eq rfl e.nestingAt_toJson
  | text s => rfl

theorem Stmt.optionToJson_eq_elim (no : Option Stmt) :
    Stmt.optionToJson no = no.elim .null Stmt.toJson := by
  cases no <;> rfl

theorem Stmt.deepens (n : Nat) : Deepens (Stmt.ofJson? n) Stmt.toJson n := by
  induction n using Nat.strongRecOn with
  | ind n ih =>
  intro v st
  fun_cases Stmt.ofJson? n v with
  | case1 | case2 | case3 | case4 =>
    rintro ⟨⟩
    rw [Stmt.toJson, nesting_text]
    omega
  | case5 n w =>
    simp only [Option.bind_eq_bind, Option.bind_eq_some_iff]
    rintro ⟨found, -, h⟩
    split at h
    · simp only [Option.bind_eq_some_iff, Option.pure_def, Option.some.injEq] at h
      obtain ⟨x, -, ty, -, rfl⟩ := h
      rw [Stmt.toJson, nesting_single_le_succ_iff, nesting_record_le_succ_iff]
      simp
    · cases h
  | case6 n w =>
    simp only [Option.bind_eq_bind, Option.bind_eq_some_iff]
    rintro ⟨found, -, h⟩
    split at h
    · simp only [Option.bind_eq_some_iff, Option.pure_def, Option.some.injEq] at h
      obtain ⟨x, -, value, hvalue, rfl⟩ := h
      have hvalue := Expr.deepens n _ _ hvalue
      rw [Stmt.toJson, nesting_single_le_succ_iff, nesting_record_le_succ_iff]
      simp [hvalue]
    · cases h
  | case7 n w | case8 n w =>
    have hbody : Deepens (list? n Stmt.ofJson?) (fun body => .arr (body.map Stmt.toJson)) n :=
      .list fun k hk => ih k (by omega)
    rw [Stmt.allOfJson?_eq_list?, bind_pure_comp, Option.map_eq_map]
    exact hbody.single fun body => by rw [Stmt.toJson, Stmt.allToJson_eq_map]
  | case9 n w =>
    have ih := ih n (by omega)
    simp only [Option.bind_eq_bind, Option.bind_eq_some_iff]
    rintro ⟨found, -, h⟩
    split at h
    · simp only [Option.bind_eq_some_iff, Option.pure_def, Option.some.injEq] at h
      obtain ⟨cond, hcond, yes, hyes, no, hno, rfl⟩ := h
      have hcond := Expr.deepens n _ _ hcond
      have hyes := ih _ _ hyes
      have hno := ih.nullable.orDefault (by simp [nesting]) hno
      rw [Stmt.toJson, Stmt.optionToJson_eq_elim, nesting_single_le_succ_iff,
        nesting_record_le_succ_iff]
      simp [hcond, hyes, hno]
    · cases h
  | case10 n w =>
    have ih := ih n (by omega)
    simp only [Option.bind_eq_bind, Option.bind_eq_some_iff]
    rintro ⟨found, -, h⟩
    split at h
    · simp only [Option.bind_eq_some_iff, Option.pure_def, Option.some.injEq] at h
      obtain ⟨cond, hcond, body, hbody, rfl⟩ := h
      have hcond := Expr.deepens n _ _ hcond
      have hbody := ih _ _ hbody
      rw [Stmt.toJson, nesting_single_le_succ_iff, nesting_record_le_succ_iff]
      simp [hcond, hbody]
    · cases h
  | case11 n w =>
    have htargets : Deepens (list? n fun _ => text?) (fun targets => .arr (targets.map .text)) n :=
      .list fun k _ => deepens_text k
    rw [bind_pure_comp, Option.map_eq_map]
    exact htargets.single fun targets => by rw [Stmt.toJson]
  | case12 n w =>
    have hitems : Deepens (list? n WriteItem.ofJson?)
        (fun items => .arr (items.map WriteItem.toJson)) n :=
      .list fun k _ => WriteItem.deepens k
    rw [bind_pure_comp, Option.map_eq_map]
    exact hitems.single fun items => by rw [Stmt.toJson]
  | case13 n w =>
    rw [bind_pure_comp, Option.map_eq_map]
    exact (Expr.deepens n).single fun e => by rw [Stmt.toJson]
  | case14 => simp

theorem Stmt.deepens_all (n : Nat) :
    Deepens (Stmt.allOfJson? n) (fun body => .arr (Stmt.allToJson body)) n := by
  have hlist : Stmt.allOfJson? n = list? n Stmt.ofJson? := funext (Stmt.allOfJson?_eq_list? n)
  simp only [hlist, Stmt.allToJson_eq_map]
  exact .list fun k _ => Stmt.deepens k

theorem Stmt.nestingAt_toJson (st : Stmt) : st.toJson.nestingAt .stmt = st.toJson.nesting := by
  induction st using Stmt.parts_induction with
  | step st ih =>
    cases st with
    | declare x ty => rfl
    | assign x value =>
      rw [Stmt.toJson]
      refine nestingAt_single_eq rfl (nestingAt_record_eq ?_)
      simp only [List.forall_mem_cons]
      exact ⟨⟨_, rfl, rfl⟩, ⟨_, rfl, value.nestingAt_toJson⟩, by simp⟩
    | block body | seq body =>
      rw [Stmt.toJson, Stmt.allToJson_eq_map]
      exact nestingAt_single_eq rfl (nestingAt_arr_eq (List.forall_mem_map.2 ih))
    | ite cond yes no =>
      simp only [Stmt.parts, List.forall_mem_cons, Option.mem_toList] at ih
      have hno : (Stmt.optionToJson no).nestingAt .stmt = (Stmt.optionToJson no).nesting := by
        cases no with
        | none => rfl
        | some no => exact ih.2 no rfl
      rw [Stmt.toJson]
      refine nestingAt_single_eq rfl (nestingAt_record_eq ?_)
      simp only [List.forall_mem_cons]
      exact ⟨⟨_, rfl, cond.nestingAt_toJson⟩, ⟨_, rfl, ih.1⟩, ⟨_, rfl, hno⟩, by simp⟩
    | doWhile cond body =>
      simp only [Stmt.parts, List.forall_mem_cons] at ih
      rw [Stmt.toJson]
      refine nestingAt_single_eq rfl (nestingAt_record_eq ?_)
      simp only [List.forall_mem_cons]
      exact ⟨⟨_, rfl, cond.nestingAt_toJson⟩, ⟨_, rfl, ih.1⟩, by simp⟩
    | brk => rfl
    | ret => rfl
    | read targets =>
      rw [Stmt.toJson]
      exact nestingAt_single_eq rfl (nestingAt_arr_eq (List.forall_mem_map.2 fun _ _ => rfl))
    | write items =>
      rw [Stmt.toJson]
      exact nestingAt_single_eq rfl
        (nestingAt_arr_eq (List.forall_mem_map.2 fun item _ => item.nestingAt_toJson))
    | invoke value =>
      rw [Stmt.toJson]
      exact nestingAt_single_eq rfl value.nestingAt_toJson

theorem Stmt.nestingAt_allToJson (body : List Stmt) :
    nestingAt (.list .stmt) (.arr (Stmt.allToJson body)) =
      nesting (.arr (Stmt.allToJson body)) := by
  rw [Stmt.allToJson_eq_map]
  exact nestingAt_arr_eq (List.forall_mem_map.2 fun st _ => st.nestingAt_toJson)

/-! ### Programs -/

theorem MethodDecl.deepens (n : Nat) : Deepens (MethodDecl.ofJson? n) MethodDecl.toJson n := by
  intro v decl
  cases n with
  | zero => simp [MethodDecl.ofJson?]
  | succ n =>
    have hparams : Deepens (list? n fun _ => text?) (fun params => .arr (params.map .text)) n :=
      .list fun k _ => deepens_text k
    simp only [MethodDecl.ofJson?, Option.bind_eq_bind, Option.bind_eq_some_iff]
    rintro ⟨found, -, h⟩
    split at h
    · simp only [Option.bind_eq_some_iff, Option.pure_def, Option.some.injEq] at h
      obtain ⟨name, -, returns, -, params, hread, body, hbody, rfl⟩ := h
      have hparams := hparams.orDefault (by simp [nesting, itemNesting]) hread
      have hbody := Stmt.deepens_all n _ _ hbody
      rw [MethodDecl.toJson, nesting_record_le_succ_iff]
      simp only [List.forall_mem_cons]
      exact ⟨by simp, nesting_elim_text_le TyName.text _, hparams, hbody, by simp⟩
    · cases h

theorem MethodDecl.nestingAt_toJson (decl : MethodDecl) :
    decl.toJson.nestingAt .method = decl.toJson.nesting := by
  rw [MethodDecl.toJson]
  refine nestingAt_record_eq ?_
  simp only [List.forall_mem_cons]
  refine ⟨⟨_, rfl, rfl⟩, ⟨.plain, rfl, ?_⟩, ⟨_, rfl, ?_⟩, ⟨_, rfl, ?_⟩, by simp⟩
  · cases decl.returns <;> rfl
  · exact nestingAt_arr_eq (List.forall_mem_map.2 fun _ _ => rfl)
  · exact Stmt.nestingAt_allToJson decl.body

theorem Tree.deepens (n : Nat) : Deepens (Tree.ofJson? n) Tree.toJson n := by
  intro v tree
  cases n with
  | zero => simp [Tree.ofJson?]
  | succ n =>
    have hmethods : Deepens (list? n MethodDecl.ofJson?)
        (fun methods => .arr (methods.map MethodDecl.toJson)) n :=
      .list fun k _ => MethodDecl.deepens k
    simp only [Tree.ofJson?, Option.bind_eq_bind, Option.bind_eq_some_iff]
    rintro ⟨found, -, h⟩
    split at h
    · simp only [Option.bind_eq_some_iff, Option.pure_def, Option.some.injEq] at h
      obtain ⟨name, -, fields, hfields, methods, hread, entry, -, rfl⟩ := h
      have hfields := (Stmt.deepens_all n).orDefault
        (by simp [Stmt.allToJson, nesting, itemNesting]) hfields
      have hmethods := hmethods.orDefault (by simp [nesting, itemNesting]) hread
      rw [Tree.toJson, nesting_record_le_succ_iff]
      simp only [List.forall_mem_cons]
      exact ⟨by simp, hfields, hmethods, nesting_elim_text_le id _, by simp⟩
    · cases h

theorem Tree.nestingAt_toJson (tree : Tree) :
    tree.toJson.nestingAt .program = tree.toJson.nesting := by
  rw [Tree.toJson]
  refine nestingAt_record_eq ?_
  simp only [List.forall_mem_cons]
  refine ⟨⟨_, rfl, rfl⟩, ⟨_, rfl, ?_⟩, ⟨_, rfl, ?_⟩, ⟨.plain, rfl, ?_⟩, by simp⟩
  · exact Stmt.nestingAt_allToJson tree.fields
  · exact nestingAt_arr_eq (List.forall_mem_map.2 fun decl _ => decl.nestingAt_toJson)
  · cases tree.entry <;> rfl

/-- What a tree is written as is read back if it does not nest too deeply, and else not read. -/
theorem Tree.ofJson?_toJson (n : Nat) (tree : Tree) :
    Tree.ofJson? n tree.toJson = if tree.toJson.nesting ≤ n then some tree else none := by
  split
  · next hn => exact tree.writes_toJson.reads hn
  · next hn =>
    rw [Option.eq_none_iff_forall_ne_some]
    intro other hother
    have hnesting := ((Tree.reads n _ other).1 hother).2
    rw [tree.nestingAt_toJson] at hnesting
    exact hn hnesting

theorem Tree.ofText_toText_eq {layout : Layout} (hlayout : layout = .pretty ∨ layout = .compact)
    (tree : Tree) (hsize : (tree.toJson.toText layout).utf8ByteSize ≤ maxTextSize) :
    Tree.ofText (tree.toJson.toText layout) =
      if tree.toJson.nesting ≤ maxNesting then .ok tree else .error .malformed := by
  have hread : Json.ofText? (tree.toJson.toText layout) = some tree.toJson :=
    ofText?_toText (Layout.blank_of_printed hlayout) tree.writes_toJson.integral
  rw [Tree.ofText, if_neg (Nat.not_lt.2 hsize), hread, Option.bind_some, Tree.ofJson?_toJson]
  by_cases hnesting : tree.toJson.nesting ≤ maxNesting
  · rw [if_pos hnesting, if_pos hnesting]
  · rw [if_neg hnesting, if_neg hnesting]

theorem oddlySpelled_integral : oddlySpelled.Integral := by
  have hcall : (single "Invoke" (single "Call" (.arr [.text "f"]))).Integral :=
    .single (.single (.arr (by simp [integral_text])))
  have hseq : (single "Seq" (.arr [.single "Break" .null, .text "Return",
      .single "Invoke" (.single "Call" (.arr [.text "f"]))])).Integral := by
    refine .single (.arr ?_)
    simp only [List.forall_mem_cons]
    exact ⟨.single .null, integral_text _, hcall, by simp⟩
  refine .obj ?_
  simp only [List.forall_mem_cons]
  exact ⟨.arr (by simpa using hseq), .arr (by simp [Integral.arr, Integral.null]), by simp⟩

/-- What is shown of a tree that was loaded from a text has one array too many at most. The tree is
loaded from it again if it has none too many, as it has not if the text could have nested more
deeply, and what is shown is malformed otherwise. -/
theorem Tree.ofText_display {src : String} {tree : Tree} (hload : Tree.ofText src = .ok tree)
    (hsize : (tree.display .json).utf8ByteSize ≤ maxTextSize) :
    tree.toJson.nesting ≤ maxNesting + 1 ∧
    Tree.ofText (tree.display .json) =
      (if tree.toJson.nesting ≤ maxNesting then .ok tree else .error .malformed) ∧
    ∀ v, Json.ofText? src = some v → v.nestingAt .program < maxNesting →
      Tree.ofText (tree.display .json) = .ok tree := by
  obtain ⟨-, v, hv, hspelled, hn⟩ := Tree.ofText_eq_ok_iff.1 hload
  have hshown : Tree.ofText (tree.display .json) =
      if tree.toJson.nesting ≤ maxNesting then .ok tree else .error .malformed :=
    Tree.ofText_toText_eq (.inl rfl) tree hsize
  have hdeepens : ∀ n, v.nestingAt .program ≤ n → tree.toJson.nesting ≤ n + 1 := fun n hn =>
    Tree.deepens n v tree ((Tree.reads n v tree).2 ⟨hspelled, hn⟩)
  refine ⟨hdeepens _ hn, hshown, fun w hw hroom => ?_⟩
  obtain rfl : v = w := Option.some.inj (hv.symm.trans hw)
  rw [hshown, if_pos ((hdeepens _ le_rfl).trans hroom)]

theorem oddTree_reloaded :
    Tree.ofText (oddlySpelled.toText .compact) = .ok oddTree ∧
      Tree.ofText (oddTree.display .json) = .ok oddTree := by
  have hread : Json.ofText? (oddlySpelled.toText .compact) = some oddlySpelled :=
    ofText?_toText Layout.blank_compact oddlySpelled_integral
  have hload : Tree.ofText (oddlySpelled.toText .compact) = .ok oddTree := by
    refine Tree.ofText_eq_ok_iff.2 ⟨?_, oddlySpelled, hread, oddTree_spelledBy, by decide⟩
    rw [toText, String.utf8ByteSize_ofList]
    decide +kernel
  have hsize : (oddTree.display .json).utf8ByteSize ≤ maxTextSize := by
    rw [Tree.display, toText, String.utf8ByteSize_ofList]
    decide +kernel
  exact ⟨hload, (Tree.ofText_display hload hsize).2.2 oddlySpelled hread (by decide)⟩

/-! ### A call at the limit -/

namespace Json

/-- A value inside `n` sequences. -/
def inSeqs : Nat → Json → Json
  | 0, v => v
  | n + 1, v => .single "Seq" (.arr [inSeqs n v])

theorem Integral.inSeqs (h : v.Integral) (n : Nat) : (v.inSeqs n).Integral := by
  induction n with
  | zero => exact h
  | succ n ih => exact .single (.arr (by simpa using ih))

theorem length_newline_pretty (depth : Nat) :
    (Layout.pretty.newline depth).length = 2 * depth + 1 := by
  simp [Layout.pretty]

theorem length_afterColon_pretty : Layout.pretty.afterColon.length = 1 := rfl

/-- Every bracket is on a line, and no line is indented further than the value nests. -/
theorem length_render_inSeqs_le (h : ∀ depth, (render .pretty depth v).length ≤ 14 * depth + 80)
    (n depth : Nat) :
    (render .pretty depth (v.inSeqs n)).length ≤ (n + 1) * (14 * (depth + 2 * n) + 80) := by
  induction n generalizing depth with
  | zero => simpa [inSeqs] using h depth
  | succ n ih =>
    have ih := ih (depth + 1 + 1)
    have hquoted : (quoted (some "Seq")).length = 5 := by decide
    have hdepth : depth + 1 + 1 + 2 * n = depth + 2 * (n + 1) := by omega
    rw [hdepth] at ih
    calc (render .pretty depth (v.inSeqs (n + 1))).length
      _ = (render .pretty (depth + 1 + 1) (v.inSeqs n)).length + (8 * depth + 23) := by
        simp only [inSeqs, single, render, renderItems, renderMembers, List.length_cons,
          List.length_append, List.length_nil, length_newline_pretty, length_afterColon_pretty,
          hquoted]
        omega
      _ ≤ (n + 1) * (14 * (depth + 2 * (n + 1)) + 80) + (8 * depth + 23) :=
        Nat.add_le_add_right ih _
      _ ≤ (n + 1 + 1) * (14 * (depth + 2 * (n + 1)) + 80) := by
        rw [Nat.add_mul (n + 1), Nat.one_mul]
        omega

theorem utf8ByteSize_toText_le (layout : Layout) (v : Json) :
    (v.toText layout).utf8ByteSize ≤ 4 * (render layout 0 v).length := by
  rw [toText, String.utf8ByteSize_ofList]
  induction render layout 0 v with
  | nil => simp
  | cons c cs ih =>
    have hc := c.utf8Size_le_four
    rw [String.utf8Len_cons, List.length_cons]
    omega

end Json

def Stmt.inSeqs : Nat → Stmt → Stmt
  | 0, st => st
  | n + 1, st => .seq [Stmt.inSeqs n st]

theorem Stmt.SpelledBy.inSeqs {st : Stmt} (h : st.SpelledBy v) (n : Nat) :
    (st.inSeqs n).SpelledBy (v.inSeqs n) := by
  induction n with
  | zero => exact h
  | succ n ih => exact ⟨_, rfl, _, rfl, .cons ih .nil⟩

theorem Stmt.toJson_inSeqs (n : Nat) (st : Stmt) : (st.inSeqs n).toJson = st.toJson.inSeqs n := by
  induction n with
  | zero => rfl
  | succ n ih => rw [Stmt.inSeqs, Stmt.toJson, Stmt.allToJson, Stmt.allToJson, ih, Json.inSeqs]

/-- A call with or without a list of arguments. -/
def callJson (args : List (String × Json)) : Json :=
  .single "Invoke" (.single "Call" (.record (("method", .text "f") :: args)))

/-- Such a call as deep as it may stand. -/
def deepJson (args : List (String × Json)) : Json :=
  .record [("name", .text ""), ("fields", .arr [(callJson args).inSeqs 61]), ("methods", .arr []),
    ("entry", .null)]

def deepTree : Tree := ⟨"", [.inSeqs 61 (.invoke (.call "f" []))], [], none⟩

theorem deepTree_toJson : deepTree.toJson = deepJson [("args", .arr [])] := by
  simp only [deepTree, Tree.toJson, Stmt.allToJson, Stmt.toJson_inSeqs]
  rfl

theorem deepTree_spelledBy : deepTree.SpelledBy (deepJson []) := by
  have hcall : (Stmt.invoke (.call "f" [])).SpelledBy (callJson []) := by
    refine ⟨_, rfl, _, rfl, by simp, ?_⟩
    simp [under, IsText, Field.required]
  refine ⟨by simp, ?_⟩
  simp only [List.forall_mem_cons]
  exact ⟨.inr ⟨_, rfl, rfl⟩, .inr ⟨_, rfl, _, rfl, .cons (hcall.inSeqs 61) .nil⟩,
    .inr ⟨_, rfl, _, rfl, .nil⟩, .inr ⟨_, rfl, rfl⟩, by simp⟩

theorem deepJson_integral : (deepJson []).Integral := by
  have hcall : (callJson []).Integral := .single (.single (.record (by simp [integral_text])))
  refine .record ?_
  simp only [List.forall_mem_cons]
  exact ⟨integral_text _, .arr (by simpa using hcall.inSeqs 61), .arr (by simp), .null, by simp⟩

theorem deepJson_size {args : List (String × Json)}
    (hargs : ∀ depth, (renderMembers .pretty depth
      (args.map fun m => (some m.1, m.2))).length ≤ 2 * depth + 12) :
    ((deepJson args).toText .pretty).utf8ByteSize ≤ maxTextSize := by
  have hcall : ∀ depth, (render .pretty depth (callJson args)).length ≤ 14 * depth + 80 := by
    intro depth
    have hargs := hargs (depth + 1 + 1 + 1)
    have hInvoke : (quoted (some "Invoke")).length = 8 := by decide
    have hCall : (quoted (some "Call")).length = 6 := by decide
    have hmethod : (quoted (some "method")).length = 8 := by decide
    have hf : (quoted (some "f")).length = 3 := by decide
    simp only [callJson, single, record, List.map_cons, text, render, renderMembers,
      List.length_cons, List.length_append, List.length_nil, length_newline_pretty,
      length_afterColon_pretty, hInvoke, hCall, hmethod, hf]
    omega
  have hcall := length_render_inSeqs_le hcall 61 2
  have hsize := utf8ByteSize_toText_le .pretty (deepJson args)
  have hlength : (render .pretty 0 (deepJson args)).length ≤
      (render .pretty 2 ((callJson args).inSeqs 61)).length + 100 := by
    have hname : (quoted (some "name")).length = 6 := by decide
    have hempty : (quoted (some "")).length = 2 := by decide
    have hfields : (quoted (some "fields")).length = 8 := by decide
    have hmethods : (quoted (some "methods")).length = 9 := by decide
    have hentry : (quoted (some "entry")).length = 7 := by decide
    have hnull : "null".toList.length = 4 := by decide
    simp only [deepJson, record, List.map_cons, List.map_nil, text, render, renderMembers,
      renderItems, List.length_cons, List.length_append, List.length_nil, length_newline_pretty,
      length_afterColon_pretty, hname, hempty, hfields, hmethods, hentry, hnull, Nat.zero_add,
      Nat.reduceAdd]
    omega
  rw [maxTextSize]
  omega

/-- What is shown of the tree is not read, as the empty list of arguments is written there. -/
theorem deepTree_not_reloaded :
    Tree.ofText ((deepJson []).toText .pretty) = .ok deepTree ∧
      (deepTree.display .json).utf8ByteSize ≤ maxTextSize ∧
      Tree.ofText (deepTree.display .json) = .error .malformed := by
  have hsize : (deepTree.display .json).utf8ByteSize ≤ maxTextSize := by
    rw [Tree.display, deepTree_toJson]
    refine deepJson_size fun depth => ?_
    have hargs : (quoted (some "args")).length = 6 := by decide
    simp only [List.map_cons, List.map_nil, renderMembers, render, List.length_cons,
      List.length_append, List.length_nil, length_newline_pretty, length_afterColon_pretty, hargs]
    omega
  have hnesting : deepTree.toJson.nesting = maxNesting + 1 := by decide +kernel
  refine ⟨?_, hsize, ?_⟩
  · rw [Tree.ofText_eq_ok_iff]
    exact ⟨deepJson_size (by simp [renderMembers]), deepJson [],
      ofText?_toText (Layout.blank_of_printed (.inl rfl)) deepJson_integral, deepTree_spelledBy,
      by decide +kernel⟩
  · have hshown := Tree.ofText_toText_eq (.inl rfl) deepTree hsize
    rwa [hnesting, if_neg (by omega)] at hshown

end MethodLang
