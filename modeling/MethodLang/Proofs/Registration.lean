import Mathlib
import MethodLang.Proofs.CallGraph
import MethodLang.Proofs.Endings

/-!
# Registering methods

The program that a tree declares is made by adding its methods one after another. That succeeds if
no name is declared twice, and otherwise stops at the first declaration whose name is taken. What is
registered is known by look-ups alone: the order of the declarations makes no difference to them,
and so none to any run.

* `register_of_free` and `register_of_taken` say what one step does, and `register_eq_error_iff`
  when it fails and what it leaves then;
* `addAll_eq_ok_iff` says when all steps succeed, and `addAll_eq_error_iff_of_no_methods` where the
  first of them fails that does not;
* `registers_distinct_names` is the result for trees.
-/

namespace MethodLang

/-- A walk over a list fails if it fails at an item after getting past those before it. -/
theorem foldlM_eq_error_iff {α β ε : Type} {f : β → α → Except ε β} {items : List α} {b : β}
    {e : ε} :
    items.foldlM f b = .error e ↔
      ∃ before item after c, items = before ++ item :: after ∧ before.foldlM f b = .ok c ∧
        f c item = .error e := by
  constructor
  · intro h
    induction items generalizing b with
    | nil => cases h
    | cons item items ih =>
      rw [List.foldlM_cons] at h
      cases hitem : f b item with
      | error e' =>
        rw [hitem] at h
        cases h
        exact ⟨[], item, items, b, rfl, rfl, hitem⟩
      | ok b' =>
        rw [hitem] at h
        obtain ⟨before, last, after, c, rfl, hbefore, hlast⟩ := ih h
        refine ⟨item :: before, last, after, c, rfl, ?_, hlast⟩
        rw [List.foldlM_cons, hitem]
        exact hbefore
  · rintro ⟨before, item, after, c, rfl, hbefore, hitem⟩
    rw [List.foldlM_append, hbefore]
    show (item :: after).foldlM f c = .error e
    rw [List.foldlM_cons, hitem]
    rfl

/-- The first name in a list that stands in front of itself already. -/
def FirstRepeated (names : List String) (name : String) : Prop :=
  ∃ before after, names = before ++ name :: after ∧ before.Nodup ∧ name ∈ before

namespace Program

variable {p q : Program} {m : Method} {e : EvalError} {name : String} {decls : List MethodDecl}

/-! ### One method -/

theorem method?_eq_none_iff : p.method? name = none ↔ name ∉ p.methods.map Method.name := by
  simp [method?]

theorem register_of_free (h : p.method? m.name = none) :
    p.register m = (.ok (), p.withMethods (m :: p.methods)) := by
  rw [register, h]
  rfl

theorem register_of_taken (h : p.method? m.name ≠ none) :
    p.register m = (.error (.redeclaration m.name), p) := by
  obtain ⟨m', hm'⟩ := Option.ne_none_iff_exists'.1 h
  rw [register, hm']

/-- Adding fails if the name is taken, and then the program is as it was. -/
theorem register_eq_error_iff :
    p.register m = (.error e, q) ↔
      p.method? m.name ≠ none ∧ e = .redeclaration m.name ∧ q = p := by
  by_cases h : p.method? m.name = none
  · rw [register_of_free h]
    simp [h]
  · rw [register_of_taken h]
    simp [h, eq_comm]

theorem addMethod_of_free (h : p.method? m.name = none) :
    p.addMethod m = .ok (p.withMethods (m :: p.methods)) := by
  rw [addMethod, register_of_free h]

theorem addMethod_of_taken (h : p.method? m.name ≠ none) :
    p.addMethod m = .error (.redeclaration m.name) := by
  rw [addMethod, register_of_taken h]

theorem addMethod_eq_error_iff :
    p.addMethod m = .error e ↔ p.method? m.name ≠ none ∧ e = .redeclaration m.name := by
  by_cases h : p.method? m.name = none
  · rw [addMethod_of_free h]
    simp [h]
  · rw [addMethod_of_taken h, Except.error.injEq]
    simp [h, eq_comm]

/-! ### All methods -/

/-- Add the methods of some declarations, in order. -/
def addAll (p : Program) (decls : List MethodDecl) : Except EvalError Program :=
  decls.foldlM (fun p decl => p.addMethod (.ofDecl decl)) p

/-- The methods of some declarations, newest first. -/
def declared (decls : List MethodDecl) : List Method := (decls.map Method.ofDecl).reverse

theorem map_name_declared (decls : List MethodDecl) :
    (declared decls).map Method.name = (decls.map MethodDecl.name).reverse := by
  rw [declared, List.map_reverse, List.map_map]
  rfl

theorem addAll_cons_of_free {decl : MethodDecl} (h : p.method? decl.name = none) :
    p.addAll (decl :: decls) = (p.withMethods (.ofDecl decl :: p.methods)).addAll decls := by
  have hadd : p.addMethod (.ofDecl decl) = .ok (p.withMethods (.ofDecl decl :: p.methods)) :=
    addMethod_of_free h
  rw [addAll, List.foldlM_cons, hadd]
  rfl

theorem addAll_cons_of_taken {decl : MethodDecl} (h : p.method? decl.name ≠ none) :
    p.addAll (decl :: decls) = .error (.redeclaration decl.name) := by
  have hadd : p.addMethod (.ofDecl decl) = .error (.redeclaration decl.name) :=
    addMethod_of_taken h
  rw [addAll, List.foldlM_cons, hadd]
  rfl

theorem method?_cons_eq_none_iff :
    (p.withMethods (m :: p.methods)).method? name = none ↔
      name ≠ m.name ∧ p.method? name = none := by
  simp only [method?_eq_none_iff, withMethods, List.map_cons, List.mem_cons, not_or]

theorem declared_cons (decl : MethodDecl) (decls : List MethodDecl) :
    declared (decl :: decls) = declared decls ++ [.ofDecl decl] := by
  simp [declared]

/-- Adding succeeds if the names are distinct and free. -/
theorem addAll_eq_ok_iff :
    p.addAll decls = .ok q ↔
      (decls.map MethodDecl.name).Nodup ∧ (∀ decl ∈ decls, p.method? decl.name = none) ∧
        q = p.withMethods (declared decls ++ p.methods) := by
  induction decls generalizing p with
  | nil =>
    show Except.ok p = .ok q ↔ _
    simp [declared, withMethods, eq_comm]
  | cons decl decls ih =>
    rw [List.map_cons, List.nodup_cons, List.forall_mem_cons]
    by_cases h : p.method? decl.name = none
    · have hnames : (∀ d ∈ decls, d.name ≠ decl.name ∧ p.method? d.name = none) ↔
          decl.name ∉ decls.map MethodDecl.name ∧ ∀ d ∈ decls, p.method? d.name = none := by
        simp only [List.mem_map, not_exists, not_and, ← forall_and]
      have hlast : (p.withMethods (.ofDecl decl :: p.methods)).withMethods
          (declared decls ++ (p.withMethods (.ofDecl decl :: p.methods)).methods) =
            p.withMethods (declared (decl :: decls) ++ p.methods) := by
        rw [declared_cons, List.append_assoc]
        rfl
      rw [addAll_cons_of_free h, ih]
      simp only [method?_cons_eq_none_iff]
      show _ ∧ (∀ d ∈ decls, d.name ≠ decl.name ∧ p.method? d.name = none) ∧ q = _ ↔ _
      rw [hnames, hlast]
      tauto
    · rw [addAll_cons_of_taken h]
      simp [h]

/-- To a program without methods, methods are added if their names are distinct. -/
theorem addAll_eq_ok_iff_of_no_methods (hp : p.methods = []) :
    p.addAll decls = .ok q ↔
      (decls.map MethodDecl.name).Nodup ∧ q = p.withMethods (declared decls) := by
  have hfree : ∀ decl ∈ decls, p.method? decl.name = none := by simp [method?, hp]
  rw [addAll_eq_ok_iff, hp, List.append_nil, and_iff_right hfree]

/-- Otherwise adding stops at the first name that stands in front of itself. -/
theorem addAll_eq_error_iff_of_no_methods (hp : p.methods = []) :
    p.addAll decls = .error e ↔
      ∃ name, FirstRepeated (decls.map MethodDecl.name) name ∧ e = .redeclaration name := by
  have htaken : ∀ (before : List MethodDecl) (name : String),
      (p.withMethods (declared before)).method? name ≠ none ↔
        name ∈ before.map MethodDecl.name := by
    intro before name
    rw [ne_eq, method?_eq_none_iff, not_not]
    simp only [withMethods, map_name_declared, List.mem_reverse]
  rw [addAll, foldlM_eq_error_iff]
  constructor
  · rintro ⟨before, decl, after, c, rfl, hbefore, hdecl⟩
    obtain ⟨hnodup, rfl⟩ := (addAll_eq_ok_iff_of_no_methods hp).1 hbefore
    obtain ⟨hname, rfl⟩ := addMethod_eq_error_iff.1 hdecl
    refine ⟨decl.name, ⟨before.map MethodDecl.name, after.map MethodDecl.name, ?_, hnodup, ?_⟩, rfl⟩
    · rw [List.map_append, List.map_cons]
    · exact (htaken before _).1 hname
  · rintro ⟨name, ⟨firsts, lasts, hsplit, hnodup, hname⟩, rfl⟩
    obtain ⟨before, rest, rfl, rfl, hrest⟩ := List.map_eq_append_iff.1 hsplit
    obtain ⟨decl, after, rfl, rfl, -⟩ := List.map_eq_cons_iff.1 hrest
    refine ⟨before, decl, after, p.withMethods (declared before), rfl, ?_, ?_⟩
    · exact (addAll_eq_ok_iff_of_no_methods hp).2 ⟨hnodup, rfl⟩
    · exact addMethod_eq_error_iff.2 ⟨(htaken before _).2 hname, rfl⟩

/-! ### Look-ups -/

/-- Where names are distinct, the method of a name is the one that has it. -/
theorem method?_eq_some_iff (hnodup : (p.methods.map Method.name).Nodup) :
    p.method? name = some m ↔ m ∈ p.methods ∧ m.name = name := by
  constructor
  · intro h
    exact ⟨List.mem_of_find?_eq_some h, by simpa using List.find?_some h⟩
  · rintro ⟨hm, rfl⟩
    cases h : p.method? m.name with
    | none => exact absurd (List.mem_map_of_mem hm) (method?_eq_none_iff.1 h)
    | some m' =>
      have hm' := List.mem_of_find?_eq_some h
      have hname : m'.name = m.name := by simpa using List.find?_some h
      rw [List.inj_on_of_nodup_map hnodup hm' hm hname]

theorem method?_declared (hnodup : (decls.map MethodDecl.name).Nodup) :
    (p.withMethods (declared decls)).method? name = some m ↔
      ∃ decl ∈ decls, decl.name = name ∧ m = .ofDecl decl := by
  have hnames : ((p.withMethods (declared decls)).methods.map Method.name).Nodup := by
    show ((declared decls).map Method.name).Nodup
    rwa [map_name_declared, List.nodup_reverse]
  rw [method?_eq_some_iff hnames]
  show m ∈ declared decls ∧ m.name = name ↔ _
  rw [declared, List.mem_reverse, List.mem_map]
  constructor
  · rintro ⟨⟨decl, hdecl, rfl⟩, hname⟩
    exact ⟨decl, hdecl, hname, rfl⟩
  · rintro ⟨decl, hdecl, hname, rfl⟩
    exact ⟨⟨decl, hdecl, rfl⟩, hname⟩

/-- The order of the declarations makes no difference to look-ups. -/
theorem method?_declared_of_perm {decls' : List MethodDecl} (hperm : decls'.Perm decls)
    (hnodup : (decls.map MethodDecl.name).Nodup) (name : String) :
    (p.withMethods (declared decls)).method? name =
      (p.withMethods (declared decls')).method? name := by
  have hnodup' : (decls'.map MethodDecl.name).Nodup :=
    (hperm.map MethodDecl.name).nodup_iff.2 hnodup
  apply Option.ext
  intro m
  simp only [method?_declared hnodup, method?_declared hnodup', hperm.mem_iff]

/-- Programs that differ in their methods alone, but answer every look-up alike, run alike. -/
theorem ending?_withMethods {methods : List Method}
    (h : ∀ name, p.method? name = (p.withMethods methods).method? name) (n : Nat)
    (console : Console) :
    (p.withMethods methods).ending? n console = p.ending? n console := by
  cases hentry : p.entry with
  | none => simp only [ending?, run, withMethods, hentry, Option.map_some]
  | some entry =>
    have hagree : p.setting.AgreeFrom (p.entry.toList ++ Stmt.allCallees p.fields)
        (p.withMethods methods).setting := ⟨rfl, fun name _ => h name⟩
    have hsame : (p.withMethods methods).entry = some entry := hentry
    rw [ending?_of_entry hentry, ending?_of_entry hsame, action_withMethods hentry hagree]

/-- The same holds whichever entry method is chosen. -/
theorem ending?_setEntry_withMethods {methods methods' : List Method}
    (h : ∀ name, (p.withMethods methods).method? name = (p.withMethods methods').method? name)
    (entry : Option String) (n : Nat) (console : Console) :
    (entry.elim (p.withMethods methods') (p.withMethods methods').setEntry).ending? n console =
      (entry.elim (p.withMethods methods) (p.withMethods methods).setEntry).ending? n console := by
  cases entry with
  | none => exact ending?_withMethods h n console
  | some entry =>
    exact ending?_withMethods (p := (p.setEntry entry).withMethods methods) h n console

/-! ### Trees -/

/-- What the tree says about a program apart from its methods. -/
def ofHeader (tree : Tree) (limit : Nat) : Program :=
  { empty limit with name := tree.name, fields := tree.fields, entry := tree.entry }

theorem ofTree_eq_addAll (tree : Tree) (limit : Nat) :
    ofTree tree limit = (ofHeader tree limit).addAll tree.methods := rfl

/-- A tree is registered if the names of its methods are distinct, and otherwise the first repeated
name is reported. Under each name stands the method that was declared so. In another order the same
declarations give a program with the same runs, whichever entry is chosen. A method whose name is
taken is not added, and leaves the program as it was. -/
theorem registers_distinct_names (tree : Tree) (limit : Nat) :
    ((∃ p, ofTree tree limit = .ok p) ↔ (tree.methods.map MethodDecl.name).Nodup) ∧
    (∀ e, ofTree tree limit = .error e ↔
      ∃ name, FirstRepeated (tree.methods.map MethodDecl.name) name ∧ e = .redeclaration name) ∧
    (∀ p, ofTree tree limit = .ok p →
      (∀ name m, p.method? name = some m ↔ ∃ decl ∈ tree.methods, decl.name = name ∧
        m = ⟨name, .ofName? decl.returns, decl.params, decl.body ++ [.ret]⟩) ∧
      ∀ methods, methods.Perm tree.methods →
        ∃ p', ofTree { tree with methods } limit = .ok p' ∧
          ∀ (entry : Option String) (n : Nat) (console : Console),
            (entry.elim p' p'.setEntry).ending? n console =
              (entry.elim p p.setEntry).ending? n console) ∧
    ∀ (p : Program) (m : Method) (e : EvalError) (p' : Program), p.register m = (.error e, p') ↔
      p.method? m.name ≠ none ∧ e = .redeclaration m.name ∧ p' = p := by
  have hnone : (ofHeader tree limit).methods = [] := rfl
  refine ⟨?_, fun e => addAll_eq_error_iff_of_no_methods hnone, ?_,
    fun p m e p' => register_eq_error_iff⟩
  · simp only [ofTree_eq_addAll, addAll_eq_ok_iff_of_no_methods hnone, exists_and_left, exists_eq,
      and_true]
  · intro p hp
    obtain ⟨hnodup, rfl⟩ := (addAll_eq_ok_iff_of_no_methods hnone).1 hp
    constructor
    · intro name m
      rw [method?_declared hnodup]
      refine exists_congr fun decl => and_congr_right fun _ => and_congr_right fun hname => ?_
      rw [← hname]
      rfl
    · intro methods hperm
      refine ⟨(ofHeader tree limit).withMethods (declared methods), ?_, ?_⟩
      · have hnodup' := (hperm.map MethodDecl.name).nodup_iff.2 hnodup
        exact (addAll_eq_ok_iff_of_no_methods hnone).2 ⟨hnodup', rfl⟩
      · exact ending?_setEntry_withMethods (method?_declared_of_perm hperm hnodup)

/-- A tree with two methods, of which one calls the other. -/
def twoMethods : Tree where
  name := "two"
  fields := []
  methods := [
    ⟨"main", none, [], [.write [.expr (.call "one" [])]]⟩,
    ⟨"one", some ⟨"int"⟩, [], [.assign "one" (.int 1)]⟩]
  entry := some "main"

theorem twoMethods_registered :
    ∃ p p', ofTree twoMethods defaultLimit = .ok p ∧
      p.method? "one" = some ⟨"one", .int, [], [.assign "one" (.int 1), .ret]⟩ ∧
      twoMethods.methods.reverse.Perm twoMethods.methods ∧
      ofTree { twoMethods with methods := twoMethods.methods.reverse } defaultLimit = .ok p' ∧
      ∀ n console,
        (p'.setEntry "one").ending? n console = (p.setEntry "one").ending? n console := by
  obtain ⟨hdistinct, -, hregistered, -⟩ := registers_distinct_names twoMethods defaultLimit
  obtain ⟨p, hp⟩ := hdistinct.2 (by decide)
  obtain ⟨hlookup, hperm⟩ := hregistered p hp
  have hreverse := twoMethods.methods.reverse_perm
  obtain ⟨p', hp', hruns⟩ := hperm _ hreverse
  refine ⟨p, p', hp, ?_, hreverse, hp', hruns (some "one")⟩
  exact (hlookup "one" _).2 ⟨_, .tail _ (.head _), rfl, rfl⟩

end Program

end MethodLang
