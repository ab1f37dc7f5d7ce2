import Mathlib
import MethodLang.Proofs.Endings
import MethodLang.Proofs.Progress

/-!
# The limit on active calls

A limit on active calls cuts runs off and does nothing else: under a limit a program does what it
does under a greater one, or it fails at the first call too many, with the console as the other
run had it at that call.

* `Action.CutOff` says this of actions, and `cutOff_congruence` that evaluation keeps it;
* `evalExpr_execStmt_cutOff` compares evaluation under two limits;
* `call_limit_only_cuts_off` compares whole runs, and finds the limit from which on a program is
  not cut off.
-/

namespace MethodLang

open MethodLang.Action (Congruence)

/-! ### Outcomes that are cut off -/

/-- The first outcome is the second one, or a failure on the way there, at a call too many. -/
inductive Outcome.CutOff {α : Type} (limit : Nat) :
    Outcome Machine α → Outcome Machine α → Prop
  | same (x : Outcome Machine α) : CutOff limit x x
  | cut {m : Machine} {y : Outcome Machine α}
      (h : y.Leaves fun m' => m.console.Precedes m'.console) :
      CutOff limit (.failed (.callDepthExceeded limit) m) y

/-- The first action does what the second does, up to a call too many. The second must only go on
at the console, so that the failure of the first is on its way. -/
structure Action.CutOff {α : Type} (limit : Nat) (x y : Action Machine α) : Prop where
  ends (m : Machine) : (x m).CutOff limit (y m)
  progress : y.Keeps (Order.Preimage Machine.console Console.Precedes)

variable {α β : Type} {limit : Nat}

theorem Outcome.CutOff.mapState {f : Machine → Machine} {x y : Outcome Machine α}
    (h : x.CutOff limit y) (hf : ∀ m, (f m).console = m.console) :
    (x.mapState f).CutOff limit (y.mapState f) := by
  cases h with
  | same => exact .same _
  | cut hleaves =>
    apply Outcome.CutOff.cut
    rw [Outcome.leaves_mapState]
    refine hleaves.mono fun m' hm' => ?_
    rw [hf, hf]
    exact hm'

namespace Action.CutOff

variable {x y : Action Machine α}

theorem refl (h : x.Keeps (Order.Preimage Machine.console Console.Precedes)) : x.CutOff limit x :=
  ⟨fun _ => .same _, h⟩

/-- A call too many cuts off whatever would come. -/
theorem fail (h : y.Keeps (Order.Preimage Machine.console Console.Precedes)) :
    Action.CutOff limit (.fail (.callDepthExceeded limit)) y :=
  ⟨fun m => .cut (h m), h⟩

protected theorem bind {f g : α → Action Machine β} (h : x.CutOff limit y)
    (hf : ∀ a, (f a).CutOff limit (g a)) : (x >>= f).CutOff limit (y >>= g) where
  ends m := by
    have hxy := h.ends m
    simp only [Bind.bind, Action.bind]
    generalize x m = ends at hxy ⊢
    generalize y m = ends' at hxy ⊢
    cases hxy with
    | same =>
      cases ends with
      | done a m' => exact (hf a).ends m'
      | failed e m' => exact .same _
      | unfinished => exact .same _
    | cut hleaves =>
      apply Outcome.CutOff.cut
      cases ends' with
      | done a m' => exact ((hf a).progress m').mono fun m'' hm'' => hleaves.trans hm''
      | failed e m' => exact hleaves
      | unfinished => trivial
  progress := h.progress.bind fun a => (hf a).progress

theorem inCall (name : String) (h : x.CutOff limit y) :
    (Action.inCall name x).CutOff limit (Action.inCall name y) where
  ends m := by
    rw [inCall_apply, inCall_apply]
    exact (h.ends _).mapState fun _ => rfl
  progress := console_stable.keeps_inCall name h.progress

end Action.CutOff

/-- What evaluation does to a machine cuts nothing off by itself. -/
theorem cutOff_congruence (limit : Nat) : Congruence fun _ x y => x.CutOff limit y where
  ask f := .refl (console_stable.congruence.ask f)
  bind hx hf := hx.bind hf
  declare scope name ty := .refl (console_stable.congruence.declare scope name ty)
  assign scope name value := .refl (console_stable.congruence.assign scope name value)
  readInt := .refl console_stable.congruence.readInt
  put text := .refl (console_stable.congruence.put text)
  inScope parent f g hf :=
    { ends m := by
        rw [Action.inScope_apply, Action.inScope_apply]
        exact ((hf _).ends _).mapState fun _ => rfl
      progress := @Congruence.inScope _ console_stable.congruence _ parent g g fun scope =>
        (hf scope).progress }

/-! ### Two limits -/

variable {methods : List Method} {d d' : Nat}

theorem callMethod_cutOff (hd : d ≤ d') {eval eval' : Expr → Action Machine Value}
    {exec exec' : ScopeId → Stmt → Action Machine Signal} (args : List Expr)
    (heval : ∀ arg ∈ args, (eval arg).CutOff d (eval' arg))
    (hexec : ∀ scope st, (exec scope st).CutOff d (exec' scope st)) (parent : Option ScopeId)
    (name : String) :
    (callMethod ⟨methods, d⟩ eval exec parent name args).CutOff d
      (callMethod ⟨methods, d'⟩ eval' exec' parent name args) := by
  have hcongr := cutOff_congruence d
  have hmethod : Setting.method? ⟨methods, d⟩ name = Setting.method? ⟨methods, d'⟩ name := rfl
  rw [callMethod, callMethod, hmethod]
  cases Setting.method? ⟨methods, d'⟩ name with
  | none => exact hcongr.fail _
  | some m =>
    have hbody := hcongr.inMethod m parent (.argumentCount name m.params.length args.length) args
      heval fun callee => .inCall m.name (hcongr.execAll m.body fun st _ => hexec callee st)
    apply hcongr.bind hcongr.depth
    intro depth
    -- the depth is below both limits, between them, or at both
    by_cases hlow : d ≤ depth
    · rw [if_pos hlow]
      apply Action.CutOff.fail
      split
      · exact console_stable.congruence.fail _
      · exact hbody.progress
    · rw [if_neg hlow, if_neg fun hhigh => hlow (hd.trans hhigh)]
      exact hbody

theorem evalExpr_execStmt_cutOff (hd : d ≤ d') (n : Nat) :
    (∀ scope e, (evalExpr ⟨methods, d⟩ n scope e).CutOff d (evalExpr ⟨methods, d'⟩ n scope e)) ∧
      ∀ scope st,
        (execStmt ⟨methods, d⟩ n scope st).CutOff d (execStmt ⟨methods, d'⟩ n scope st) := by
  apply (cutOff_congruence d).evalExpr_execStmt
  · exact fun α => .refl .unfinished
  · exact fun heval hexec name args =>
      callMethod_cutOff hd args (fun arg _ => heval arg) hexec none name

/-! ### Runs -/

/-- The run failed at a call too many. -/
def Ending.TooDeep (ending : Ending) : Prop :=
  ∃ limit, ending.result = .error (.callDepthExceeded limit)

theorem Outcome.CutOff.ending? {x y : Outcome Machine α} (h : x.CutOff limit y) :
    x.ending? = y.ending? ∨ ∃ ending, x.ending? = some ending ∧
      ending.result = .error (.callDepthExceeded limit) ∧
      ∀ ending' ∈ y.ending?, ending.console.Precedes ending'.console := by
  cases h with
  | same =>
    left
    rfl
  | @cut m y hleaves =>
    right
    refine ⟨⟨.error (.callDepthExceeded limit), m.scopes, m.console⟩, rfl, rfl, ?_⟩
    intro ending' h'
    cases y with
    | done _ m' | failed _ m' =>
      cases h'
      exact hleaves
    | unfinished => cases h'

namespace Program

variable {p : Program} {console : Console} {ending ending' : Ending}

/-- The program under another limit. -/
def limitTo (p : Program) (limit : Nat) : Program := { p with limit }

theorem action_cutOff (p : Program) (hd : d ≤ d') (n : Nat) (entry : String) :
    ((p.limitTo d).action n entry).CutOff d ((p.limitTo d').action n entry) := by
  obtain ⟨heval, hexec⟩ := @evalExpr_execStmt_cutOff p.methods d d' hd n
  have hcongr := cutOff_congruence d
  apply hcongr.bind
  · exact hcongr.execAll p.fields fun st _ => hexec Scopes.root st
  · intro _
    exact callMethod_cutOff hd [] (fun arg _ => heval Scopes.root arg) hexec _ entry

/-- With the same steps under two limits, a run ends alike, or is cut off under the smaller. -/
theorem ending?_cutOff (p : Program) (hd : d ≤ d') (n : Nat) (console : Console) :
    (p.limitTo d).ending? n console = (p.limitTo d').ending? n console ∨
      ∃ ending, (p.limitTo d).ending? n console = some ending ∧
        ending.result = .error (.callDepthExceeded d) ∧
        ∀ ending' ∈ (p.limitTo d').ending? n console,
          ending.console.Precedes ending'.console := by
  cases hentry : p.entry with
  | none =>
    left
    simp [ending?, run, limitTo, hentry]
  | some entry =>
    have hends : ∀ limit, (p.limitTo limit).entry = some entry := fun _ => hentry
    rw [ending?_of_entry (hends d), ending?_of_entry (hends d')]
    exact ((p.action_cutOff hd n entry).ends _).ending?

/-- What ends under a limit ends under a smaller one: alike, or cut off. -/
theorem EndsIn.lower (h : (p.limitTo d').EndsIn console ending') (hd : d ≤ d') :
    (p.limitTo d).EndsIn console ending' ∨
      ∃ ending, (p.limitTo d).EndsIn console ending ∧
        ending.result = .error (.callDepthExceeded d) ∧
        ending.console.Precedes ending'.console := by
  obtain ⟨n, hn⟩ := h
  rcases p.ending?_cutOff hd n console with hsame | ⟨ending, hcut, hresult, hconsole⟩
  · left
    exact ⟨n, hsame.trans hn⟩
  · right
    exact ⟨ending, ⟨n, hcut⟩, hresult, hconsole ending' hn⟩

/-- What ends under a limit without being cut off ends alike under a greater one. -/
theorem EndsIn.raise (h : (p.limitTo d).EndsIn console ending) (hdeep : ¬ending.TooDeep)
    (hd : d ≤ d') : (p.limitTo d').EndsIn console ending := by
  obtain ⟨n, hn⟩ := h
  rcases p.ending?_cutOff hd n console with hsame | ⟨ending', hcut, hresult, -⟩
  · exact ⟨n, hsame.symm.trans hn⟩
  · rw [hn] at hcut
    cases hcut
    exact absurd ⟨d, hresult⟩ hdeep

/-- The least limit that does not cut a run off is where its behaviour changes, and nowhere
else. -/
theorem EndsIn.exists_threshold (h : (p.limitTo d).EndsIn console ending)
    (hdeep : ¬ending.TooDeep) :
    ∃! least, (∀ k < least, ∃ ending', (p.limitTo k).EndsIn console ending' ∧
        ending'.result = .error (.callDepthExceeded k)) ∧
      ∀ k ≥ least, (p.limitTo k).EndsIn console ending := by
  classical
  have hexists : ∃ k, (p.limitTo k).EndsIn console ending := ⟨d, h⟩
  have hleast := Nat.find_spec hexists
  refine ⟨Nat.find hexists, ⟨fun k hk => ?_, fun k hk => hleast.raise hdeep hk⟩, ?_⟩
  · rcases hleast.lower hk.le with hsame | ⟨ending', hends, hresult, -⟩
    · exact absurd hsame (Nat.find_min hexists hk)
    · exact ⟨ending', hends, hresult⟩
  · rintro other ⟨hbelow, habove⟩
    apply Nat.le_antisymm
    · -- otherwise the run is cut off at the least limit as well
      by_contra hlt
      obtain ⟨ending', hends, hresult⟩ := hbelow _ (Nat.lt_of_not_le hlt)
      rw [hleast.unique hends] at hdeep
      exact hdeep ⟨_, hresult⟩
    · exact Nat.find_min' hexists (habove other le_rfl)

/-- The limit on active calls only cuts runs off. If a run ends under a limit, it ends under every
smaller one, alike or at a call too many with the console as the other run had it on its way. If it
ends in any other way than at a call too many, it ends alike under every greater limit. So a
program whose run on some input is not cut off under some limit has, for this input, one limit
below which it is always cut off and from which on it always ends alike. -/
theorem call_limit_only_cuts_off (p : Program) (console : Console) :
    (∀ d d' ending', d ≤ d' → (p.limitTo d').EndsIn console ending' →
      (p.limitTo d).EndsIn console ending' ∨
        ∃ ending, (p.limitTo d).EndsIn console ending ∧
          ending.result = .error (.callDepthExceeded d) ∧
          ending.console.Precedes ending'.console) ∧
    (∀ d d' ending, d ≤ d' → (p.limitTo d).EndsIn console ending → ¬ending.TooDeep →
      (p.limitTo d').EndsIn console ending) ∧
    ∀ d ending, (p.limitTo d).EndsIn console ending → ¬ending.TooDeep →
      ∃! least, (∀ k < least, ∃ ending', (p.limitTo k).EndsIn console ending' ∧
          ending'.result = .error (.callDepthExceeded k)) ∧
        ∀ k ≥ least, (p.limitTo k).EndsIn console ending := by
  refine ⟨fun d d' ending' hd h => ?_, fun d d' ending hd h hdeep => ?_, fun d ending h hdeep => ?_⟩
  · exact h.lower hd
  · exact h.raise hdeep hd
  · exact h.exists_threshold hdeep

/-- A program that reads an integer, prints it, and does so again in a further call as long as the
integer is positive. -/
def echoing : Program where
  name := "echoing"
  fields := []
  methods := [
    .ofDecl ⟨"echo", none, [], [
      .declare "x" ⟨"int"⟩, .read ["x"], .write [.expr (.var "x")],
      .ite (.binary (.var "x") .gt (.int 0)) (.invoke (.call "echo" [])) none]⟩,
    .ofDecl ⟨"main", none, [], [.invoke (.call "echo" [])]⟩]
  entry := some "main"
  limit := defaultLimit
  scopes := .initial

/-- What `echoing` reads. -/
def twoOneZero : Console := .ofInput "2\n1\n0\n".toUTF8.data.toList none false

/-- How `echoing` ends, if it is not cut off. -/
def echoed : Ending := ⟨.ok (), .initial, [], [], "2 \n1 \n0 \n".toUTF8.data, none, false⟩

theorem echoing_cut_off :
    3 ≤ 4 ∧ 4 ≤ 9 ∧ (echoing.limitTo 4).EndsIn twoOneZero echoed ∧ ¬echoed.TooDeep ∧
      ((echoing.limitTo 3).EndsIn twoOneZero echoed ∨
        ∃ ending, (echoing.limitTo 3).EndsIn twoOneZero ending ∧
          ending.result = .error (.callDepthExceeded 3) ∧
          ending.console.Precedes echoed.console) ∧
      (echoing.limitTo 9).EndsIn twoOneZero echoed ∧
      ∃! least, (∀ k < least, ∃ ending', (echoing.limitTo k).EndsIn twoOneZero ending' ∧
          ending'.result = .error (.callDepthExceeded k)) ∧
        ∀ k ≥ least, (echoing.limitTo k).EndsIn twoOneZero echoed := by
  have hends : (echoing.limitTo 4).EndsIn twoOneZero echoed := ⟨16, by cbv⟩
  have hdeep : ¬echoed.TooDeep := by
    rintro ⟨limit, hresult⟩
    cases hresult
  obtain ⟨hlower, hraise, hthreshold⟩ := call_limit_only_cuts_off echoing twoOneZero
  exact ⟨by decide, by decide, hends, hdeep, hlower 3 4 echoed (by decide) hends,
    hraise 4 9 echoed (by decide) hends hdeep, hthreshold 4 echoed hends hdeep⟩

end Program

end MethodLang
