import MethodLang.Proofs.Endings
import MethodLang.Proofs.Progress
import MethodLang.Proofs.Results

/-!
# Runs on two consoles

Two machines that differ in their consoles alone take the same steps as long as the consoles
answer alike. At some step the consoles may part: one refuses what the other does, or one goes
beyond what the two have in common. Evaluation only goes on at a console, so that what has parted
stays parted.

* `Parting C Parted` says of consoles related by `C` that they answer alike or part;
* `Parting.evalExpr_execStmt` and `Parting.action` carry this over to evaluation and to whole runs.
-/

namespace MethodLang

open MethodLang.Action (Congruence)

namespace Console

/-! ### Other outputs -/

/-- The console with another output. -/
def withSink (c : Console) (s : Sink) : Console := { c with sink := s }

theorem nextWord_withSink (c : Console) (s : Sink) :
    (c.withSink s).nextWord = (c.nextWord.1, c.nextWord.2.withSink s) := by
  obtain ⟨unread, pending, sink⟩ := c
  cases pending with
  | cons word rest => rfl
  | nil =>
    simp only [nextWord, withSink]
    rcases pull unread with ⟨_ | ⟨word, rest⟩, left⟩ <;> rfl

/-- Of the output a read only asks whether it can be flushed. -/
theorem readInt_withSink (c : Console) {s : Sink} (h : s.refusesFlush = c.sink.refusesFlush) :
    (c.withSink s).readInt = (c.readInt.1, c.readInt.2.withSink s) := by
  have hsame : (c.withSink s).flush = c.flush := by simp only [flush, withSink, h]
  cases hflush : c.flush with
  | error e => rw [readInt_of_flush_error hflush, readInt_of_flush_error (hsame.trans hflush)]
  | ok _ =>
    rw [readInt_of_flush_ok hflush, readInt_of_flush_ok (hsame.trans hflush), nextWord_withSink]

theorem sink_readInt (c : Console) : c.readInt.2.sink = c.sink :=
  congrArg (·.2.sink) (c.readInt_withSink rfl)

end Console

/-! ### Twins -/

/-- The same scopes and the same active calls, on related consoles. -/
structure Machine.Twin (C : Console → Console → Prop) (m m' : Machine) : Prop where
  scopes : m.scopes = m'.scopes
  calls : m.calls = m'.calls
  console : C m.console m'.console

variable {C : Console → Console → Prop}
  {Parted : (α : Type) → Outcome Machine α → Outcome Machine α → Prop} {α β : Type}

theorem Machine.Twin.alike_onConsole {m m' : Machine} (h : m.Twin C m')
    {f : Console → Except ConsoleError α × Console}
    (hanswer : (f m.console).1 = (f m'.console).1)
    (hconsole : C (f m.console).2 (f m'.console).2) :
    (Action.onConsole f m).Alike (Machine.Twin C) (Action.onConsole f m') := by
  cases hresult : (f m'.console).1 with
  | ok a =>
    rw [Action.onConsole_of_ok (hanswer.trans hresult), Action.onConsole_of_ok hresult]
    exact .done ⟨h.scopes, h.calls, hconsole⟩
  | error e =>
    rw [Action.onConsole_of_error (hanswer.trans hresult), Action.onConsole_of_error hresult]
    exact .failed ⟨h.scopes, h.calls, hconsole⟩

/-- From machines that differ in related consoles, the same end on related consoles, unless the
ends have parted. The second action must only go on at its console. -/
structure Action.Twin (C : Console → Console → Prop)
    (Parted : (α : Type) → Outcome Machine α → Outcome Machine α → Prop)
    (x y : Action Machine α) : Prop where
  ends {m m' : Machine} (h : m.Twin C m') :
    (x m).Alike (Machine.Twin C) (y m') ∨ Parted α (x m) (y m')
  progress : y.Keeps (Order.Preimage Machine.console Console.Precedes)

/-- Consoles related by `C` answer alike or part, and what has parted stays parted. -/
structure Parting (C : Console → Console → Prop)
    (Parted : (α : Type) → Outcome Machine α → Outcome Machine α → Prop) : Prop where
  readInt : Action.Twin C Parted (.onConsole Console.readInt) (.onConsole Console.readInt)
  put (text : String) : Action.Twin C Parted (.onConsole (·.put text)) (.onConsole (·.put text))
  mapState {α : Type} {x y : Outcome Machine α} {f : Machine → Machine} (h : Parted α x y)
    (hf : ∀ m, (f m).console = m.console) : Parted α (x.mapState f) (y.mapState f)
  bind {α β : Type} {x y : Action Machine α} {f g : α → Action Machine β} {m m' : Machine}
    (h : Parted α (x m) (y m'))
    (hg : ∀ a, (g a).Keeps (Order.Preimage Machine.console Console.Precedes)) :
    Parted β ((x >>= f) m) ((y >>= g) m')

namespace Action.Twin

theorem ask (f : Scopes → Array String → Except EvalError α) :
    Action.Twin C Parted (.ask f) (.ask f) where
  ends {m m'} h := by
    left
    simp only [Action.ask, h.scopes, h.calls]
    cases f m'.scopes m'.calls with
    | ok a => exact .done h
    | error e => exact .failed h
  progress := console_stable.congruence.ask f

theorem update {u : Scopes.Update}
    (hu : (Action.update u).Keeps (Order.Preimage Machine.console Console.Precedes)) :
    Action.Twin C Parted (.update u) (.update u) where
  ends {m m'} h := by
    left
    simp only [Action.update, h.scopes]
    rcases u m'.scopes with ⟨e | _, scopes⟩
    · exact .failed ⟨rfl, h.calls, h.console⟩
    · exact .done ⟨rfl, h.calls, h.console⟩
  progress := hu

variable {x y : Action Machine α}

protected theorem bind (hparting : Parting C Parted) {f g : α → Action Machine β}
    (h : x.Twin C Parted y) (hf : ∀ a, (f a).Twin C Parted (g a)) :
    (x >>= f).Twin C Parted (y >>= g) where
  ends {m m'} hm := by
    rcases h.ends hm with halike | hparted
    · simp only [Bind.bind, Action.bind]
      generalize x m = ends at halike ⊢
      generalize y m' = ends' at halike ⊢
      cases halike with
      | done h' => exact (hf _).ends h'
      | failed h' => exact .inl (.failed h')
      | unfinished => exact .inl .unfinished
    · exact .inr (hparting.bind hparted fun a => (hf a).progress)
  progress := h.progress.bind fun a => (hf a).progress

theorem inScope (hparting : Parting C Parted) (parent : Option ScopeId)
    {f g : ScopeId → Action Machine α} (h : ∀ scope, (f scope).Twin C Parted (g scope)) :
    (Action.inScope parent f).Twin C Parted (.inScope parent g) where
  ends {m m'} hm := by
    have hopen : Machine.Twin C { m with scopes := m.scopes.push parent }
        { m' with scopes := m'.scopes.push parent } :=
      ⟨by rw [hm.scopes], hm.calls, hm.console⟩
    rw [inScope_apply, inScope_apply, hm.scopes]
    rw [hm.scopes] at hopen
    rcases (h m'.scopes.next).ends hopen with halike | hparted
    · exact .inl (halike.map fun s t hst => ⟨by rw [hst.scopes], hst.calls, hst.console⟩)
    · exact .inr (hparting.mapState hparted fun _ => rfl)
  progress := @Congruence.inScope _ console_stable.congruence _ parent g g fun scope =>
    (h scope).progress

theorem inCall (hparting : Parting C Parted) (name : String) (h : x.Twin C Parted y) :
    (Action.inCall name x).Twin C Parted (.inCall name y) where
  ends {m m'} hm := by
    have henter : Machine.Twin C { m with calls := m.calls.push name }
        { m' with calls := m'.calls.push name } :=
      ⟨hm.scopes, by rw [hm.calls], hm.console⟩
    rw [inCall_apply, inCall_apply]
    rcases h.ends henter with halike | hparted
    · exact .inl (halike.map fun s t hst => ⟨hst.scopes, by rw [hst.calls], hst.console⟩)
    · exact .inr (hparting.mapState hparted fun _ => rfl)
  progress := console_stable.keeps_inCall name h.progress

end Action.Twin

namespace Parting

/-- What evaluation does to a machine keeps twins twins, up to their parting. -/
theorem congruence (h : Parting C Parted) : Congruence fun _ x y => x.Twin C Parted y where
  ask f := .ask f
  bind hx hf := hx.bind h hf
  declare scope name ty := .update (console_stable.congruence.declare scope name ty)
  assign scope name value := .update (console_stable.congruence.assign scope name value)
  readInt := h.readInt
  put := h.put
  inScope parent _ _ hf := .inScope h parent hf

theorem callMethod (h : Parting C Parted) (w : Setting) {eval eval' : Expr → Action Machine Value}
    {exec exec' : ScopeId → Stmt → Action Machine Signal}
    (heval : ∀ e, (eval e).Twin C Parted (eval' e))
    (hexec : ∀ scope st, (exec scope st).Twin C Parted (exec' scope st))
    (parent : Option ScopeId) (name : String) (args : List Expr) :
    (callMethod w eval exec parent name args).Twin C Parted
      (MethodLang.callMethod w eval' exec' parent name args) := by
  apply h.congruence.callMethod w parent name args fun arg _ => heval arg
  intro m _ callee
  exact .inCall h m.name (h.congruence.execAll m.body fun st _ => hexec callee st)

theorem evalExpr_execStmt (h : Parting C Parted) (w : Setting) (n : Nat) :
    (∀ scope e, (evalExpr w n scope e).Twin C Parted (evalExpr w n scope e)) ∧
      ∀ scope st, (execStmt w n scope st).Twin C Parted (execStmt w n scope st) := by
  apply h.congruence.evalExpr_execStmt
  · exact fun _ => ⟨fun _ => .inl .unfinished, .unfinished⟩
  · exact fun heval hexec name args => h.callMethod w heval hexec none name args

/-- The fields and the entry method end alike on two such consoles, unless they part. -/
theorem action (h : Parting C Parted) (p : Program) (n : Nat) (entry : String) :
    (p.action n entry).Twin C Parted (p.action n entry) := by
  obtain ⟨heval, hexec⟩ := h.evalExpr_execStmt p.setting n
  apply h.congruence.bind
  · exact h.congruence.execAll p.fields fun st _ => hexec Scopes.root st
  · intro _
    exact h.callMethod p.setting (heval Scopes.root) hexec _ entry []

end Parting

/-! ### Runs -/

/-- Actions that end alike end runs alike. -/
theorem Outcome.Alike.ending? {x y : Outcome Machine α} (h : x.Alike (Machine.Twin C) y)
    (hflush : ∀ c c', C c c' → c.flush = c'.flush) {ending : Ending}
    (hy : y.ending? = some ending) :
    ∃ c, C c ending.console ∧ x.ending? = some { ending with console := c } := by
  cases h with
  | @done a m m' h =>
    cases hy
    exact ⟨m.console, h.console, by simp only [Outcome.ending?, h.scopes, hflush _ _ h.console]⟩
  | @failed e m m' h =>
    cases hy
    exact ⟨m.console, h.console, by simp only [Outcome.ending?, h.scopes]⟩
  | unfinished => cases hy

/-- On two such consoles a run ends with the same result and the same scopes, unless the two runs
part on the way. -/
theorem Parting.ending? (h : Parting C Parted) (hflush : ∀ c c', C c c' → c.flush = c'.flush)
    {p : Program} {n : Nat} {c c' : Console} {ending : Ending} (hc : C c c')
    (hending : p.ending? n c' = some ending) :
    (∃ left, C left ending.console ∧ p.ending? n c = some { ending with console := left }) ∨
      ∃ x y : Outcome Machine Value, Parted Value x y ∧
        p.ending? n c = x.ending? ∧ y.ending? = some ending := by
  cases hentry : p.entry with
  | none =>
    left
    rw [Program.ending?_of_no_entry hentry] at hending
    cases hending
    exact ⟨c, hc, Program.ending?_of_no_entry hentry n c⟩
  | some entry =>
    rw [Program.ending?_of_entry hentry] at hending ⊢
    have htwin : Machine.Twin C ⟨.initial, #[], c⟩ ⟨.initial, #[], c'⟩ := ⟨rfl, rfl, hc⟩
    rcases (h.action p n entry).ends htwin with halike | hparted
    · exact .inl (halike.ending? hflush hending)
    · exact .inr ⟨_, _, hparted, rfl, hending⟩

end MethodLang
