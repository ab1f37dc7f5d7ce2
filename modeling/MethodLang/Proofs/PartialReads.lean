import MethodLang.Proofs.Reading
import MethodLang.Proofs.Scopes.Agree

/-!
# Reads that stop on the way

A read statement takes one integer for each of its targets, in order, so it does the same as two
statements that share the targets between them. If it fails, the targets before the one where it
stops have been assigned, and what it has used up of the input depends on why it stops.

* `Scopes.Filled` says what assignments in order change, and `Scopes.Filled.append` puts two series
  of them together;
* `Machine.ReadsInto` says what is left by targets that have all been read into, and
  `Machine.ReadStops` why and where a read stops;
* `readOne_spec` says what one read does, `readAll_reads` follows a list of targets from one to the
  next, and `Machine.read_stops_on_the_way` says so of statements.
-/

namespace MethodLang

namespace Slot

/-- A slot that has been assigned an integer, if there is one. -/
def filled (slot : Slot) : Option Int64 → Slot
  | none => slot
  | some i => { slot with assigned := true, value := .int i }

@[simp] theorem filled_none (slot : Slot) : slot.filled none = slot := rfl

@[simp] theorem filled_some (slot : Slot) (i : Int64) :
    slot.filled (some i) = { slot with assigned := true, value := .int i } := rfl

@[simp] theorem ty_filled (slot : Slot) (i : Option Int64) : (slot.filled i).ty = slot.ty := by
  cases i <;> rfl

/-- The last integer counts. -/
theorem filled_filled (slot : Slot) (first last : Option Int64) :
    (slot.filled first).filled last = slot.filled (last.or first) := by
  cases first <;> cases last <;> rfl

end Slot

namespace Scopes

variable {s t u : Scopes} {scope id holder : ScopeId} {name : String} {slot : Slot}

/-! ### Assignments in order -/

theorem own?_put (h : s.Live holder) (other : String) :
    (s.put holder name slot).own? other id =
      if id = holder ∧ other = name then some (holder, slot) else s.own? other id := by
  rw [own?_eq, own?_eq]
  by_cases hid : id = holder
  · subst hid
    rw [slotsAt_put_self h, Bindings.find?_insert]
    by_cases hname : other = name <;> simp [hname]
  · rw [slotsAt_put_of_ne hid]
    simp [hid]

/-- An assigned variable is found where it was found before. -/
theorem resolve_put_holder {old : Slot} (h : s.resolve scope name = some (holder, old))
    (slot : Slot) (other : String) :
    (s.put holder name slot).resolve scope other =
      if other = name then some (holder, slot) else s.resolve scope other := by
  have hlive : s.Live holder := live_of_mem_chain (mem_chain_of_resolve h)
  by_cases hname : other = name
  · subst hname
    rw [resolve_eq_findSome?, (agreeOff_put_self s holder other slot).chain]
    rw [resolve_eq_findSome?, List.findSome?_eq_some_iff] at h
    obtain ⟨before, found, after, hchain, hfound, hbefore⟩ := h
    have hholder : found = holder := by
      rw [own?_eq, Option.map_eq_some_iff] at hfound
      obtain ⟨_, -, heq⟩ := hfound
      exact congrArg Prod.fst heq
    subst hholder
    rw [if_pos rfl, List.findSome?_eq_some_iff]
    refine ⟨before, found, after, hchain, ?_, fun id hid => ?_⟩
    · rw [own?_put hlive, if_pos ⟨rfl, rfl⟩]
    · have hne : id ≠ found := by
        rintro rfl
        rw [hbefore id hid] at hfound
        cases hfound
      rw [own?_put hlive, if_neg fun hboth => hne hboth.1, hbefore id hid]
  · rw [if_neg hname, resolve_put_of_ne hname]

theorem assign_eq_error_iff {value : Value} {e : EvalError} :
    s.assign scope name value = .error e ↔
      s.resolve scope name = none ∧ e = .undeclaredVariable name ∨
        ∃ holder slot, s.resolve scope name = some (holder, slot) ∧ slot.ty ≠ value.ty ∧
          e = .typeMismatch (.assignment name slot.ty value.ty) := by
  rw [assign_eq]
  cases s.resolve scope name with
  | none => simp [eq_comm]
  | some found =>
    obtain ⟨holder, slot⟩ := found
    by_cases hty : slot.ty = value.ty
    · simp [Ty.accepts_iff, hty]
    · simp only [Ty.accepts_iff, hty, if_false, Except.error.injEq]
      constructor
      · rintro rfl
        exact .inr ⟨holder, slot, rfl, hty, rfl⟩
      · rintro (⟨hfound, -⟩ | ⟨holder', slot', hfound, -, rfl⟩)
        · cases hfound
        · cases hfound
          rfl

/-- The names have been assigned the integers, in order: a look-up finds each name where it was
found before, with the last integer that it was assigned, and no other slot has changed. -/
structure Filled (scope : ScopeId) (pairs : List (String × Int64)) (s t : Scopes) : Prop where
  links : s.SameLinks t
  declared : ∀ name ∈ pairs.map Prod.fst, ∃ holder slot,
    s.resolve scope name = some (holder, slot) ∧ slot.ty = .int
  resolve : ∀ name, t.resolve scope name = (s.resolve scope name).map fun found =>
    (found.1, found.2.filled (pairs.reverse.lookup name))
  others : ∀ id name, (name ∈ pairs.map Prod.fst → ∀ slot, s.resolve scope name ≠ some (id, slot)) →
    (t.slotsAt id).find? name = (s.slotsAt id).find? name

namespace Filled

variable {pairs more : List (String × Int64)}

theorem nil (scope : ScopeId) (s : Scopes) : Filled scope [] s s where
  links := .refl s
  declared := by simp
  resolve name := by cases s.resolve scope name <;> rfl
  others _ _ _ := rfl

theorem append (h : Filled scope pairs s t) (h' : Filled scope more t u) :
    Filled scope (pairs ++ more) s u where
  links := h.links.trans h'.links
  declared name hname := by
    rw [List.map_append, List.mem_append] at hname
    rcases hname with hname | hname
    · exact h.declared name hname
    · obtain ⟨holder, slot, hfound, hty⟩ := h'.declared name hname
      rw [h.resolve, Option.map_eq_some_iff] at hfound
      obtain ⟨⟨holder', slot'⟩, hfound, heq⟩ := hfound
      cases heq
      exact ⟨holder', slot', hfound, by simpa using hty⟩
  resolve name := by
    rw [h'.resolve, h.resolve, Option.map_map, List.reverse_append, List.lookup_append]
    cases s.resolve scope name with
    | none => rfl
    | some found => simp [Slot.filled_filled]
  others id name hne := by
    rw [h'.others id name, h.others id name]
    · exact fun hname => hne (by simp only [List.map_append, List.mem_append, hname, true_or])
    · intro hname slot hfound
      rw [h.resolve, Option.map_eq_some_iff] at hfound
      obtain ⟨⟨holder', slot'⟩, hfound, heq⟩ := hfound
      cases heq
      exact hne (by simp only [List.map_append, List.mem_append, hname, or_true]) slot' hfound

theorem of_assign {i : Int64} (h : s.assign scope name (.int i) = .ok t) :
    Filled scope [(name, i)] s t := by
  obtain ⟨holder, slot, hfound, hty, rfl⟩ := assign_eq_ok_iff.1 h
  have hlive : s.Live holder := live_of_mem_chain (mem_chain_of_resolve hfound)
  refine ⟨.put s holder name _, ?_, fun other => ?_, fun id other hne => ?_⟩
  · simpa using ⟨holder, slot, hfound, hty⟩
  · rw [resolve_put_holder hfound, List.reverse_singleton]
    by_cases hother : other = name
    · subst hother
      simp [hfound]
    · simp [hother, List.lookup, beq_eq_false_iff_ne.2 hother]
  · by_cases hid : id = holder
    · subst hid
      have hother : other ≠ name := by
        rintro rfl
        exact hne (by simp) slot hfound
      rw [slotsAt_put_self hlive, Bindings.find?_insert, if_neg hother]
    · rw [slotsAt_put_of_ne hid]

end Filled

end Scopes

/-! ### Targets that are read into -/

/-- Every target has been read into: it has been assigned the integer that the event in its place
is, in order, and as many events have been used up. -/
structure Machine.ReadsInto (scope : ScopeId) (targets : List String) (values : List Int64)
    (m m' : Machine) : Prop where
  length : values.length = targets.length
  answers : ∀ (k : Nat) (i : Int64), values[k]? = some i →
    ∃ event : Event, m.console.events[k]? = some event ∧ event.Answered (.ok i)
  scopes : m.scopes.Filled scope (targets.zip values) m'.scopes
  calls : m'.calls = m.calls
  console : m'.console = m.console.afterReads targets.length
  events : m'.console.events = m.console.events.drop targets.length

/-- Why a read into a target stops, and with which console: the output cannot be flushed, there is
no event, the next event is no integer, or it is one and the target does not take it. Only the
first of these leaves the console alone; an event is used up if there is one. -/
inductive Machine.ReadStops (scope : ScopeId) (target : String) (m : Machine) :
    EvalError → Console → Prop
  | refused (h : m.console.sink.refusesFlush = true) :
      ReadStops scope target m (.console .flushRefused) m.console
  | exhausted {left : Console} (h : m.console.events = []) (hleft : left.events = []) :
      ReadStops scope target m (.console .endOfInput) left
  | malformed {left : Console} {event : Event} {why : ConsoleError}
      (h : m.console.events = event :: left.events) (hwhy : event.Answered (.error why)) :
      ReadStops scope target m (.console why) left
  | undeclared {left : Console} {event : Event} {i : Int64}
      (h : m.console.events = event :: left.events) (hi : event.Answered (.ok i))
      (htarget : m.scopes.resolve scope target = none) :
      ReadStops scope target m (.undeclaredVariable target) left
  | mistyped {left : Console} {event : Event} {i : Int64} {holder : ScopeId} {slot : Slot}
      (h : m.console.events = event :: left.events) (hi : event.Answered (.ok i))
      (htarget : m.scopes.resolve scope target = some (holder, slot)) (hty : slot.ty ≠ .int) :
      ReadStops scope target m (.typeMismatch (.assignment target slot.ty .int)) left

variable {scope : ScopeId} {m m' : Machine}

namespace Machine.ReadsInto

variable {targets more : List String} {values values' : List Int64} {m'' : Machine}

theorem nil (scope : ScopeId) (m : Machine) : m.ReadsInto scope [] [] m where
  length := rfl
  answers := by simp
  scopes := .nil scope m.scopes
  calls := rfl
  console := rfl
  events := rfl

theorem append (h : m.ReadsInto scope targets values m')
    (h' : m'.ReadsInto scope more values' m'') :
    m.ReadsInto scope (targets ++ more) (values ++ values') m'' where
  length := by simp only [List.length_append, h.length, h'.length]
  answers k i hi := by
    rw [List.getElem?_append] at hi
    split at hi
    · exact h.answers k i hi
    · next hle =>
      obtain ⟨event, hevent, hanswered⟩ := h'.answers _ i hi
      rw [h.events, List.getElem?_drop, ← h.length, Nat.add_sub_cancel' (Nat.le_of_not_lt hle)]
        at hevent
      exact ⟨event, hevent, hanswered⟩
  scopes := by
    rw [List.zip_append h.length.symm]
    exact h.scopes.append h'.scopes
  calls := h'.calls.trans h.calls
  console := by
    rw [h'.console, h.console, List.length_append, Nat.add_comm, Console.afterReads_add]
  events := by rw [h'.events, h.events, List.drop_drop, List.length_append]

end Machine.ReadsInto

/-- How reading into targets ends: all have been read into, or those before one where it stops. -/
def Outcome.Reads (scope : ScopeId) (targets : List String) (m : Machine) {α : Type} :
    Outcome Machine α → Prop
  | .done _ m' => ∃ values, m.ReadsInto scope targets values m'
  | .failed e m' => ∃ before target after values mid, targets = before ++ target :: after ∧
      m.ReadsInto scope before values mid ∧ m' = { mid with console := mid.console.readInt.2 } ∧
      mid.ReadStops scope target e m'.console
  | .unfinished => False

/-- The next target is read into, and then the others. -/
theorem Outcome.Reads.cons {target : String} {rest : List String} {i : Int64} {α : Type}
    {x : Outcome Machine α} (h : m.ReadsInto scope [target] [i] m')
    (hrest : x.Reads scope rest m') : x.Reads scope (target :: rest) m := by
  cases x with
  | done _ m'' =>
    obtain ⟨values, hvalues⟩ := hrest
    exact ⟨i :: values, h.append hvalues⟩
  | failed e m'' =>
    obtain ⟨before, next, after, values, mid, rfl, hbefore, rfl, hstops⟩ := hrest
    exact ⟨target :: before, next, after, i :: values, mid, rfl, h.append hbefore, rfl, hstops⟩
  | unfinished => exact hrest

/-! ### Reading -/

/-- Read an integer into a variable. -/
def readOne (scope : ScopeId) (target : String) : Action Machine Unit := do
  let i ← .onConsole Console.readInt
  .update (.assign scope target (.int i))

theorem readAll_cons (scope : ScopeId) (target : String) (rest : List String) :
    readAll scope (target :: rest) = readOne scope target >>= fun _ => readAll scope rest := by
  rw [readAll, readOne, bind_assoc]

theorem readAll_append (scope : ScopeId) (targets more : List String) :
    readAll scope (targets ++ more) = readAll scope targets >>= fun _ => readAll scope more := by
  induction targets with
  | nil => rfl
  | cons target rest ih => rw [List.cons_append, readAll_cons, readAll_cons, ih, bind_assoc]

/-- One read has its target assigned, or it stops and assigns nothing. -/
theorem readOne_spec (scope : ScopeId) (target : String) (m : Machine) :
    match readOne scope target m with
    | .done _ m' => ∃ i, m.ReadsInto scope [target] [i] m'
    | .failed e m' => m' = { m with console := m.console.readInt.2 } ∧
      m.ReadStops scope target e m'.console
    | .unfinished => False := by
  cases hrefuses : m.console.sink.refusesFlush with
  | true =>
    have hread := Console.readInt_of_refusing hrefuses
    rw [readOne, Action.bind_of_failed (Action.onConsole_of_error (by rw [hread])), hread]
    exact ⟨rfl, .refused hrefuses⟩
  | false =>
    cases hevents : m.console.events with
    | nil =>
      have hread := Console.readInt_of_events_nil hrefuses hevents
      rw [readOne, Action.bind_of_failed (Action.onConsole_of_error (by rw [hread])), hread]
      exact ⟨rfl, .exhausted hevents rfl⟩
    | cons event rest =>
      obtain ⟨hanswered, rfl⟩ := Console.readInt_of_events_cons hrefuses hevents
      cases hread : m.console.readInt.1 with
      | error why =>
        rw [hread] at hanswered
        rw [readOne, Action.bind_of_failed (Action.onConsole_of_error hread)]
        exact ⟨rfl, .malformed hevents hanswered⟩
      | ok i =>
        rw [hread] at hanswered
        rw [readOne, Action.bind_of_done (Action.onConsole_of_ok hread)]
        cases hassign : m.scopes.assign scope target (.int i) with
        | ok scopes =>
          rw [Action.update_of_ok (m := { m with console := m.console.readInt.2 }) hassign]
          refine ⟨i, rfl, fun k j hj => ?_, .of_assign hassign, rfl, rfl, by simp [hevents]⟩
          cases k with
          | succ k => cases hj
          | zero =>
            cases hj
            exact ⟨event, by rw [hevents]; rfl, hanswered⟩
        | error e =>
          rw [Action.update_of_error (m := { m with console := m.console.readInt.2 })
            (.assign scope target (.int i)) hassign]
          refine ⟨rfl, ?_⟩
          rcases Scopes.assign_eq_error_iff.1 hassign with
            ⟨hfound, rfl⟩ | ⟨holder, slot, hfound, hty, rfl⟩
          · exact .undeclared hevents hanswered hfound
          · exact .mistyped hevents hanswered hfound hty

/-- A list of reads has every target assigned, or it stops at one of them. -/
theorem readAll_reads (scope : ScopeId) (targets : List String) (m : Machine) :
    (readAll scope targets m).Reads scope targets m := by
  induction targets generalizing m with
  | nil => exact ⟨[], .nil scope m⟩
  | cons target rest ih =>
    have hfirst := readOne_spec scope target m
    rw [readAll_cons]
    cases hone : readOne scope target m with
    | unfinished =>
      rw [hone] at hfirst
      exact hfirst.elim
    | failed e m' =>
      rw [hone] at hfirst
      obtain ⟨rfl, hstops⟩ := hfirst
      rw [Action.bind_of_failed hone]
      exact ⟨[], target, rest, [], m, rfl, .nil scope m, rfl, hstops⟩
    | done _ m₁ =>
      rw [hone] at hfirst
      obtain ⟨i, hinto⟩ := hfirst
      rw [Action.bind_of_done hone]
      exact .cons hinto (ih m₁)

/-- A read statement does the same as two that share its targets between them. It ends normally
with all targets read into, or it fails at one of them: then exactly those before it have been read
into, nothing else has changed but the console, and what is used up of the input is as the reason
for the failure says. -/
theorem Machine.read_stops_on_the_way (w : Setting) (scope : ScopeId) :
    (∀ n n' targets more, execStmt w (n + 1) scope (.read (targets ++ more)) =
      execStmt w (n' + 2) scope (.seq [.read targets, .read more])) ∧
    ∀ n targets m, match execStmt w (n + 1) scope (.read targets) m with
      | .done signal m' => signal = .normal ∧ ∃ values, m.ReadsInto scope targets values m'
      | .failed e m' => ∃ before target after values mid,
        targets = before ++ target :: after ∧ m.ReadsInto scope before values mid ∧
        m' = { mid with console := mid.console.readInt.2 } ∧
        mid.ReadStops scope target e m'.console
      | .unfinished => False := by
  refine ⟨fun n n' targets more => ?_, fun n targets m => ?_⟩
  · simp only [execStmt, execAll, readAll_append, bind_assoc, pure_bind]
  · have hreads := readAll_reads scope targets m
    rw [execStmt]
    cases hread : readAll scope targets m with
    | unfinished =>
      rw [hread] at hreads
      exact hreads.elim
    | failed e m' =>
      rw [Action.bind_of_failed hread]
      rw [hread] at hreads
      exact hreads
    | done _ m' =>
      rw [Action.bind_of_done hread]
      rw [hread] at hreads
      exact ⟨rfl, hreads⟩

/-- The second integer is kept, the third is used up, and the others are left. -/
example :
    execStmt ⟨[], 0⟩ 1 Scopes.root (.read ["x", "x", "flag", "x"])
        ⟨⟨#[⟨none, ⟨[("flag", ⟨.bool, false, .untyped⟩), ("x", ⟨.int, false, .untyped⟩)]⟩⟩]⟩, #[],
          .reading "1 2\n3 4".toUTF8.data.toList ⟨#[], none, false⟩⟩ =
      .failed (.typeMismatch (.assignment "flag" .bool .int))
        ⟨⟨#[⟨none, ⟨[("flag", ⟨.bool, false, .untyped⟩), ("x", ⟨.int, true, .int 2⟩)]⟩⟩]⟩, #[],
          [], ["4"], #[], none, false⟩ := by
  cbv

end MethodLang
