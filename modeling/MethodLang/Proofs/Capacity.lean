import Mathlib
import MethodLang.Proofs.Endings
import MethodLang.Proofs.Parting

/-!
# Output that takes so many bytes

A program runs on an output of limited capacity as on an unlimited one, as long as its output fits.
Otherwise it fails at the first byte too many, and the output then holds as many bytes as it takes
of what the unlimited output gets.
-/

namespace MethodLang

/-! ### Consoles -/

namespace Console

/-- The console with an output that takes so many bytes in all. -/
def limitTo (c : Console) (capacity : Nat) : Console :=
  { c with sink := { c.sink with capacity := some capacity } }

/-- The first console is the second with a limit on its output, which no output has met yet. -/
structure Fits (capacity : Nat) (c c' : Console) : Prop where
  eq : c = c'.limitTo capacity
  unlimited : c'.sink.capacity = none
  room : c'.sink.written.size ≤ capacity

/-- The second console has more output than the capacity, and the first has what fits of it. -/
structure Overflows (capacity : Nat) (c c' : Console) : Prop where
  lt : capacity < c'.sink.written.size
  written : c.sink.written = c'.sink.written.take capacity

variable {c c' c'' : Console} {capacity : Nat}

/-- More output does not change the first bytes. -/
theorem Overflows.trans (h : c.Overflows capacity c') (h' : c'.Precedes c'') :
    c.Overflows capacity c'' := by
  obtain ⟨more, hmore⟩ := h'.written
  have hwritten : c''.sink.written = c'.sink.written ++ more.toArray := by
    apply Array.toList_inj.1
    simp [hmore]
  have hlt := h.lt
  constructor
  · rw [hwritten, Array.size_append]
    omega
  · rw [h.written, hwritten]
    apply Array.toList_inj.1
    simp [hlt.le]

/-- Reading does not meet the limit. -/
theorem readInt_limitTo (c : Console) (capacity : Nat) :
    (c.limitTo capacity).readInt = (c.readInt.1, c.readInt.2.limitTo capacity) := by
  have h := @readInt_withSink c { c.sink with capacity := some capacity } rfl
  simp only [limitTo, sink_readInt]
  exact h

theorem Fits.readInt (h : c.Fits capacity c') : c.readInt.2.Fits capacity c'.readInt.2 where
  eq := by rw [h.eq, readInt_limitTo]
  unlimited := by rw [sink_readInt, h.unlimited]
  room := by
    rw [sink_readInt]
    exact h.room

/-- What fits of a text is written. -/
theorem Fits.written_put (h : c.Fits capacity c') (text : String) :
    (c.put text).2.sink.written = (c'.put text).2.sink.written.take capacity := by
  obtain ⟨unread, pending, written, _, refuses⟩ := c'
  obtain ⟨rfl, rfl, hroom⟩ := h
  apply Array.toList_inj.1
  have hwritten : written.toList.length ≤ capacity := hroom
  simp [put, limitTo, Sink.write, List.take_of_length_le hwritten]

/-- A text that does not fit is refused. -/
theorem Fits.result_put (h : c.Fits capacity c') (text : String) :
    (c.put text).1 =
      if (c'.put text).2.sink.written.size ≤ capacity then .ok () else .error .sinkFull := by
  obtain ⟨unread, pending, written, _, refuses⟩ := c'
  obtain ⟨rfl, rfl, -⟩ := h
  simp [put, limitTo, Sink.write, Sink.hasRoom]

theorem Fits.put (h : c.Fits capacity c') {text : String}
    (hroom : (c'.put text).2.sink.written.size ≤ capacity) :
    (c.put text).2.Fits capacity (c'.put text).2 where
  eq := by
    have hwritten := h.written_put text
    rw [Array.take_eq_extract, Array.extract_eq_self_of_le hroom] at hwritten
    obtain ⟨unread, pending, written, _, refuses⟩ := c'
    obtain ⟨rfl, rfl, -⟩ := h
    simpa [Console.put, limitTo, Sink.write] using hwritten
  unlimited := by
    simp only [Console.put, Sink.write, h.unlimited]
  room := hroom

end Console

/-! ### Evaluation -/

/-- The first run failed at its full output, and the second has written more than fits. -/
def Outcome.Overflowed (capacity : Nat) (α : Type) (x y : Outcome Machine α) : Prop :=
  ∃ m, x = .failed (.console .sinkFull) m ∧
    y.Leaves fun m' => m.console.Overflows capacity m'.console

variable {capacity : Nat}

theorem put_twin (text : String) :
    Action.Twin (Console.Fits capacity) (Outcome.Overflowed capacity)
      (.onConsole (·.put text)) (.onConsole (·.put text)) where
  ends {m m'} h := by
    have hresult := h.console.result_put text
    have hunlimited : (m'.console.put text).1 = .ok () := by
      simp [Console.put, Sink.hasRoom, h.console.unlimited]
    by_cases hroom : (m'.console.put text).2.sink.written.size ≤ capacity
    · left
      rw [if_pos hroom, ← hunlimited] at hresult
      exact h.alike_onConsole hresult (h.console.put hroom)
    · right
      rw [if_neg hroom] at hresult
      refine ⟨_, Action.onConsole_of_error hresult, ?_⟩
      rw [Action.onConsole_of_ok hunlimited]
      exact ⟨Nat.lt_of_not_le hroom, h.console.written_put text⟩
  progress := console_stable.congruence.put text

/-- What one run does on a limited and on an unlimited output parts where the output is full. -/
theorem parting_of_capacity (capacity : Nat) :
    Parting (Console.Fits capacity) (Outcome.Overflowed capacity) where
  readInt :=
    { ends := fun {m m'} h => by
        left
        apply h.alike_onConsole
        · rw [h.console.eq, Console.readInt_limitTo]
        · exact h.console.readInt
      progress := console_stable.congruence.readInt }
  put := put_twin
  mapState {α x y f} h hf := by
    obtain ⟨m, rfl, hleaves⟩ := h
    refine ⟨f m, rfl, ?_⟩
    rw [Outcome.leaves_mapState]
    refine hleaves.mono fun m' hm' => ?_
    rw [hf, hf]
    exact hm'
  bind {α β x y f g m m'} h hg := by
    obtain ⟨stopped, hx, hleaves⟩ := h
    refine ⟨stopped, ?_, Action.leaves_bind hleaves fun a t ht => ?_⟩
    · simp only [Bind.bind, Action.bind, hx]
    · exact (hg a t).mono fun t' ht' => ht.trans ht'

/-! ### Runs -/

namespace Program

variable {p : Program} {ending : Ending}

/-- On an output that takes so many bytes, a run does the same as on an unlimited one if its output
fits; otherwise it fails, and the output holds as many bytes of it as it takes. -/
theorem output_stops_at_capacity (p : Program) (input : List UInt8) (refuses : Bool)
    (capacity : Nat) (ending : Ending) (h : p.EndsIn (.ofInput input none refuses) ending) :
    (ending.console.sink.written.size ≤ capacity →
      p.EndsIn (.ofInput input (some capacity) refuses)
        { ending with console := ending.console.limitTo capacity }) ∧
    (capacity < ending.console.sink.written.size →
      ∃ stopped, p.EndsIn (.ofInput input (some capacity) refuses) stopped ∧
        stopped.result = .error (.console .sinkFull) ∧
        stopped.console.sink.written = ending.console.sink.written.take capacity) ∧
    (EvalError.console .sinkFull).message = "failed to write output: sink full" := by
  obtain ⟨n, hn⟩ := h
  have hfresh : (Console.ofInput input (some capacity) refuses).Fits capacity
      (.ofInput input none refuses) := ⟨rfl, rfl, Nat.zero_le _⟩
  have hflush : ∀ c c' : Console, c.Fits capacity c' → c.flush = c'.flush := by
    rintro c c' hfits
    rw [hfits.eq]
    rfl
  rcases (parting_of_capacity capacity).ending? hflush hfresh hn with
    ⟨left, hleft, hsame⟩ | ⟨_, y, ⟨m, rfl, hleaves⟩, hstopped, hy⟩
  · refine ⟨fun _ => ⟨n, ?_⟩, fun hlt => absurd hleft.room (Nat.not_le.2 hlt), rfl⟩
    rw [hsame, hleft.eq]
  · obtain ⟨m', hoverflow, -, hconsole⟩ := hleaves.of_ending? hy
    rw [← hconsole] at hoverflow
    refine ⟨fun hroom => absurd hoverflow.lt (Nat.not_lt.2 hroom), fun _ => ?_, rfl⟩
    exact ⟨_, ⟨n, hstopped⟩, rfl, hoverflow.written⟩

/-- A program that writes in the arguments of a call, in the call and after it. -/
def telling : Program where
  name := "telling"
  fields := []
  methods := [
    .ofDecl ⟨"tell", some ⟨"int"⟩, ["x"], [
      .write [.expr (.var "x")], .assign "tell" (.binary (.var "x") .add (.int 1))]⟩,
    .ofDecl ⟨"main", none, [], [.write [.expr (.call "tell" [.call "tell" [.int 1]])]]⟩]
  entry := some "main"
  limit := defaultLimit
  scopes := .initial

/-- How `telling` ends on an unlimited output. -/
def told : Ending := ⟨.ok (), .initial, [], [], "1 \n2 \n3 \n".toUTF8.data, none, false⟩

/-- All of the output fits into nine bytes; of five bytes the last is the blank before a line
ends. -/
theorem telling_stops_at_capacity :
    telling.EndsIn (.ofInput [] none false) told ∧
    told.console.sink.written.size ≤ 9 ∧
    telling.EndsIn (.ofInput [] (some 9) false) { told with console := told.console.limitTo 9 } ∧
    5 < told.console.sink.written.size ∧
    ∃ stopped, telling.EndsIn (.ofInput [] (some 5) false) stopped ∧
      stopped.result = .error (.console .sinkFull) ∧
      stopped.console.sink.written = "1 \n2 ".toUTF8.data := by
  have hends : telling.EndsIn (.ofInput [] none false) told := ⟨16, by cbv⟩
  have hnine : told.console.sink.written.size ≤ 9 := by decide
  have hfive : 5 < told.console.sink.written.size := by decide
  have hfirst : told.console.sink.written.take 5 = "1 \n2 ".toUTF8.data := by decide
  have hcut := (output_stops_at_capacity telling [] false 5 told hends).2.1 hfive
  rw [hfirst] at hcut
  exact ⟨hends, hnine, (output_stops_at_capacity telling [] false 9 told hends).1 hnine, hfive,
    hcut⟩

end Program

end MethodLang
