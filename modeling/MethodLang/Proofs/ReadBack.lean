import Mathlib
import MethodLang.Proofs.Parting
import MethodLang.Proofs.Reading

/-!
# Reading back what was written

Integers that are written, in any number of lines, are read back in order from what was written.

* `evalExpr_withSink` says that evaluation that writes nothing goes the same way on every other
  output that can be flushed as well;
* `execAll_writes` says what write statements print, and `words_printed` which words this has;
* `written_integers_are_read_back` puts this together.
-/

namespace MethodLang

/-! ### What is printed -/

/-- What is printed for integers in a line. -/
def printedItems (row : List Int64) : List Char :=
  row.flatMap fun i => (toString i.toInt).toList ++ [' ']

/-- What is printed for a row of integers. -/
def printedRow (row : List Int64) : List Char := printedItems row ++ ['\n']

/-- The bytes that are printed for rows of integers. -/
def printed (rows : List (List Int64)) : List UInt8 := encode (rows.flatMap printedRow)

namespace Text

/-- Between the blank and the end of ASCII there is no blank. -/
theorem isBlank_eq_false {c : Char} (h : 32 < c.toNat) (h' : c.toNat < 128) :
    isBlank c = false := by
  simp only [Char.toNat] at h h'
  simp only [isBlank, Bool.or_eq_false_iff, Bool.and_eq_false_iff, decide_eq_false_iff_not,
    beq_eq_false_iff_ne, ne_eq, Char.le_def, Char.ext_iff, UInt32.le_iff_toNat_le,
    ← UInt32.toNat_inj]
  simp only [Char.reduceVal, UInt32.reduceToNat]
  omega

/-- A decimal is one word. -/
theorem words_of_isDecimal {cs : List Char} {n : Int} (h : IsDecimal cs n) : words cs = [cs] := by
  have hdigits : ∀ {digits}, IsDigits digits → ∀ c ∈ digits, isBlank c = false := by
    intro digits hd c hc
    have hdigit := Char.isDigit_iff_toNat.1 (hd.2 c hc)
    simp only [Char.reduceToNat] at hdigit
    exact isBlank_eq_false (by omega) (by omega)
  cases h with
  | unsigned hd => exact words_of_not_blank hd.1 (hdigits hd)
  | plus hd => exact words_of_not_blank (by simp) (List.forall_mem_cons.2 ⟨by decide, hdigits hd⟩)
  | minus hd => exact words_of_not_blank (by simp) (List.forall_mem_cons.2 ⟨by decide, hdigits hd⟩)

end Text

theorem words_printedRow (row : List Int64) (rest : List Char) :
    Text.words (printedRow row ++ rest) =
      row.map (fun i => (toString i.toInt).toList) ++ Text.words rest := by
  have hblank : Text.isBlank ' ' := by decide
  have hlf : Text.isBlank '\n' := by decide
  induction row with
  | nil =>
    change Text.words ([] ++ '\n' :: rest) = _
    rw [Text.words_append_blank hlf]
    rfl
  | cons i row ih =>
    have hrow : printedRow (i :: row) ++ rest =
        (toString i.toInt).toList ++ ' ' :: (printedRow row ++ rest) := by
      simp [printedRow, printedItems]
    rw [hrow, Text.words_append_blank hblank, ih,
      Text.words_of_isDecimal (Text.isDecimal_toString i.toInt)]
    rfl

theorem words_printed (rows : List (List Int64)) :
    Text.words (rows.flatMap printedRow) =
      rows.flatten.map fun i => (toString i.toInt).toList := by
  induction rows with
  | nil => rfl
  | cons row rows ih =>
    rw [List.flatMap_cons, words_printedRow, ih, List.flatten_cons, List.map_append]

theorem Event.ofInput_printed (rows : List (List Int64)) :
    ofInput (printed rows) = rows.flatten.map fun i => .word (toString i.toInt) := by
  rw [printed, ofInput_encode, words_printed, List.map_map]
  simp [Function.comp_def]

/-! ### Outputs -/

namespace Sink

variable {s : Sink} {bytes more : List UInt8}

/-- The output with more bytes. -/
def append (s : Sink) (bytes : List UInt8) : Sink :=
  { s with written := s.written ++ bytes.toArray }

@[simp] theorem append_nil (s : Sink) : s.append [] = s := by simp [append]

theorem append_append (s : Sink) (bytes more : List UInt8) :
    (s.append bytes).append more = s.append (bytes ++ more) := by
  simp [append]

theorem hasRoom_iff {count : Nat} :
    s.hasRoom count ↔ ∀ capacity ∈ s.capacity, s.written.size + count ≤ capacity := by
  rw [hasRoom]
  cases s.capacity <;> simp

theorem hasRoom_mono {count count' : Nat} (h : s.hasRoom count') (hle : count ≤ count') :
    s.hasRoom count := by
  rw [hasRoom_iff] at h ⊢
  intro capacity hcapacity
  have := h capacity hcapacity
  omega

theorem hasRoom_append :
    (s.append bytes).hasRoom more.length ↔ s.hasRoom (bytes ++ more).length := by
  simp [hasRoom_iff, append, Nat.add_assoc]

/-- What there is room for is written. -/
theorem write_of_hasRoom (h : s.hasRoom bytes.length) : s.write bytes.toArray = s.append bytes := by
  rw [hasRoom_iff] at h
  rw [write, append]
  cases hcapacity : s.capacity with
  | none => rfl
  | some capacity =>
    have hle := h capacity hcapacity
    have htake : bytes.toArray.take (capacity - s.written.size) = bytes.toArray := by
      rw [Array.take_eq_extract, Array.extract_eq_self_of_le]
      rw [List.size_toArray]
      omega
    simp only [htake]

end Sink

theorem Console.put_of_hasRoom {c : Console} {text : String}
    (h : c.sink.hasRoom (encode text.toList).length) :
    c.put text = (.ok (), { c with sink := c.sink.append (encode text.toList) }) := by
  have hbytes : text.toUTF8.data = (encode text.toList).toArray := by
    rw [← toUTF8_eq_encode, Array.toArray_toList]
  simp only [put, hbytes, List.size_toArray, h, if_true, Sink.write_of_hasRoom h]

theorem Console.hasRoom_of_put {c : Console} {text : String} {u : Unit}
    (h : (c.put text).1 = .ok u) : c.sink.hasRoom (encode text.toList).length := by
  have hsize : text.toUTF8.data.size = (encode text.toList).length := by
    rw [← toUTF8_eq_encode, Array.length_toList]
  simp only [put, hsize] at h
  by_contra hroom
  rw [if_neg hroom] at h
  cases h

/-! ### Evaluation that writes nothing -/

/-- The machine with another output. -/
def Machine.withSink (m : Machine) (s : Sink) : Machine :=
  { m with console := m.console.withSink s }

/-- The first console is the second with another output that can be flushed as well, and the second
holds so much output. -/
structure Console.Quiet (size : Nat) (s : Sink) (c c' : Console) : Prop where
  eq : c = c'.withSink s
  size : c'.sink.written.size = size
  refusesFlush : s.refusesFlush = c'.sink.refusesFlush

/-- If the second run has a result, it has written something. -/
def Outcome.Written (size : Nat) (α : Type) (_ y : Outcome Machine α) : Prop :=
  ∀ a m, y = .done a m → size < m.console.sink.written.size

variable {size : Nat} {s : Sink}

theorem Console.Quiet.readInt {c c' : Console} (h : c.Quiet size s c') :
    c.readInt.1 = c'.readInt.1 ∧ c.readInt.2.Quiet size s c'.readInt.2 := by
  rw [h.eq, readInt_withSink c' h.refusesFlush]
  exact ⟨rfl, rfl, by rw [sink_readInt, h.size], by rw [sink_readInt, h.refusesFlush]⟩

theorem Console.Precedes.size_le {c c' : Console} (h : c.Precedes c') :
    c.sink.written.size ≤ c'.sink.written.size :=
  h.written.length_le

theorem put_quiet (hroom : s.hasRoom 0) (text : String) :
    Action.Twin (Console.Quiet size s) (Outcome.Written size)
      (.onConsole (·.put text)) (.onConsole (·.put text)) where
  ends {m m'} h := by
    cases hresult : (m'.console.put text).1 with
    | error e =>
      right
      intro a t ht
      rw [Action.onConsole_of_error hresult] at ht
      cases ht
    | ok _ =>
      have hput := Console.put_of_hasRoom (Console.hasRoom_of_put hresult)
      cases hbytes : encode text.toList with
      | nil =>
        left
        have hsink : m.console.sink = s := by rw [h.console.eq]; rfl
        have hroom' : m.console.sink.hasRoom (encode text.toList).length := by
          rw [hbytes, hsink]
          exact hroom
        have hput' := Console.put_of_hasRoom hroom'
        rw [hbytes, Sink.append_nil] at hput hput'
        apply h.alike_onConsole
        · rw [hput, hput']
        · rw [hput, hput']
          exact h.console
      | cons b bytes =>
        right
        intro a t ht
        rw [Action.onConsole_of_ok hresult] at ht
        cases ht
        rw [hput, hbytes, ← h.console.size]
        simp [Sink.append]
  progress := console_stable.congruence.put text

/-- Runs on two outputs part where the second writes something. -/
theorem parting_of_quiet (hroom : s.hasRoom 0) :
    Parting (Console.Quiet size s) (Outcome.Written size) where
  readInt :=
    { ends := fun h => .inl (h.alike_onConsole h.console.readInt.1 h.console.readInt.2)
      progress := console_stable.congruence.readInt }
  put := put_quiet hroom
  mapState {α x y f} h hf := by
    intro a t ht
    obtain ⟨t', hy, rfl⟩ := Outcome.mapState_eq_done_iff.1 ht
    rw [hf]
    exact h a t' hy
  bind {α β x y f g m m'} h hg := by
    intro b t ht
    obtain ⟨a, t', hy, hrest⟩ := Action.bind_eq_done_iff.1 ht
    have hprecedes : t'.console.Precedes t.console := (hg a).of_done hrest
    exact Nat.lt_of_lt_of_le (h a t' hy) hprecedes.size_le

variable {w : Setting} {n : Nat} {scope : ScopeId} {m m' : Machine}

/-- Evaluation that writes nothing goes the same way on every other output that can be flushed as
well. -/
theorem evalExpr_withSink {e : Expr} {v : Value} (h : evalExpr w n scope e m = .done v m')
    (hsize : m'.console.sink.written.size ≤ m.console.sink.written.size)
    (hflush : s.refusesFlush = m.console.sink.refusesFlush) (hroom : s.hasRoom 0) :
    evalExpr w n scope e (m.withSink s) = .done v (m'.withSink s) ∧
      s.refusesFlush = m'.console.sink.refusesFlush := by
  have hparting : Parting (Console.Quiet m.console.sink.written.size s)
    (Outcome.Written m.console.sink.written.size) := parting_of_quiet hroom
  have htwin : (m.withSink s).Twin (Console.Quiet m.console.sink.written.size s) m :=
    ⟨rfl, rfl, rfl, rfl, hflush⟩
  rcases ((hparting.evalExpr_execStmt w n).1 scope e).ends htwin with halike | hwritten
  · obtain ⟨⟨scopes, calls, console⟩, ht, rfl, rfl, hquiet⟩ := halike.done_left h
    obtain ⟨rfl, -, hflush'⟩ := hquiet
    exact ⟨ht, hflush'⟩
  · exact absurd (hwritten v m' h) (Nat.not_lt.2 hsize)

/-! ### Write statements -/

theorem keeps_mapM {α β : Type} {eval : α → Action Machine β}
    (heval : ∀ a, (eval a).Keeps (Order.Preimage Machine.console Console.Precedes)) (l : List α) :
    (l.mapM eval).Keeps (Order.Preimage Machine.console Console.Precedes) := by
  induction l with
  | nil => exact .pure _
  | cons a l ih =>
    rw [List.mapM_cons]
    exact (heval a).bind fun _ => ih.bind fun _ => .pure _

/-- Where a list has results, its first item has one, and the others have theirs after it; where the
whole writes nothing, neither part does. -/
theorem mapM_cons_eq_done {α β : Type} {eval : α → Action Machine β}
    (heval : ∀ a, (eval a).Keeps (Order.Preimage Machine.console Console.Precedes)) {a : α}
    {l : List α} {results : List β} (h : (a :: l).mapM eval m = .done results m')
    (hsize : m'.console.sink.written.size ≤ m.console.sink.written.size) :
    ∃ b bs m₁, results = b :: bs ∧ eval a m = .done b m₁ ∧ l.mapM eval m₁ = .done bs m' ∧
      m₁.console.sink.written.size ≤ m.console.sink.written.size ∧
      m'.console.sink.written.size ≤ m₁.console.sink.written.size := by
  rw [List.mapM_cons] at h
  obtain ⟨b, m₁, hfirst, hrest⟩ := Action.bind_eq_done_iff.1 h
  obtain ⟨bs, m₂, hothers, hpure⟩ := Action.bind_eq_done_iff.1 hrest
  obtain ⟨rfl, rfl⟩ := Action.pure_eq_done_iff.1 hpure
  have hbefore : m.console.Precedes m₁.console := (heval a).of_done hfirst
  have hafter : m₁.console.Precedes m₂.console := (keeps_mapM heval l).of_done hothers
  exact ⟨b, bs, m₁, rfl, hfirst, hothers, hafter.size_le.trans hsize,
    hsize.trans hbefore.size_le⟩

theorem put_withSink {text : String} (hroom : s.hasRoom (encode text.toList).length) :
    Action.onConsole (·.put text) (m.withSink s) =
      .done () (m.withSink (s.append (encode text.toList))) := by
  have hput : (m.withSink s).console.put text = _ := Console.put_of_hasRoom hroom
  simp only [Action.onConsole, hput]
  rfl

theorem writeAll_items {es : List Expr} {row : List Int64}
    (h : es.mapM (evalExpr w n scope) m = .done (row.map .int) m')
    (hsize : m'.console.sink.written.size ≤ m.console.sink.written.size)
    (hflush : s.refusesFlush = m.console.sink.refusesFlush)
    (hroom : s.hasRoom (encode (printedItems row)).length) :
    writeAll (evalExpr w n scope) (es.map .expr) (m.withSink s) =
        .done () (m'.withSink (s.append (encode (printedItems row)))) ∧
      s.refusesFlush = m'.console.sink.refusesFlush := by
  induction es generalizing row m s with
  | nil =>
    obtain ⟨hrow, rfl⟩ := Action.pure_eq_done_iff.1 h
    obtain rfl := List.map_eq_nil_iff.1 hrow.symm
    exact ⟨rfl, hflush⟩
  | cons e es ih =>
    obtain ⟨v, vs, m₁, hvalues, heval, hothers, hsilent, hsilent'⟩ :=
      mapM_cons_eq_done (console_stable.keeps_evalExpr w n scope) h hsize
    obtain ⟨i, row, rfl, rfl, rfl⟩ := List.map_eq_cons_iff.1 hvalues
    have hprinted : encode (printedItems (i :: row)) =
        encode (toString i.toInt ++ " ").toList ++ encode (printedItems row) := by
      rw [← encode_append, String.toList_append]
      rfl
    rw [hprinted] at hroom ⊢
    have hitem : s.hasRoom (encode (toString i.toInt ++ " ").toList).length :=
      Sink.hasRoom_mono hroom (by simp)
    obtain ⟨heval', hflush₁⟩ := evalExpr_withSink heval hsilent hflush
      (Sink.hasRoom_mono hroom (Nat.zero_le _))
    have hroom' := Sink.hasRoom_append.2 hroom
    obtain ⟨hrest, hflush'⟩ := @ih (s.append _) _ _ hothers hsilent' hflush₁ hroom'
    refine ⟨?_, hflush'⟩
    rw [List.map_cons, writeAll, Action.bind_of_done heval', ← Sink.append_append, ← hrest]
    exact Action.bind_of_done (put_withSink hitem)

theorem execStmt_write {es : List Expr} {row : List Int64}
    (h : es.mapM (evalExpr w n scope) m = .done (row.map .int) m')
    (hsize : m'.console.sink.written.size ≤ m.console.sink.written.size)
    (hflush : s.refusesFlush = m.console.sink.refusesFlush)
    (hroom : s.hasRoom (encode (printedRow row)).length) :
    execStmt w (n + 1) scope (.write (es.map .expr)) (m.withSink s) =
        .done .normal (m'.withSink (s.append (encode (printedRow row)))) ∧
      s.refusesFlush = m'.console.sink.refusesFlush := by
  have hprinted : encode (printedRow row) = encode (printedItems row) ++ encode "\n".toList :=
    encode_append _ _
  rw [hprinted] at hroom ⊢
  obtain ⟨hitems, hflush'⟩ := writeAll_items h hsize hflush (Sink.hasRoom_mono hroom (by simp))
  refine ⟨?_, hflush'⟩
  rw [execStmt, Action.bind_of_done hitems, ← Sink.append_append]
  exact Action.bind_of_done (put_withSink (Sink.hasRoom_append.2 hroom))

/-- Write statements print a row each. -/
theorem execAll_writes {rows : List (List Expr)} {values : List (List Int64)}
    (h : rows.mapM (fun row => row.mapM (evalExpr w n scope)) m =
      .done (values.map fun row => row.map .int) m')
    (hsize : m'.console.sink.written.size ≤ m.console.sink.written.size)
    (hflush : s.refusesFlush = m.console.sink.refusesFlush)
    (hroom : s.hasRoom (printed values).length) :
    execAll (execStmt w (n + 1) scope) (rows.map fun row => .write (row.map .expr))
      (m.withSink s) = .done .normal (m'.withSink (s.append (printed values))) := by
  induction rows generalizing values m s with
  | nil =>
    obtain ⟨hvalues, rfl⟩ := Action.pure_eq_done_iff.1 h
    obtain rfl := List.map_eq_nil_iff.1 hvalues.symm
    rw [show printed [] = [] from rfl, Sink.append_nil]
    rfl
  | cons es rows ih =>
    have hkeeps (row : List Expr) := keeps_mapM (console_stable.keeps_evalExpr w n scope) row
    obtain ⟨v, vs, m₁, hvalues, hrow, hothers, hsilent, hsilent'⟩ :=
      mapM_cons_eq_done hkeeps h hsize
    obtain ⟨row, values, rfl, rfl, rfl⟩ := List.map_eq_cons_iff.1 hvalues
    have hprinted : printed (row :: values) = encode (printedRow row) ++ printed values :=
      encode_append _ _
    rw [hprinted] at hroom ⊢
    obtain ⟨hwrite, hflush₁⟩ := execStmt_write hrow hsilent hflush
      (Sink.hasRoom_mono hroom (by simp))
    have hroom' := Sink.hasRoom_append.2 hroom
    rw [← Sink.append_append, ← @ih (s.append _) _ _ hothers hsilent' hflush₁ hroom']
    exact Action.bind_of_done hwrite

/-- Constants have their values, and write nothing. -/
theorem mapM_literals (w : Setting) (n : Nat) (scope : ScopeId) (values : List (List Int64))
    (m : Machine) :
    (values.map fun row => row.map Expr.int).mapM
        (fun row => row.mapM (evalExpr w (n + 1) scope)) m =
      .done (values.map fun row => row.map .int) m := by
  have hrow (row : List Int64) :
      (row.map Expr.int).mapM (evalExpr w (n + 1) scope) m = .done (row.map .int) m := by
    induction row with
    | nil => rfl
    | cons i row ih =>
      rw [List.map_cons, List.mapM_cons]
      exact Action.bind_of_done ih
  induction values with
  | nil => rfl
  | cons row values ih =>
    rw [List.map_cons, List.mapM_cons, Action.bind_of_done (hrow row), Action.bind_of_done ih]
    rfl

/-- What is printed is read back, and then the input ends. -/
theorem readInt_printed (values : List (List Int64)) {sink : Sink}
    (hsink : sink.refusesFlush = false) (k : Nat) :
    ((Console.reading (printed values) sink).afterReads k).readInt.1 =
      match values.flatten[k]? with
      | some i => .ok i
      | none => .error .endOfInput := by
  have hanswer := @Console.answer_afterReads (.reading (printed values) sink) hsink k
  rw [Console.events_reading, Event.ofInput_printed, List.getElem?_map] at hanswer
  cases hnext : values.flatten[k]? with
  | none =>
    rw [hnext] at hanswer
    exact hanswer
  | some i =>
    rw [hnext] at hanswer
    have hi : (Event.word (toString i.toInt)).Answered (.ok i) := Text.isDecimal_toString i.toInt
    exact (Event.answered_iff.1 hanswer).trans (Event.answered_iff.1 hi).symm

/-- Write statements whose expressions have integers as their values, and write nothing themselves,
print these integers, a row for each statement, where there is room for them. For constants nothing
else is needed. What is printed is read back from the start: the same integers in the same order,
and then there is the end of the input. -/
theorem written_integers_are_read_back :
    (∀ (w : Setting) (n : Nat) (scope : ScopeId) (rows : List (List Expr))
        (values : List (List Int64)) (m m' : Machine),
      rows.mapM (fun row => row.mapM (evalExpr w n scope)) m =
        .done (values.map fun row => row.map .int) m' →
      m'.console.sink = m.console.sink →
      m.console.sink.hasRoom (printed values).length →
      execAll (execStmt w (n + 1) scope) (rows.map fun row => .write (row.map .expr)) m =
        .done .normal (m'.withSink (m.console.sink.append (printed values)))) ∧
    (∀ (w : Setting) (n : Nat) (scope : ScopeId) (values : List (List Int64)) (m : Machine),
      m.console.sink.hasRoom (printed values).length →
      execAll (execStmt w (n + 2) scope)
          (values.map fun row => .write (row.map fun i => .expr (.int i))) m =
        .done .normal (m.withSink (m.console.sink.append (printed values)))) ∧
    ∀ (values : List (List Int64)) (sink : Sink), sink.refusesFlush = false → ∀ k,
      ((Console.reading (printed values) sink).afterReads k).readInt.1 =
        match values.flatten[k]? with
        | some i => .ok i
        | none => .error .endOfInput := by
  refine ⟨fun w n scope rows values m m' h hsilent hroom => ?_,
    fun w n scope values m hroom => ?_, fun values sink hsink k => ?_⟩
  · exact execAll_writes h (by rw [hsilent]) rfl hroom
  · have h := execAll_writes (mapM_literals w n scope values m) le_rfl rfl hroom
    simp only [List.map_map, Function.comp_def] at h
    exact h
  · exact readInt_printed values hsink k

/-- A method that reads its result. -/
def asking : Setting := ⟨[.ofDecl ⟨"ask", some ⟨"int"⟩, [], [.read ["ask"]]⟩], defaultLimit⟩

/-- Before the input `7`, with some output. -/
def beforeSeven : Machine := ⟨.initial, #[], .reading [55] ⟨#[33], some 64, false⟩⟩

/-- After the input `7`, with the same output. -/
def afterSeven : Machine := ⟨.initial, #[], [], [], #[33], some 64, false⟩

/-- The least integer is written in a line with a sum, and an integer that is read by itself; there
is an empty line between them. -/
theorem least_integer_is_read_back :
    afterSeven.console.sink = beforeSeven.console.sink ∧
    beforeSeven.console.sink.hasRoom (printed [[Int64.minValue, 3], [], [7]]).length ∧
    execAll (execStmt asking 6 Scopes.root) [
        .write [.expr (.int Int64.minValue), .expr (.binary (.int 1) .add (.int 2))], .write [],
        .write [.expr (.call "ask" [])]] beforeSeven =
      .done .normal (afterSeven.withSink
        (beforeSeven.console.sink.append (printed [[Int64.minValue, 3], [], [7]]))) ∧
    printed [[Int64.minValue, 3], [], [7]] =
      encode "-9223372036854775808 3 \n\n7 \n".toList ∧
    ((Console.reading (printed [[Int64.minValue, 3], [], [7]]) Program.anySink).afterReads
      2).readInt.1 = .ok 7 := by
  have hvalues : [[.int Int64.minValue, .binary (.int 1) .add (.int 2)], [], [.call "ask" []]].mapM
      (fun row => row.mapM (evalExpr asking 5 Scopes.root)) beforeSeven =
        .done ([[Int64.minValue, 3], [], [7]].map fun row => row.map .int) afterSeven := by cbv
  have hprinted : printed [[Int64.minValue, 3], [], [7]] =
      encode "-9223372036854775808 3 \n\n7 \n".toList := by cbv
  have hroom : beforeSeven.console.sink.hasRoom
      (printed [[Int64.minValue, 3], [], [7]]).length := by
    rw [hprinted]
    decide
  obtain ⟨hwrite, -, hread⟩ := written_integers_are_read_back
  exact ⟨rfl, hroom, hwrite asking 5 Scopes.root _ _ beforeSeven afterSeven hvalues rfl hroom,
    hprinted, hread [[Int64.minValue, 3], [], [7]] Program.anySink rfl 2⟩

end MethodLang
