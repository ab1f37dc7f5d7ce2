import Mathlib
import MethodLang.Proofs.Text.Decimals
import MethodLang.Proofs.Text.Splitting

/-!
# Reading integers

An input is a sequence of events: the words of each line that is a text, in order, and one failure
for each line that is none. The input alone determines them. The first read answers the first event,
the next read the next, and after the last event there is only the end of the input; that input is
pulled a line at a time shows nowhere.

* `Event.answered_iff` says that an event has one answer;
* `Console.events` says which events a console has before it;
* `Console.readInt_of_events_nil` and `Console.readInt_of_events_cons` say what one read does, and
  `Console.events_afterReads` and `Console.answer_afterReads` what any number of reads has done;
* `Event.ofInput_encode` says that the events of a text are its words, across its lines;
* `Console.reads_answer_events` puts this together.
-/

namespace MethodLang

/-- What a read meets in the input: a word, or a line that is no text. -/
inductive Event
  | word (text : String)
  | undecodable
  deriving DecidableEq

namespace Event

/-- The words of a text: the pieces between its blanks that are not empty. -/
def ofText (text : String) : List Event :=
  ((text.toList.splitOnP Text.isBlank).filter (· ≠ [])).map fun w => .word (.ofList w)

/-- A line that is a text has its words; any other is one failure. -/
def ofLine (line : List UInt8) : List Event :=
  match Console.decodeLine? line with
  | none => [.undecodable]
  | some text => ofText text

/-- The events of an input that is cut into lines, each with its line feed. -/
def ofInput (input : List UInt8) : List Event :=
  (input.splitBy fun b _ => b != 10).flatMap ofLine

/-- What answers an event: the integer that the word writes, if it writes one that 64 bits hold. -/
def Answered : Event → Except ConsoleError Int64 → Prop
  | .word text, .ok i => Text.IsDecimal text.toList i.toInt
  | .word text, .error e =>
    e = .notAnInteger text ∧ ∀ n, Text.IsDecimal text.toList n → ¬Text.Holds64 n
  | .undecodable, answer => answer = .error .undecodable

/-- What is found where an event is next: a word, or a failure. -/
def found : Event → Except ConsoleError String
  | .word text => .ok text
  | .undecodable => .error .undecodable

/-- An event has one answer: a word is read as the integer that it writes. -/
theorem answered_iff {event : Event} {answer : Except ConsoleError Int64} :
    event.Answered answer ↔ answer = event.found.bind Console.integer := by
  cases event with
  | undecodable => rfl
  | word text =>
    change _ ↔ answer = Console.integer text
    rw [Console.integer]
    cases hread : Text.int64OfDecimal? text.toList with
    | some i =>
      have hi := Text.int64OfDecimal?_eq_some_iff.1 hread
      cases answer with
      | ok j =>
        rw [Answered, ← Text.int64OfDecimal?_eq_some_iff, hread, Option.some_inj, Except.ok.injEq,
          eq_comm]
      | error e =>
        have hholds : Text.Holds64 i.toInt := Text.holds64_iff.2 ⟨i, rfl⟩
        simp only [reduceCtorEq, iff_false]
        rintro ⟨-, hnone⟩
        exact hnone i.toInt hi hholds
    | none =>
      cases answer with
      | ok j =>
        rw [Answered, ← Text.int64OfDecimal?_eq_some_iff, hread]
        simp
      | error e =>
        rw [Answered, ← Text.int64OfDecimal?_eq_none_iff]
        simp [hread]

theorem ofText_eq_words (text : String) :
    ofText text = (Text.words text.toList).map fun w => .word (.ofList w) := by
  rw [ofText, Text.words_eq_splitOnP]

theorem ofLine_of_text {line : List UInt8} {text : String}
    (h : Console.decodeLine? line = some text) :
    ofLine line = (Text.words text.toList).map fun w => .word (.ofList w) := by
  rw [ofLine, h]
  exact ofText_eq_words text

theorem ofLine_of_no_text {line : List UInt8} (h : Console.decodeLine? line = none) :
    ofLine line = [.undecodable] := by
  rw [ofLine, h]

theorem ofInput_eq_linesOf (input : List UInt8) :
    ofInput input = (linesOf input).flatMap ofLine := by
  rw [ofInput, linesOf_eq_splitBy]

/-! ### Whole texts -/

theorem ofLine_encode (cs : List Char) :
    ofLine (encode cs) = (Text.words cs).map fun w => .word (.ofList w) := by
  have hdecode : Console.decodeLine? (encode cs) = some (.ofList cs) := by
    rw [decodeLine?_eq_some_iff, String.toList_ofList]
  rw [ofLine_of_text hdecode, String.toList_ofList]

/-- The events of a text are its words, however it is cut into lines. -/
theorem ofInput_encode (cs : List Char) :
    ofInput (encode cs) = (Text.words cs).map fun w => .word (.ofList w) := by
  rw [ofInput_eq_linesOf]
  induction cs using separator_induction '\n' with
  | last piece hpiece =>
    rw [linesOf_of_not_mem (mt lf_mem_encode_iff.1 hpiece)]
    split
    · next hnil =>
      rw [encode_eq_nil_iff.1 hnil]
      rfl
    · rw [List.flatMap_cons, ofLine_encode, List.flatMap_nil, List.append_nil]
  | step piece rest hpiece ih =>
    have hlf : Text.isBlank '\n' := by decide
    have hline : encode piece ++ [10] = encode (piece ++ ['\n']) := by
      rw [encode_append]
      rfl
    have hencode : encode (piece ++ '\n' :: rest) = encode piece ++ 10 :: encode rest := by
      rw [encode_append]
      rfl
    rw [hencode, linesOf_append_lf (mt lf_mem_encode_iff.1 hpiece), List.flatMap_cons, ih, hline,
      ofLine_encode, Text.words_append_blank hlf, Text.words_append_blank hlf, Text.words_nil,
      List.append_nil, List.map_append]

end Event

/-! ### Consoles -/

namespace Console

variable {c : Console} {event : Event} {rest : List Event}

/-- The events that a console has before it: the words at hand, and those of the lines that have
not been pulled. -/
def events (c : Console) : List Event := c.pending.map .word ++ c.unread.flatMap Event.ofLine

theorem events_reading (input : List UInt8) (sink : Sink) :
    (reading input sink).events = Event.ofInput input := by
  rw [events, reading, Event.ofInput_eq_linesOf]
  rfl

/-- A line without a word is pulled and forgotten. -/
theorem nextWord_line (line : List UInt8) (lines : List (List UInt8)) (sink : Sink) :
    nextWord ⟨line :: lines, [], sink⟩ =
      match decodeLine? line with
      | none => (.error .undecodable, ⟨lines, [], sink⟩)
      | some text =>
        match Text.words text.toList with
        | [] => nextWord ⟨lines, [], sink⟩
        | word :: words => (.ok (.ofList word), ⟨lines, words.map .ofList, sink⟩) := by
  simp only [nextWord, pull]
  cases decodeLine? line with
  | none => rfl
  | some text =>
    simp only
    cases Text.words text.toList <;> rfl

/-- Without an event there is no word, however many lines there are. -/
theorem nextWord_of_events_nil (h : c.events = []) :
    c.nextWord = (.error .endOfInput, ⟨[], [], c.sink⟩) := by
  obtain ⟨unread, pending, sink⟩ := c
  obtain ⟨hpending, hunread⟩ := List.append_eq_nil_iff.1 h
  obtain rfl := List.map_eq_nil_iff.1 hpending
  clear h hpending
  simp only at hunread
  induction unread with
  | nil => rfl
  | cons line lines ih =>
    rw [List.flatMap_cons, List.append_eq_nil_iff] at hunread
    cases hline : decodeLine? line with
    | none =>
      rw [Event.ofLine_of_no_text hline] at hunread
      cases hunread.1
    | some text =>
      rw [Event.ofLine_of_text hline, List.map_eq_nil_iff] at hunread
      simp only [nextWord_line, hline, hunread.1]
      exact ih hunread.2

/-- The first event is found, and the others are left. -/
theorem nextWord_of_events_cons (h : c.events = event :: rest) :
    c.nextWord.1 = event.found ∧ c.nextWord.2.events = rest := by
  obtain ⟨unread, pending, sink⟩ := c
  cases pending with
  | cons word words =>
    obtain ⟨rfl, rfl⟩ := List.cons.inj h
    exact ⟨rfl, rfl⟩
  | nil =>
    change unread.flatMap Event.ofLine = event :: rest at h
    induction unread with
    | nil => cases h
    | cons line lines ih =>
      rw [List.flatMap_cons] at h
      cases hline : decodeLine? line with
      | none =>
        rw [Event.ofLine_of_no_text hline] at h
        obtain ⟨rfl, rfl⟩ := List.cons.inj h
        simp only [nextWord_line, hline]
        exact ⟨rfl, rfl⟩
      | some text =>
        rw [Event.ofLine_of_text hline] at h
        cases hwords : Text.words text.toList with
        | nil =>
          rw [hwords] at h
          simp only [nextWord_line, hline, hwords]
          exact ih h
        | cons word words =>
          rw [hwords] at h
          obtain ⟨rfl, rfl⟩ := List.cons.inj h
          simp only [nextWord_line, hline, hwords]
          exact ⟨rfl, by rw [events, List.map_map]; rfl⟩

/-! ### Reads -/

/-- A read that cannot flush the output uses up nothing. -/
theorem readInt_of_refusing (h : c.sink.refusesFlush = true) :
    c.readInt = (.error .flushRefused, c) :=
  readInt_of_flush_error (by simp [flush, h])

theorem readInt_of_accepting (h : c.sink.refusesFlush = false) :
    c.readInt = (c.nextWord.1.bind integer, c.nextWord.2) :=
  @readInt_of_flush_ok c () (by simp [flush, h])

theorem readInt_of_events_nil (hsink : c.sink.refusesFlush = false) (h : c.events = []) :
    c.readInt = (.error .endOfInput, ⟨[], [], c.sink⟩) := by
  rw [readInt_of_accepting hsink, nextWord_of_events_nil h]
  rfl

/-- A read answers the first event, and leaves the others. -/
theorem readInt_of_events_cons (hsink : c.sink.refusesFlush = false)
    (h : c.events = event :: rest) :
    event.Answered c.readInt.1 ∧ c.readInt.2.events = rest := by
  obtain ⟨hfound, hrest⟩ := nextWord_of_events_cons h
  rw [readInt_of_accepting hsink, hfound]
  exact ⟨Event.answered_iff.2 rfl, hrest⟩

theorem events_readInt (hsink : c.sink.refusesFlush = false) :
    c.readInt.2.events = c.events.tail := by
  cases h : c.events with
  | nil =>
    rw [readInt_of_events_nil hsink h]
    rfl
  | cons event rest => exact (readInt_of_events_cons hsink h).2

/-- The console after so many reads. -/
def afterReads (c : Console) (k : Nat) : Console := (fun c => c.readInt.2)^[k] c

theorem afterReads_succ (c : Console) (k : Nat) :
    c.afterReads (k + 1) = (c.afterReads k).readInt.2 :=
  Function.iterate_succ_apply' _ _ _

theorem afterReads_add (c : Console) (j k : Nat) :
    c.afterReads (j + k) = (c.afterReads k).afterReads j :=
  Function.iterate_add_apply _ _ _ _

theorem sink_afterReads (c : Console) (k : Nat) : (c.afterReads k).sink = c.sink := by
  induction k with
  | zero => rfl
  | succ k ih => rw [afterReads_succ, sink_readInt, ih]

/-- So many reads use up as many events. -/
theorem events_afterReads (hsink : c.sink.refusesFlush = false) (k : Nat) :
    (c.afterReads k).events = c.events.drop k := by
  induction k with
  | zero => rfl
  | succ k ih =>
    have hsink' : (c.afterReads k).sink.refusesFlush = false := by rw [sink_afterReads, hsink]
    rw [afterReads_succ, events_readInt hsink', ih, List.tail_drop]

/-- Whatever is read, it answers the event that is next. -/
theorem answer_afterReads (hsink : c.sink.refusesFlush = false) (k : Nat) :
    match c.events[k]? with
    | some event => event.Answered (c.afterReads k).readInt.1
    | none => (c.afterReads k).readInt.1 = .error .endOfInput := by
  have hsink' : (c.afterReads k).sink.refusesFlush = false := by rw [sink_afterReads, hsink]
  rw [← List.head?_drop, ← events_afterReads hsink]
  cases hnext : (c.afterReads k).events with
  | nil => exact congrArg Prod.fst (readInt_of_events_nil hsink' hnext)
  | cons event rest => exact (readInt_of_events_cons hsink' hnext).1

/-- The integers that are read depend on the input alone. With an output that can be flushed, each
read answers the next event of the input and uses up nothing else, and past the last event there is
the end of the input. If the whole input is a text, the events are its words, whatever its lines. A
read that cannot flush the output fails and uses up nothing. Messages name the word that is no
integer, or the end of the input. -/
theorem reads_answer_events (input : List UInt8) (sink : Sink) (hsink : sink.refusesFlush = false) :
    (∀ k, ((reading input sink).afterReads k).events = (Event.ofInput input).drop k ∧
      ((reading input sink).afterReads k).sink = sink ∧
      match (Event.ofInput input)[k]? with
      | some event => event.Answered ((reading input sink).afterReads k).readInt.1
      | none => ((reading input sink).afterReads k).readInt.1 = .error .endOfInput) ∧
    (∀ text, decodeLine? input = some text → Event.ofInput input = Event.ofText text) ∧
    (∀ c : Console, c.sink.refusesFlush = true → c.readInt = (.error .flushRefused, c)) ∧
    (∀ word, (ConsoleError.notAnInteger word).message = s!"expected an integer, found `{word}`") ∧
    ConsoleError.endOfInput.message = "unexpected end of input" := by
  refine ⟨fun k => ?_, fun text htext => ?_, fun c hc => ?_, fun _ => rfl, rfl⟩
  · have hevents := @events_afterReads (reading input sink) hsink k
    have hanswer := @answer_afterReads (reading input sink) hsink k
    rw [events_reading] at hevents hanswer
    exact ⟨hevents, sink_afterReads _ k, hanswer⟩
  · rw [decodeLine?_eq_some_iff.1 htext, Event.ofInput_encode, Event.ofText_eq_words]
  · exact readInt_of_refusing hc

/-- Lines with no word, with words of all kinds between blanks of all kinds, with a byte that no
text has, and without a line feed. -/
def mixedInput : List UInt8 :=
  encode "\n +007\u2003-5x\r\n".toList ++ 49 :: 255 :: encode "\n9223372036854775808\t-0".toList

theorem mixedInput_read :
    Event.ofInput mixedInput =
        [.word "+007", .word "-5x", .undecodable, .word "9223372036854775808", .word "-0"] ∧
      ((reading mixedInput Program.anySink).afterReads 2).readInt.1 = .error .undecodable ∧
      ((reading mixedInput Program.anySink).afterReads 7).readInt.1 = .error .endOfInput := by
  have hevents : Event.ofInput mixedInput =
      [.word "+007", .word "-5x", .undecodable, .word "9223372036854775808", .word "-0"] := by cbv
  obtain ⟨hread, -⟩ := reads_answer_events mixedInput Program.anySink rfl
  obtain ⟨-, -, hthird⟩ := hread 2
  obtain ⟨-, -, hlast⟩ := hread 7
  rw [hevents] at hthird hlast
  exact ⟨hevents, hthird, hlast⟩

end Console

end MethodLang
