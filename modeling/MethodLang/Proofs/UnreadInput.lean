import Mathlib
import MethodLang.Proofs.Parting

/-!
# Input that is not read

Input is pulled line by line, and no line before a read needs it. A run that has not pulled all of
its input would have gone the same way with any other bytes in the place of what it left, and what
it has pulled are whole lines.
-/

namespace MethodLang

/-! ### Lines -/

/-- A line that has its line feed, at the end and nowhere else. -/
def IsLine (line : List UInt8) : Prop := ∃ text, 10 ∉ text ∧ line = text ++ [10]

theorem linesOf_cons (b : UInt8) (bytes : List UInt8) :
    linesOf (b :: bytes) = linesOf.step b (linesOf bytes) := rfl

theorem flatten_linesOf (bytes : List UInt8) : (linesOf bytes).flatten = bytes := by
  induction bytes with
  | nil => rfl
  | cons b bytes ih =>
    rw [linesOf_cons]
    cases hlines : linesOf bytes with
    | nil =>
      rw [hlines] at ih
      simp [linesOf.step, ← ih]
    | cons line rest =>
      rw [hlines] at ih
      by_cases hb : b = 10 <;> simp [linesOf.step, hb, ← ih]

/-- Only the last line may lack its line feed. -/
theorem isLine_of_mem_dropLast {bytes line : List UInt8} (h : line ∈ (linesOf bytes).dropLast) :
    IsLine line := by
  induction bytes generalizing line with
  | nil => simp [linesOf] at h
  | cons b bytes ih =>
    rw [linesOf_cons] at h
    cases hlines : linesOf bytes with
    | nil => simp [hlines, linesOf.step] at h
    | cons first rest =>
      rw [hlines] at h ih
      by_cases hb : b = 10
      · rw [linesOf.step, if_pos hb, List.dropLast_cons_cons, List.mem_cons] at h
        rcases h with rfl | h
        · exact ⟨[], List.not_mem_nil, by simp [hb]⟩
        · exact ih h
      · rw [linesOf.step, if_neg hb] at h
        cases rest with
        | nil => simp at h
        | cons second rest =>
          rw [List.dropLast_cons_cons, List.mem_cons] at h
          rcases h with rfl | h
          · obtain ⟨text, htext, rfl⟩ := ih List.mem_cons_self
            exact ⟨b :: text, by simp [htext, Ne.symm hb], rfl⟩
          · exact ih (by simp [h])

theorem linesOf_line_append {line : List UInt8} (h : IsLine line) (bytes : List UInt8) :
    linesOf (line ++ bytes) = line :: linesOf bytes := by
  obtain ⟨text, htext, rfl⟩ := h
  induction text with
  | nil =>
    rw [List.nil_append, List.singleton_append, linesOf_cons]
    cases linesOf bytes <;> simp [linesOf.step]
  | cons b text ih =>
    rw [List.mem_cons, not_or] at htext
    rw [List.cons_append, List.cons_append, linesOf_cons, ih htext.2, linesOf.step,
      if_neg (Ne.symm htext.1)]

/-- What follows whole lines is cut into lines by itself. -/
theorem linesOf_append {lines : List (List UInt8)} (h : ∀ line ∈ lines, IsLine line)
    (bytes : List UInt8) : linesOf (lines.flatten ++ bytes) = lines ++ linesOf bytes := by
  induction lines with
  | nil => rfl
  | cons line lines ih =>
    rw [List.forall_mem_cons] at h
    rw [List.flatten_cons, List.append_assoc, linesOf_line_append h.1, ih h.2, List.cons_append]

/-- Whole lines end with a line feed. -/
theorem getLast?_flatten_of_isLine {lines : List (List UInt8)} (h : ∀ line ∈ lines, IsLine line) :
    lines.flatten = [] ∨ lines.flatten.getLast? = some 10 := by
  induction lines using List.reverseRecOn with
  | nil => exact .inl rfl
  | append_singleton lines line _ =>
    obtain ⟨text, -, rfl⟩ := h line (by simp)
    right
    simp

/-! ### Consoles -/

namespace Console

/-- The bytes of the input that have not been pulled yet. -/
def remaining (c : Console) : List UInt8 := c.unread.flatten

/-- A console on some input, before anything is read. -/
def reading (input : List UInt8) (sink : Sink) : Console := ⟨linesOf input, [], sink⟩

/-- The consoles differ only in the lines that come last: `rest` in the first and `rest'` in the
second. -/
structure DifferIn (rest rest' : List (List UInt8)) (c c' : Console) : Prop where
  pending : c.pending = c'.pending
  sink : c.sink = c'.sink
  unread : ∃ lines, c.unread = lines ++ rest ∧ c'.unread = lines ++ rest'

variable {c c' : Console} {rest rest' : List (List UInt8)}

/-- Pulling that stops before the last lines does not depend on them. -/
theorem pull_append (rest : List (List UInt8)) (hrest : rest' ≠ []) (lines : List (List UInt8))
    (hstop : rest'.length ≤ (pull (lines ++ rest')).2.length) :
    ∃ found left, pull (lines ++ rest) = (found, left ++ rest) ∧
      pull (lines ++ rest') = (found, left ++ rest') := by
  induction lines with
  | nil =>
    -- nothing is pulled without the first of these lines
    have hlength := (pull_suffix rest').length_le
    have hpos := List.length_pos_of_ne_nil hrest
    rw [List.nil_append] at hstop
    rw [List.length_tail] at hlength
    omega
  | cons line lines ih =>
    simp only [List.cons_append] at hstop ⊢
    cases htext : decodeLine? line with
    | none =>
      simp only [pull, htext]
      exact ⟨_, lines, rfl, rfl⟩
    | some text =>
      cases hwords : Text.words text.toList with
      | nil =>
        simp only [pull, htext, hwords] at hstop ⊢
        exact ih hstop
      | cons word words =>
        simp only [pull, htext, hwords]
        exact ⟨_, lines, rfl, rfl⟩

theorem unread_nextWord (unread : List (List UInt8)) (sink : Sink) :
    (nextWord ⟨unread, [], sink⟩).2.unread = (pull unread).2 := by
  simp only [nextWord]
  rcases pull unread with ⟨_ | ⟨word, words⟩, left⟩ <;> rfl

theorem DifferIn.nextWord (h : c.DifferIn rest rest' c') (hrest : rest' ≠ [])
    (hstop : rest'.length ≤ c'.nextWord.2.unread.length) :
    c.nextWord.1 = c'.nextWord.1 ∧ c.nextWord.2.DifferIn rest rest' c'.nextWord.2 := by
  obtain ⟨unread, pending, sink⟩ := c
  obtain ⟨unread', pending', sink'⟩ := c'
  obtain ⟨rfl, rfl, lines, rfl, rfl⟩ := h
  cases pending with
  | cons word words => exact ⟨rfl, rfl, rfl, lines, rfl, rfl⟩
  | nil =>
    rw [unread_nextWord] at hstop
    obtain ⟨found, left, hpull, hpull'⟩ := pull_append rest hrest lines hstop
    simp only [Console.nextWord, hpull, hpull']
    rcases found with _ | ⟨word, words⟩ <;> exact ⟨rfl, rfl, rfl, left, rfl, rfl⟩

/-- A read that stops before the last lines does not depend on them. -/
theorem DifferIn.readInt (h : c.DifferIn rest rest' c') (hrest : rest' ≠ [])
    (hstop : rest'.length ≤ c'.readInt.2.unread.length) :
    c.readInt.1 = c'.readInt.1 ∧ c.readInt.2.DifferIn rest rest' c'.readInt.2 := by
  have hsame : c.flush = c'.flush := by rw [flush, flush, h.sink]
  cases hflush : c'.flush with
  | error e =>
    rw [readInt_of_flush_error hflush, readInt_of_flush_error (hsame.trans hflush)]
    exact ⟨rfl, h⟩
  | ok _ =>
    rw [readInt_of_flush_ok hflush] at hstop ⊢
    rw [readInt_of_flush_ok (hsame.trans hflush)]
    obtain ⟨hword, hdiffer⟩ := h.nextWord hrest hstop
    exact ⟨by rw [hword], hdiffer⟩

theorem DifferIn.put (h : c.DifferIn rest rest' c') (text : String) :
    (c.put text).1 = (c'.put text).1 ∧ (c.put text).2.DifferIn rest rest' (c'.put text).2 := by
  constructor
  · simp only [Console.put, h.sink]
  · exact ⟨h.pending, by simp only [Console.put, h.sink], h.unread⟩

end Console

/-! ### Evaluation -/

/-- The second run has pulled some of the last lines. -/
def Outcome.ReadsOn (rest' : List (List UInt8)) (α : Type) (_ y : Outcome Machine α) : Prop :=
  y.Leaves fun m => m.console.unread.length < rest'.length

variable {rest rest' : List (List UInt8)}

theorem readInt_twin (rest : List (List UInt8)) (hrest : rest' ≠ []) :
    Action.Twin (Console.DifferIn rest rest') (Outcome.ReadsOn rest')
      (.onConsole Console.readInt) (.onConsole Console.readInt) where
  ends {m m'} h := by
    by_cases hstop : rest'.length ≤ m'.console.readInt.2.unread.length
    · left
      obtain ⟨hresult, hdiffer⟩ := h.console.readInt hrest hstop
      exact h.alike_onConsole hresult hdiffer
    · right
      exact Action.leaves_onConsole (Nat.lt_of_not_le hstop)
  progress := console_stable.congruence.readInt

/-- Runs on inputs that differ in their last lines part where the second pulls such a line. -/
theorem parting_of_input (rest : List (List UInt8)) (hrest : rest' ≠ []) :
    Parting (Console.DifferIn rest rest') (Outcome.ReadsOn rest') where
  readInt := readInt_twin rest hrest
  put text :=
    { ends := fun h =>
        .inl (h.alike_onConsole (h.console.put text).1 (h.console.put text).2)
      progress := console_stable.congruence.put text }
  mapState {α x y f} h hf := by
    rw [Outcome.ReadsOn, Outcome.leaves_mapState]
    refine h.mono fun m hm => ?_
    rw [hf]
    exact hm
  bind {α β x y f g m m'} h hg := by
    refine Action.leaves_bind h fun a t ht => (hg a t).mono fun t' ht' => ?_
    exact Nat.lt_of_le_of_lt ht'.unread.length_le ht

/-! ### Runs -/

namespace Program

/-- If a run has pulled the bytes `read` of its input and not the others, of which there are some,
then with any other bytes in their place it ends in the same way: with the same result, output,
words at hand and scopes, and with these bytes not pulled. What it has pulled are whole lines. -/
theorem unread_input_has_no_influence (p : Program) (read rest : List UInt8) (hrest : rest ≠ [])
    (sink : Sink) (ending : Ending) (h : p.EndsIn (.reading (read ++ rest) sink) ending)
    (hread : ending.console.remaining = rest) :
    (∀ other, ∃ left, p.EndsIn (.reading (read ++ other) sink) { ending with console := left } ∧
      left.remaining = other ∧ left.pending = ending.console.pending ∧
      left.sink = ending.console.sink) ∧
    (read = [] ∨ read.getLast? = some 10) := by
  obtain ⟨n, hn⟩ := h
  have hne : ending.console.unread ≠ [] := by
    intro hnil
    rw [Console.remaining, hnil] at hread
    exact hrest hread.symm
  -- the lines that were pulled are whole, as others follow
  obtain ⟨lines, hlines⟩ := (precedes_of_ending? hn).unread
  change lines ++ ending.console.unread = linesOf (read ++ rest) at hlines
  have hwhole : ∀ line ∈ lines, IsLine line := by
    intro line hline
    apply isLine_of_mem_dropLast
    rw [← hlines, List.dropLast_append_of_ne_nil hne]
    exact List.mem_append_left _ hline
  have hbytes : lines.flatten = read := by
    have hflatten := flatten_linesOf (read ++ rest)
    rw [← hlines, List.flatten_append, ← Console.remaining, hread] at hflatten
    exact List.append_cancel_right hflatten
  refine ⟨fun other => ?_, hbytes ▸ getLast?_flatten_of_isLine hwhole⟩
  have hdiffer : (Console.reading (read ++ other) sink).DifferIn (linesOf other)
      ending.console.unread (.reading (read ++ rest) sink) := by
    refine ⟨rfl, rfl, lines, ?_, hlines.symm⟩
    rw [← hbytes]
    exact linesOf_append hwhole other
  have hflush : ∀ c c' : Console, c.DifferIn (linesOf other) ending.console.unread c' →
      c.flush = c'.flush := by
    intro c c' h
    rw [Console.flush, Console.flush, h.sink]
  rcases (parting_of_input (linesOf other) hne).ending? hflush hdiffer hn with
    ⟨left, hleft, hsame⟩ | ⟨_, y, hparted, -, hy⟩
  · refine ⟨left, ⟨n, hsame⟩, ?_, hleft.pending, hleft.sink⟩
    obtain ⟨none, hunread, hself⟩ := hleft.unread
    obtain rfl : none = [] := by simpa using hself
    rw [Console.remaining, hunread, List.nil_append, flatten_linesOf]
  · obtain ⟨m, hlt, -, hconsole⟩ := hparted.of_ending? hy
    rw [← hconsole] at hlt
    exact absurd hlt (Nat.lt_irrefl _)

/-- A program that reads integers up to a zero and writes their sum. -/
def summing : Program where
  name := "summing"
  fields := [.declare "sum" ⟨"int"⟩, .assign "sum" (.int 0)]
  methods := [
    .ofDecl ⟨"main", none, [], [
      .declare "x" ⟨"int"⟩,
      .doWhile (.binary (.var "x") .ne (.int 0))
        (.seq [.read ["x"], .assign "sum" (.binary (.var "sum") .add (.var "x"))]),
      .write [.expr (.var "sum")]]⟩]
  entry := some "main"
  limit := defaultLimit
  scopes := .initial

/-- What `summing` pulls of its input: three lines, with a word too many. -/
def summands : List UInt8 := "3 4\n\n0 5\n".toUTF8.data.toList

/-- What `summing` leaves of its input. -/
def moreSummands : List UInt8 := "6\n".toUTF8.data.toList

/-- An output that takes everything. -/
def anySink : Sink := ⟨#[], none, false⟩

/-- How `summing` ends with more summands to come. -/
def summed : Ending where
  result := .ok ()
  scopes := ⟨#[⟨none, ⟨[("sum", ⟨.int, true, .int 7⟩)]⟩⟩]⟩
  console := ⟨[moreSummands], ["5"], "7 \n".toUTF8.data, none, false⟩

/-- In the place of the last line there may be bytes that are no text. -/
theorem summing_leaves_input_unread :
    moreSummands ≠ [] ∧ summing.EndsIn (.reading (summands ++ moreSummands) anySink) summed ∧
    summed.console.remaining = moreSummands ∧
    (∃ left, summing.EndsIn (.reading (summands ++ [255, 10, 55]) anySink)
        { summed with console := left } ∧
      left.remaining = [255, 10, 55] ∧ left.pending = ["5"] ∧
      left.sink = ⟨"7 \n".toUTF8.data, none, false⟩) ∧
    (summands = [] ∨ summands.getLast? = some 10) := by
  have hmore : moreSummands ≠ [] := by decide
  have hends : summing.EndsIn (.reading (summands ++ moreSummands) anySink) summed := ⟨16, by cbv⟩
  have hremaining : summed.console.remaining = moreSummands := by decide
  obtain ⟨hsame, hlines⟩ := unread_input_has_no_influence summing summands moreSummands hmore
    anySink summed hends hremaining
  exact ⟨hmore, hends, hremaining, hsame [255, 10, 55], hlines⟩

end Program

end MethodLang
