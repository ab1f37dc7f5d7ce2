import Mathlib.Order.RelClasses
import MethodLang.Proofs.Congruence
import MethodLang.Proofs.Endings

/-!
# Progress at the console

Input is only used up and output is only added. One console precedes another if the other still
has its output in front and has nothing to read that was not there to read: lines not pulled yet
are a tail of the lines before, and while no line is pulled, the words at hand are a tail of the
words before.

* `readInt_precedes` and `put_precedes` say that reading and writing make progress;
* `console_stable` says that no step of evaluation undoes it, and `Program.precedes_of_ending?`
  that a run does not.
-/

namespace MethodLang

namespace Console

/-- The second console may be what the first has become. -/
structure Precedes (c c' : Console) : Prop where
  written : c.sink.written.toList <+: c'.sink.written.toList
  unread : c'.unread <:+ c.unread
  pending : c'.unread = c.unread → c'.pending <:+ c.pending

namespace Precedes

variable {c c' c'' : Console}

theorem refl (c : Console) : c.Precedes c :=
  ⟨List.prefix_rfl, List.suffix_rfl, fun _ => List.suffix_rfl⟩

theorem trans (h : c.Precedes c') (h' : c'.Precedes c'') : c.Precedes c'' where
  written := h.written.trans h'.written
  unread := h'.unread.trans h.unread
  pending heq := by
    -- no line was pulled on the way either
    have hmid : c'.unread = c.unread := by
      refine h.unread.eq_of_length_le ?_
      rw [← heq]
      exact h'.unread.length_le
    have hlast : c''.unread = c'.unread := heq.trans hmid.symm
    exact (h'.pending hlast).trans (h.pending hmid)

instance : IsPreorder Console Precedes where
  refl := refl
  trans _ _ _ := trans

end Precedes

/-! ### Reading -/

theorem pull_suffix (lines : List (List UInt8)) : (pull lines).2 <:+ lines.tail := by
  induction lines with
  | nil => exact List.suffix_rfl
  | cons line rest ih =>
    rw [pull, List.tail_cons]
    split
    · exact List.suffix_rfl
    · split
      · exact ih.trans (List.tail_suffix rest)
      · exact List.suffix_rfl

/-- Only without any line left does pulling use up no line, and then it finds no word. -/
theorem pull_eq_self {lines : List (List UInt8)} (h : (pull lines).2 = lines) : lines = [] := by
  have hlength := (pull_suffix lines).length_le
  rw [h, List.length_tail] at hlength
  cases lines with
  | nil => rfl
  | cons line rest =>
    rw [List.length_cons] at hlength
    omega

theorem nextWord_precedes (c : Console) : c.Precedes c.nextWord.2 := by
  obtain ⟨unread, pending, sink⟩ := c
  cases pending with
  | cons word rest => exact ⟨List.prefix_rfl, List.suffix_rfl, fun _ => List.suffix_cons word rest⟩
  | nil =>
    have hsuffix : (pull unread).2 <:+ unread :=
      (pull_suffix unread).trans (List.tail_suffix unread)
    have hself : (pull unread).2 = unread → unread = [] := pull_eq_self
    simp only [nextWord]
    cases hp : pull unread with
    | mk found left =>
      rw [hp] at hsuffix hself
      cases found with
      | error e => exact ⟨List.prefix_rfl, hsuffix, fun _ => List.suffix_rfl⟩
      | ok found =>
        refine ⟨List.prefix_rfl, hsuffix, fun heq => ?_⟩
        rw [hself heq] at hp
        cases hp

theorem readInt_of_flush_error {c : Console} {e : ConsoleError} (h : c.flush = .error e) :
    c.readInt = (.error e, c) := by
  rw [readInt, h]

theorem readInt_of_flush_ok {c : Console} {u : Unit} (h : c.flush = .ok u) :
    c.readInt = (c.nextWord.1.bind integer, c.nextWord.2) := by
  rw [readInt, h]
  rcases c.nextWord with ⟨_ | word, left⟩ <;> rfl

theorem readInt_precedes (c : Console) : c.Precedes c.readInt.2 := by
  cases hflush : c.flush with
  | error e =>
    rw [readInt_of_flush_error hflush]
    exact .refl c
  | ok _ =>
    rw [readInt_of_flush_ok hflush]
    exact nextWord_precedes c

/-! ### Writing -/

theorem put_precedes (c : Console) (text : String) : c.Precedes (c.put text).2 where
  written := by
    simp only [put, Sink.write]
    cases c.sink.capacity with
    | none => simp
    | some capacity => simp
  unread := List.suffix_rfl
  pending _ := List.suffix_rfl

end Console

/-! ### Evaluation -/

/-- Evaluation only goes on at the console. -/
theorem console_stable : Machine.Stable (Order.Preimage Machine.console Console.Precedes) where
  declare _ := Console.Precedes.refl _
  assign _ := Console.Precedes.refl _
  readInt m := m.console.readInt_precedes
  put m text := m.console.put_precedes text
  inScope _ h := h
  inCall _ h := h

/-- A run only goes on at the console. -/
theorem Program.precedes_of_ending? {p : Program} {n : Nat} {console : Console} {ending : Ending}
    (h : p.ending? n console = some ending) : console.Precedes ending.console := by
  cases hentry : p.entry with
  | none =>
    rw [ending?_of_no_entry hentry] at h
    cases h
    exact .refl console
  | some entry =>
    rw [ending?_of_entry hentry] at h
    have hleaves := console_stable.keeps_action p n entry ⟨.initial, #[], console⟩
    obtain ⟨m, hm, -, hconsole⟩ := hleaves.of_ending? h
    rw [hconsole]
    exact hm

end MethodLang
