import Mathlib.Data.List.SplitBy
import MethodLang.Console
import MethodLang.Proofs.UnreadInput

/-!
# Texts cut into words and lines

The words of a text are the pieces between its blanks that are not empty, and the lines of an input
are cut after each line feed. Both cuts are determined by where the separators stand, so a text can
be cut at a separator first.

* `words_eq_splitOnP` and `linesOf_eq_splitBy` say what words and lines are;
* `words_append_blank` cuts the words of a text at a blank;
* `decodeLine?_eq_some_iff` says which bytes are the text of a line, and `lf_mem_encode_iff` that a
  line feed is never a part of another character.
-/

namespace MethodLang

/-- To show something of every list, show it of those without a separator, and of a piece with the
separator after it and a rest that has it. -/
theorem separator_induction {α : Type} (sep : α) {motive : List α → Prop}
    (last : ∀ piece, sep ∉ piece → motive piece)
    (step : ∀ piece rest, sep ∉ piece → motive rest → motive (piece ++ sep :: rest))
    (l : List α) : motive l := by
  induction hn : l.length using Nat.strongRecOn generalizing l with
  | ind n ih =>
    by_cases hsep : sep ∈ l
    · obtain ⟨piece, rest, rfl, hpiece⟩ := List.eq_append_cons_of_mem hsep
      refine step piece rest hpiece (ih rest.length ?_ rest rfl)
      rw [List.length_append, List.length_cons] at hn
      omega
    · exact last l hsep

namespace Text

/-! ### Words -/

theorem closeWord_eq_filter (word : List Char) (pieces : List (List Char)) :
    closeWord (word, pieces.filter (· ≠ [])) = (word :: pieces).filter (· ≠ []) := by
  cases word <;> rfl

/-- The words are the pieces between blanks that are not empty. -/
theorem words_eq_splitOnP (cs : List Char) :
    words cs = (cs.splitOnP isBlank).filter (· ≠ []) := by
  have hfold : ∃ word pieces, cs.splitOnP isBlank = word :: pieces ∧
      cs.foldr wordStep ([], []) = (word, pieces.filter (· ≠ [])) := by
    induction cs with
    | nil => exact ⟨[], [], rfl, rfl⟩
    | cons c cs ih =>
      obtain ⟨word, pieces, hsplit, hfold⟩ := ih
      rw [List.splitOnP_cons_eq_if_modifyHead, List.foldr_cons, hfold, hsplit, wordStep]
      by_cases hc : isBlank c
      · rw [if_pos hc, if_pos hc, closeWord_eq_filter]
        exact ⟨_, _, rfl, rfl⟩
      · rw [if_neg hc, if_neg hc]
        exact ⟨_, _, rfl, rfl⟩
  obtain ⟨word, pieces, hsplit, hfold⟩ := hfold
  rw [words, hfold, hsplit, closeWord_eq_filter]

@[simp] theorem words_nil : words [] = [] := rfl

/-- The words of a text are those before a blank and those after it. -/
theorem words_append_blank {b : Char} (hb : isBlank b) (xs ys : List Char) :
    words (xs ++ b :: ys) = words xs ++ words ys := by
  simp only [words_eq_splitOnP, List.splitOnP_append_cons xs ys hb, List.filter_append]

/-- Characters without a blank among them are one word. -/
theorem words_of_not_blank {w : List Char} (hne : w ≠ []) (h : ∀ c ∈ w, isBlank c = false) :
    words w = [w] := by
  rw [words_eq_splitOnP, List.splitOnP_eq_singleton h]
  simp [hne]

end Text

/-! ### Lines -/

theorem linesOf_of_not_mem {bytes : List UInt8} (h : 10 ∉ bytes) :
    linesOf bytes = if bytes = [] then [] else [bytes] := by
  induction bytes with
  | nil => rfl
  | cons b bytes ih =>
    rw [List.mem_cons, not_or] at h
    rw [linesOf_cons, ih h.2]
    cases bytes with
    | nil => rfl
    | cons c bytes => simp [linesOf.step, Ne.symm h.1]

theorem linesOf_append_lf {piece : List UInt8} (h : 10 ∉ piece) (rest : List UInt8) :
    linesOf (piece ++ 10 :: rest) = (piece ++ [10]) :: linesOf rest := by
  rw [← linesOf_line_append ⟨piece, h, rfl⟩, List.append_assoc, List.singleton_append]

/-- Before its last byte a line has no line feed. -/
theorem isChain_line {piece rest : List UInt8} (h : 10 ∉ piece) (hrest : rest.length ≤ 1) :
    (piece ++ rest).IsChain fun b _ => (b != 10) = true := by
  induction piece with
  | nil =>
    rcases rest with _ | ⟨b, _ | ⟨c, rest⟩⟩
    · exact .nil
    · exact .singleton b
    · simp at hrest
  | cons b piece ih =>
    rw [List.mem_cons, not_or] at h
    rw [List.cons_append, List.isChain_cons]
    exact ⟨fun _ _ => bne_iff_ne.2 (Ne.symm h.1), ih h.2⟩

/-- Lines are cut after line feeds, and nowhere else. -/
theorem linesOf_eq_splitBy (bytes : List UInt8) :
    linesOf bytes = bytes.splitBy fun b _ => b != 10 := by
  induction bytes using separator_induction (10 : UInt8) with
  | last piece hpiece =>
    rw [linesOf_of_not_mem hpiece]
    split
    · next h => rw [h, List.splitBy_nil]
    · next h =>
      have hchain := @isChain_line piece [] hpiece (by simp)
      rw [List.append_nil] at hchain
      rw [List.splitBy_of_isChain h hchain]
  | step piece rest hpiece ih =>
    have hcut : piece ++ 10 :: rest = (piece ++ [10]) ++ rest := by simp
    rw [linesOf_append_lf hpiece, ih, hcut, List.splitBy_append (by simp),
      List.splitBy_of_isChain (by simp) (isChain_line hpiece (by simp))]
    rfl

/-! ### Encoding -/

/-- The bytes that encode characters. -/
def encode (cs : List Char) : List UInt8 := cs.flatMap String.utf8EncodeChar

theorem encode_append (xs ys : List Char) : encode (xs ++ ys) = encode xs ++ encode ys :=
  List.flatMap_append

theorem encode_eq_nil_iff {cs : List Char} : encode cs = [] ↔ cs = [] := by
  cases cs with
  | nil => simp [encode]
  | cons c cs => simp [encode, String.utf8EncodeChar_ne_nil]

/-- A line feed is a character of its own. -/
theorem lf_mem_utf8EncodeChar_iff {c : Char} : 10 ∈ String.utf8EncodeChar c ↔ c = '\n' := by
  have hbyte : ∀ k : Nat, (10 : UInt8) = UInt8.ofNat k ↔ k % 256 = 10 := by
    intro k
    rw [← UInt8.toNat_inj, UInt8.toNat_ofNat', eq_comm]
    rfl
  have hchar : c = '\n' ↔ c.val.toNat = 10 := by
    rw [Char.ext_iff, ← UInt32.toNat_inj]
    rfl
  rw [hchar, String.utf8EncodeChar.eq_1]
  -- the bytes of every other encoding are greater
  split_ifs <;> simp only [List.mem_cons, List.not_mem_nil, or_false, hbyte] <;> omega

theorem lf_mem_encode_iff {cs : List Char} : 10 ∈ encode cs ↔ '\n' ∈ cs := by
  simp only [encode, List.mem_flatMap, lf_mem_utf8EncodeChar_iff, exists_eq_right]

theorem toUTF8_eq_encode (text : String) : text.toUTF8.data.toList = encode text.toList := by
  rw [String.toUTF8_eq_toByteArray, ← String.utf8Encode_toList, List.utf8Encode.eq_1,
    List.toList_data_toByteArray, encode]

/-- The text of a line is the one that its bytes encode. -/
theorem decodeLine?_eq_some_iff {line : List UInt8} {text : String} :
    Console.decodeLine? line = some text ↔ line = encode text.toList := by
  rw [← toUTF8_eq_encode, String.toUTF8_eq_toByteArray, Console.decodeLine?, String.fromUTF8?]
  constructor
  · intro h
    split at h
    · obtain rfl := Option.some.inj h
      rfl
    · cases h
  · rintro rfl
    exact dif_pos text.isValidUTF8

end MethodLang
