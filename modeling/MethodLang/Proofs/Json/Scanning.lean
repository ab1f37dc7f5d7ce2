import Mathlib.Data.List.TakeDrop
import Mathlib.Data.List.TakeWhile
import MethodLang.Json.Printer
import MethodLang.Json.Token

/-!
# Scanning what is written

What each piece of a printed text adds to the tokens of the text: a blank nothing, a mark its token,
a string and a word the scalar that was printed. A word is closed by what follows it, so its lemma
asks that no word goes on there.

* `scan_word` and `scan_quoted` are the lemmas on words and strings;
* `wordValue?_toString` says that a printed integer is the word of that integer;
* `resume_escapeChar` says that an escaped character is read as the character.
-/

namespace MethodLang.Json

/-- The tokens of a text whose rest is scanned from here. -/
def Scan.resume (s : Scan) (rest : List Char) : Option (List Token) :=
  (rest.foldlM Scan.step? s).bind Scan.finish?

/-- The tokens of a text whose rest comes after these tokens, newest first. -/
def scan (before : List Token) (rest : List Char) : Option (List Token) :=
  Scan.resume ⟨before, .between⟩ rest

/-- No word goes on here. -/
def EndsWord (rest : List Char) : Prop := ∀ c ∈ rest.head?, isWordChar c = false

variable {before : List Token} {rest word blanks : List Char} {c : Char} {v : Json}

theorem Scan.resume_cons (s : Scan) (c : Char) (rest : List Char) :
    s.resume (c :: rest) = (s.step? c).bind (·.resume rest) := by
  rw [Scan.resume, List.foldlM_cons]
  cases s.step? c <;> rfl

theorem tokens?_eq_scan (cs : List Char) : tokens? cs = scan [] cs := rfl

theorem scan_nil (before : List Token) : scan before [] = some before.reverse := rfl

/-! ### Blanks and marks -/

theorem scan_blanks (h : ∀ c ∈ blanks, isSpace c = true) :
    scan before (blanks ++ rest) = scan before rest := by
  induction blanks with
  | nil => rfl
  | cons c blanks ih =>
    rw [List.forall_mem_cons] at h
    have hstep : Scan.step? ⟨before, .between⟩ c = some ⟨before, .between⟩ := by
      simp [Scan.step?, Scan.atStart?, h.1]
    rw [List.cons_append, scan, Scan.resume_cons, hstep]
    exact ih h.2

@[simp] theorem scan_beginArray :
    scan before ('[' :: rest) = scan (.beginArray :: before) rest := rfl

@[simp] theorem scan_endArray : scan before (']' :: rest) = scan (.endArray :: before) rest := rfl

@[simp] theorem scan_beginObject :
    scan before ('\x7b' :: rest) = scan (.beginObject :: before) rest := rfl

@[simp] theorem scan_endObject :
    scan before ('\x7d' :: rest) = scan (.endObject :: before) rest := rfl

@[simp] theorem scan_colon : scan before (':' :: rest) = scan (.colon :: before) rest := rfl

@[simp] theorem scan_comma : scan before (',' :: rest) = scan (.comma :: before) rest := rfl

/-! ### Words -/

theorem endsWord_nil : EndsWord [] := by simp [EndsWord]

theorem endsWord_cons (h : isWordChar c = false) (rest : List Char) : EndsWord (c :: rest) := by
  simpa [EndsWord] using h

theorem isWordChar_of_isSpace (h : isSpace c = true) : isWordChar c = false := by
  simp only [isSpace, Bool.or_eq_true, beq_iff_eq] at h
  rcases h with ((rfl | rfl) | rfl) | rfl <;> decide

/-- Blanks end a word as well as what follows them does. -/
theorem EndsWord.blanks_append (h : ∀ c ∈ blanks, isSpace c = true) (hrest : EndsWord rest) :
    EndsWord (blanks ++ rest) := by
  cases blanks with
  | nil => exact hrest
  | cons c blanks => exact endsWord_cons (isWordChar_of_isSpace (h c List.mem_cons_self)) _

theorem atStart?_of_isWordChar (h : isWordChar c = true) :
    Scan.atStart? before c = some ⟨before, .word [c]⟩ := by
  have hspace : isSpace c ≠ true := by
    intro hspace
    rw [isWordChar_of_isSpace hspace] at h
    cases h
  unfold Scan.atStart?
  rw [if_neg hspace]
  split
  case h_8 => rw [if_pos h]
  all_goals exact absurd h (by decide)

theorem resume_word (hword : ∀ c ∈ word, isWordChar c = true) (chars : List Char) :
    Scan.resume ⟨before, .word chars⟩ (word ++ rest) =
      Scan.resume ⟨before, .word (word.reverse ++ chars)⟩ rest := by
  induction word generalizing chars with
  | nil => rfl
  | cons c word ih =>
    rw [List.forall_mem_cons] at hword
    rw [List.cons_append, Scan.resume_cons]
    simp only [Scan.step?, if_pos hword.1, Option.bind_some]
    rw [ih hword.2]
    simp

/-- A word is a token where no word goes on. -/
theorem scan_word (hne : word ≠ []) (hword : ∀ c ∈ word, isWordChar c = true)
    (hv : wordValue? word = some v) (hrest : EndsWord rest) :
    scan before (word ++ rest) = scan (.scalar v :: before) rest := by
  obtain ⟨c, word, rfl⟩ := List.exists_cons_of_ne_nil hne
  rw [List.forall_mem_cons] at hword
  rw [List.cons_append, scan, Scan.resume_cons]
  simp only [Scan.step?, atStart?_of_isWordChar hword.1, Option.bind_some]
  rw [resume_word hword.2]
  have hchars : (word.reverse ++ [c]).reverse = c :: word := by simp
  cases rest with
  | nil => simp [Scan.resume, Scan.finish?, hchars, hv, scan]
  | cons next rest =>
    have hnext : isWordChar next = false := hrest next rfl
    rw [scan, Scan.resume_cons, Scan.resume_cons]
    simp [Scan.step?, hnext, hchars, hv]

/-! ### Integers -/

theorem head?_toDigits_ne {n : Nat} (h : 0 < n) : (Nat.toDigits 10 n).head? ≠ some '0' := by
  induction n using Nat.strongRecOn with
  | ind n ih =>
    by_cases hn : n < 10
    · rw [Nat.toDigits_of_lt_base hn, List.head?_cons, ne_eq, Option.some.injEq,
        Nat.digitChar_eq_zero]
      omega
    · have hfront := ih (n / 10) (by omega) (by omega)
      obtain ⟨c, cs, hcs⟩ :=
        List.exists_cons_of_ne_nil (Nat.toDigits_ne_nil (n := n / 10) (b := 10))
      rw [Nat.toDigits_of_base_le (by decide) (by omega), hcs]
      rwa [hcs] at hfront

theorem all_isDigit_toDigits (n : Nat) : (Nat.toDigits 10 n).all Char.isDigit = true :=
  List.all_eq_true.2 fun _ hc => Nat.isDigit_of_mem_toDigits (by decide) (by decide) hc

theorem isWhole_toDigits (n : Nat) : isWhole (Nat.toDigits 10 n) = true := by
  have hdigits : isDigits (Nat.toDigits 10 n) = true := by
    simp [isDigits, all_isDigit_toDigits, Nat.toDigits_ne_nil]
  rw [isWhole, hdigits, Bool.true_and]
  by_cases hn : n = 0
  · subst hn
    rfl
  · simp [head?_toDigits_ne (Nat.pos_of_ne_zero hn)]

theorem natOfDigits?_toDigits (n : Nat) : Text.natOfDigits? (Nat.toDigits 10 n) = some n := by
  obtain ⟨c, cs, hcs⟩ := List.exists_cons_of_ne_nil (Nat.toDigits_ne_nil (n := n) (b := 10))
  have hvalue : (c :: cs).foldl Text.natOfDigits?.digit 0 = n := by
    rw [← hcs]
    exact Nat.ofDigitChars_ten_toDigits
  have hall := all_isDigit_toDigits n
  rw [hcs] at hall
  rw [hcs, Text.natOfDigits?, if_pos hall, hvalue]
  exact List.cons_ne_nil c cs

theorem span_toDigits (n : Nat) :
    (Nat.toDigits 10 n).span Char.isDigit = (Nat.toDigits 10 n, []) := by
  have hall := List.all_eq_true.1 (all_isDigit_toDigits n)
  rw [List.span_eq_takeWhile_dropWhile, List.takeWhile_eq_self_iff.2 hall,
    List.dropWhile_eq_nil_iff.2 hall]

theorem unsigned?_toDigits (n : Nat) : unsigned? false (Nat.toDigits 10 n) = some (.int n) := by
  rw [unsigned?, span_toDigits]
  simp [isWhole_toDigits, natOfDigits?_toDigits]

theorem unsigned?_toDigits_succ (n : Nat) :
    unsigned? true (Nat.toDigits 10 (n + 1)) = some (.int (Int.negSucc n)) := by
  rw [unsigned?, span_toDigits]
  simp [isWhole_toDigits, natOfDigits?_toDigits, Int.negSucc_eq]

theorem toList_toString_ofNat (n : Nat) : (toString (Int.ofNat n)).toList = Nat.toDigits 10 n :=
  Nat.toList_repr

theorem toList_toString_negSucc (n : Nat) :
    (toString (Int.negSucc n)).toList = '-' :: Nat.toDigits 10 (n + 1) := by
  show ("-" ++ (n + 1).repr).toList = _
  rw [String.toList_append, Nat.toList_repr]
  rfl

/-- A printed integer is the word of that integer. -/
theorem wordValue?_toString (n : Int) : wordValue? (toString n).toList = some (.int n) := by
  cases n with
  | ofNat n =>
    rw [toList_toString_ofNat]
    have hvalue := unsigned?_toDigits n
    have hall := all_isDigit_toDigits n
    -- the first character is a digit, so the word is no name and has no sign
    obtain ⟨c, cs, hcs⟩ := List.exists_cons_of_ne_nil (Nat.toDigits_ne_nil (n := n) (b := 10))
    rw [hcs] at hvalue hall ⊢
    have hc : c.isDigit = true := List.all_eq_true.1 hall c List.mem_cons_self
    have hne : ∀ d : Char, d.isDigit = false → c ≠ d := by
      rintro d hd rfl
      rw [hc] at hd
      cases hd
    have hminus := hne '-' (by decide)
    have hnull := hne 'n' (by decide)
    have htrue := hne 't' (by decide)
    have hfalse := hne 'f' (by decide)
    simp only [wordValue?, String.reduceToList, List.cons.injEq, hnull, htrue, hfalse, false_and,
      if_false]
    split
    · next h => exact absurd (List.cons.inj h).1 hminus
    · exact hvalue
  | negSucc n =>
    rw [toList_toString_negSucc, ← unsigned?_toDigits_succ]
    rfl

theorem isWordChar_of_mem_toString {n : Int} (h : c ∈ (toString n).toList) :
    isWordChar c = true := by
  have hdigit : ∀ n : Nat, c ∈ Nat.toDigits 10 n → isWordChar c = true := by
    intro n hc
    have hc := Nat.isDigit_of_mem_toDigits (by decide) (by decide) hc
    simp [isWordChar, Char.isAlphanum, hc]
  cases n with
  | ofNat n =>
    rw [toList_toString_ofNat] at h
    exact hdigit n h
  | negSucc n =>
    rw [toList_toString_negSucc, List.mem_cons] at h
    rcases h with rfl | h
    · decide
    · exact hdigit (n + 1) h

theorem toList_toString_ne_nil (n : Int) : (toString n).toList ≠ [] := by
  cases n with
  | ofNat n =>
    rw [toList_toString_ofNat]
    exact Nat.toDigits_ne_nil
  | negSucc n =>
    rw [toList_toString_negSucc]
    exact List.cons_ne_nil _ _

/-! ### Strings -/

/-- An element of a written string that stands for a character. -/
def StringUnit.Reads (u : StringUnit) (c : Char) : Prop :=
  ∀ chars, TextSoFar.extend? ⟨chars, none⟩ u = some ⟨c :: chars, none⟩

theorem hexDigit?_digitChar : ∀ k < 16, hexDigit? (Nat.digitChar k) = some k := by decide

/-- The number of a control character stands for the character. -/
theorem reads_code (h : c < ' ') : (StringUnit.code c.toNat).Reads c := by
  have hlt : c.toNat < 32 := h
  intro chars
  have hhigh : isHighSurrogate c.toNat = false := by
    simp [isHighSurrogate]
    omega
  have hlow : isLowSurrogate c.toNat = false := by
    simp [isLowSurrogate]
    omega
  simp [TextSoFar.extend?, hhigh, hlow]

/-- An escaped character is read as one element, which stands for it. -/
theorem resume_escapeChar (c : Char) :
    ∃ u : StringUnit, u.Reads c ∧ ∀ before units rest,
      Scan.resume ⟨before, .string units⟩ (escapeChar c ++ rest) =
        Scan.resume ⟨before, .string (u :: units)⟩ rest := by
  by_cases hshort : c ∈ ['"', '\\', '\x08', '\x0c', '\n', '\r', '\t']
  · simp only [List.mem_cons, List.not_mem_nil, or_false] at hshort
    rcases hshort with rfl | rfl | rfl | rfl | rfl | rfl | rfl <;>
      exact ⟨.char _, fun _ => rfl, fun _ _ _ => rfl⟩
  simp only [List.mem_cons, List.not_mem_nil, or_false, not_or] at hshort
  obtain ⟨hquote, hslash, hb, hf, hn, hr, ht⟩ := hshort
  by_cases hcontrol : c < ' '
  · refine ⟨.code c.toNat, reads_code hcontrol, fun before units rest => ?_⟩
    have hnat : c.toNat < 32 := hcontrol
    have hfirst := hexDigit?_digitChar (c.toNat / 16) (by omega)
    have hsecond := hexDigit?_digitChar (c.toNat % 16) (by omega)
    have hzero : hexDigit? '0' = some 0 := by decide
    have hvalue : 16 * (c.toNat / 16) + c.toNat % 16 = c.toNat := Nat.div_add_mod c.toNat 16
    simp [escapeChar, hquote, hslash, hb, hf, hn, hr, ht, hcontrol, Scan.resume_cons, Scan.step?,
      hzero, hfirst, hsecond, hvalue]
  · refine ⟨.char c, fun _ => rfl, fun before units rest => ?_⟩
    simp [escapeChar, hquote, hslash, hb, hf, hn, hr, ht, hcontrol, Scan.resume_cons, Scan.step?]

/-- A string is a token, from wherever in it the scan stands. -/
theorem resume_string {units : List StringUnit} {chars : List Char}
    (h : units.reverse.foldlM TextSoFar.extend? ⟨[], none⟩ = some ⟨chars, none⟩)
    (text : List Char) :
    Scan.resume ⟨before, .string units⟩ (text.flatMap escapeChar ++ '"' :: rest) =
      scan (.scalar (.text (String.ofList (chars.reverse ++ text))) :: before) rest := by
  induction text generalizing units chars with
  | nil =>
    rw [List.flatMap_nil, List.nil_append, Scan.resume_cons]
    simp [Scan.step?, textOf?, h, scan, text]
  | cons c text ih =>
    obtain ⟨u, hu, hresume⟩ := resume_escapeChar c
    have h' : (u :: units).reverse.foldlM TextSoFar.extend? ⟨[], none⟩ =
        some ⟨c :: chars, none⟩ := by
      simp [List.foldlM_append, h, hu chars]
    rw [List.flatMap_cons, List.append_assoc, hresume, ih h', List.reverse_cons, List.append_assoc,
      List.singleton_append]

theorem scan_quoted (text : Option String) :
    scan before (quoted text ++ rest) = scan (.scalar (.str text) :: before) rest := by
  cases text with
  | none =>
    have hquoted : quoted none = ['"', '\\', 'u', 'd', '8', '0', '0', '"'] := rfl
    have hd : hexDigit? 'd' = some 13 := by decide
    have h8 : hexDigit? '8' = some 8 := by decide
    have h0 : hexDigit? '0' = some 0 := by decide
    have htext : textOf? [.code 0xD800] = none := rfl
    simp [hquoted, scan, Scan.resume_cons, Scan.step?, Scan.atStart?, isSpace, hd, h8, h0, htext]
  | some text =>
    have hstring := @resume_string before rest [] [] rfl text.toList
    rw [List.reverse_nil, List.nil_append, String.ofList_toList] at hstring
    have hbegin : Scan.step? ⟨before, .between⟩ '"' = some ⟨before, .string []⟩ := rfl
    show scan before ('"' :: (text.toList.flatMap escapeChar ++ ['"']) ++ rest) = _
    rw [List.cons_append, List.append_assoc, List.singleton_append, scan, Scan.resume_cons, hbegin]
    exact hstring

end MethodLang.Json
