import MethodLang.Json.Reader
import MethodLang.Proofs.Json.Scanning

/-!
# Reading what is printed

A value that is printed, in any layout that puts nothing but blanks between tokens, is read as that
value. The scanner turns the text into the tokens of the value, and the reader hands the value that
the tokens write to what it stands in; both go by induction on the value, with any text or any
tokens after it.

* `scan_render` is the half of the scanner, for values whose numbers are integers;
* `read_tokens` is the half of the reader;
* `ofText?_toText` puts them together.
-/

namespace MethodLang.Json

/-- Every number in the value is an integer. -/
inductive Integral : Json → Prop
  | null : Integral .null
  | bool (b : Bool) : Integral (.bool b)
  | int (n : Int) : Integral (.int n)
  | str (text : Option String) : Integral (.str text)
  | arr {items : List Json} (h : ∀ v ∈ items, Integral v) : Integral (.arr items)
  | obj {members : List (Option String × Json)} (h : ∀ m ∈ members, Integral m.2) :
      Integral (.obj members)

/-- A layout that puts only blanks between tokens. -/
structure Layout.Blank (layout : Layout) : Prop where
  newline : ∀ depth, ∀ c ∈ layout.newline depth, isSpace c = true
  afterColon : ∀ c ∈ layout.afterColon, isSpace c = true

theorem Layout.blank_compact : compact.Blank where
  newline := by simp [compact]
  afterColon := by simp [compact]

theorem Layout.blank_pretty : pretty.Blank where
  newline := by simp +contextual [pretty, isSpace]
  afterColon := by simp [pretty, isSpace]

/-! ### Tokens -/

mutual

/-- The tokens that write a value. -/
def tokens : Json → List Token
  | .null => [.scalar .null]
  | .bool b => [.scalar (.bool b)]
  | .int n => [.scalar (.int n)]
  | .decimal spelling => [.scalar (.decimal spelling)]
  | .str text => [.scalar (.str text)]
  | .arr [] => [.beginArray, .endArray]
  | .arr (v :: vs) => .beginArray :: (tokens v ++ itemTokens vs ++ [.endArray])
  | .obj [] => [.beginObject, .endObject]
  | .obj ((key, v) :: ms) =>
    .beginObject :: .scalar (.str key) :: .colon ::
      (tokens v ++ memberTokens ms ++ [.endObject])

/-- The items after the first. -/
def itemTokens : List Json → List Token
  | [] => []
  | v :: vs => .comma :: (tokens v ++ itemTokens vs)

/-- The members after the first. -/
def memberTokens : List (Option String × Json) → List Token
  | [] => []
  | (key, v) :: ms => .comma :: .scalar (.str key) :: .colon :: (tokens v ++ memberTokens ms)

end

/-! ### Scanning -/

section Scanning

variable {layout : Layout} {depth : Nat} {before : List Token} {rest : List Char} {v : Json}
  {vs : List Json} {ms : List (Option String × Json)}

/-- The text of a value is scanned as its tokens, wherever no word goes on after it. -/
def Scans (layout : Layout) (v : Json) : Prop :=
  ∀ depth before rest, EndsWord rest →
    scan before (render layout depth v ++ rest) = scan (v.tokens.reverse ++ before) rest

theorem Scans.word {word : List Char} (hrender : ∀ depth, render layout depth v = word)
    (htokens : v.tokens = [.scalar v]) (hne : word ≠ [])
    (hword : word.all isWordChar = true) (hv : wordValue? word = some v) : v.Scans layout := by
  intro depth before rest hrest
  rw [hrender, htokens, scan_word hne (List.all_eq_true.1 hword) hv hrest]
  rfl

theorem endsWord_renderItems (hrest : EndsWord rest) (vs : List Json) :
    EndsWord (renderItems layout depth vs ++ rest) := by
  cases vs with
  | nil => exact hrest
  | cons v vs =>
    rw [renderItems, List.cons_append]
    exact endsWord_cons (by decide) _

theorem endsWord_renderMembers (hrest : EndsWord rest) (ms : List (Option String × Json)) :
    EndsWord (renderMembers layout depth ms ++ rest) := by
  cases ms with
  | nil => exact hrest
  | cons m ms =>
    rw [renderMembers, List.cons_append]
    exact endsWord_cons (by decide) _

variable (hl : layout.Blank)

include hl

theorem scan_renderItems (h : ∀ v ∈ vs, v.Scans layout) (hrest : EndsWord rest) :
    scan before (renderItems layout depth vs ++ rest) =
      scan ((itemTokens vs).reverse ++ before) rest := by
  induction vs generalizing before with
  | nil => rfl
  | cons v vs ih =>
    rw [List.forall_mem_cons] at h
    simp only [renderItems, itemTokens, List.cons_append, List.append_assoc, scan_comma]
    rw [scan_blanks (hl.newline depth), h.1 depth _ _ (endsWord_renderItems hrest vs), ih h.2]
    simp

theorem scan_renderMembers (h : ∀ m ∈ ms, m.2.Scans layout) (hrest : EndsWord rest) :
    scan before (renderMembers layout depth ms ++ rest) =
      scan ((memberTokens ms).reverse ++ before) rest := by
  induction ms generalizing before with
  | nil => rfl
  | cons m ms ih =>
    rw [List.forall_mem_cons] at h
    simp only [renderMembers, memberTokens, List.cons_append, List.append_assoc, scan_comma]
    rw [scan_blanks (hl.newline depth), scan_quoted, scan_colon, scan_blanks hl.afterColon,
      h.1 depth _ _ (endsWord_renderMembers hrest ms), ih h.2]
    simp

/-- The end of an array or of an object ends the word before it. -/
theorem endsWord_newline {c : Char} (hc : isWordChar c = false) (depth : Nat) (rest : List Char) :
    EndsWord (layout.newline depth ++ c :: rest) :=
  .blanks_append (hl.newline depth) (endsWord_cons hc rest)

theorem scans_arr {items : List Json} (h : ∀ v ∈ items, v.Scans layout) :
    (arr items).Scans layout := by
  intro depth before rest _
  cases items with
  | nil => simp [render, tokens]
  | cons v vs =>
    rw [List.forall_mem_cons] at h
    have hend := endsWord_newline hl (c := ']') (by decide) depth rest
    simp only [render, tokens, List.cons_append, List.append_assoc, List.nil_append,
      scan_beginArray]
    rw [scan_blanks (hl.newline _), h.1 _ _ _ (endsWord_renderItems hend vs),
      scan_renderItems hl h.2 hend, scan_blanks (hl.newline _), scan_endArray]
    simp

theorem scans_obj {members : List (Option String × Json)}
    (h : ∀ m ∈ members, m.2.Scans layout) : (obj members).Scans layout := by
  intro depth before rest _
  cases members with
  | nil => simp [render, tokens]
  | cons m ms =>
    rw [List.forall_mem_cons] at h
    have hend := endsWord_newline hl (c := '\x7d') (by decide) depth rest
    simp only [render, tokens, List.cons_append, List.append_assoc, List.nil_append,
      scan_beginObject]
    rw [scan_blanks (hl.newline _), scan_quoted, scan_colon, scan_blanks hl.afterColon,
      h.1 _ _ _ (endsWord_renderMembers hend ms), scan_renderMembers hl h.2 hend,
      scan_blanks (hl.newline _), scan_endObject]
    simp

theorem scan_render (h : v.Integral) : v.Scans layout := by
  induction h with
  | null => exact .word (fun _ => rfl) rfl (by decide) rfl rfl
  | bool b =>
    cases b with
    | false => exact .word (fun _ => rfl) rfl (by decide) rfl rfl
    | true => exact .word (fun _ => rfl) rfl (by decide) rfl rfl
  | int n =>
    exact .word (fun _ => rfl) rfl (toList_toString_ne_nil n)
      (List.all_eq_true.2 fun _ => isWordChar_of_mem_toString) (wordValue?_toString n)
  | str text =>
    intro depth before rest _
    rw [render, scan_quoted]
    rfl
  | arr _ ih => exact scans_arr hl ih
  | obj _ ih => exact scans_obj hl ih

end Scanning

/-! ### Reading -/

section Reading

/-- The value that is read when these tokens follow. -/
def read (r : Reading) (rest : List Token) : Option Json :=
  (rest.foldlM Reading.step? r).bind Reading.result?

variable {r : Reading} {around : List Holder} {rest : List Token} {v : Json} {vs : List Json}
  {ms : List (Option String × Json)}

theorem ofTokens?_eq_read (ts : List Token) : ofTokens? ts = read (.value []) ts := rfl

/-- The tokens of a value hand the value to what it stands in. -/
def Delivers (v : Json) : Prop :=
  ∀ around rest, read (.value around) (v.tokens ++ rest) = read (.deliver v around) rest

/-- The first item of an array is read like any other value. -/
theorem read_firstItem (v : Json) (around : List Holder) (rest : List Token) :
    read (.firstItem around) (v.tokens ++ rest) =
      read (.value (.array [] :: around)) (v.tokens ++ rest) := by
  cases v with
  | null | bool | int | decimal | str => rfl
  | arr items => cases items <;> rfl
  | obj members => cases members <;> rfl

theorem read_itemTokens (h : ∀ v ∈ vs, v.Delivers) (items : List Json) :
    read (.afterItem items around) (itemTokens vs ++ .endArray :: rest) =
      read (.deliver (.arr (items.reverse ++ vs)) around) rest := by
  induction vs generalizing items with
  | nil =>
    rw [List.append_nil]
    rfl
  | cons v vs ih =>
    rw [List.forall_mem_cons] at h
    rw [itemTokens, List.cons_append, List.append_assoc]
    calc read (.afterItem items around)
          (.comma :: (v.tokens ++ (itemTokens vs ++ .endArray :: rest)))
      _ = read (.value (.array items :: around))
            (v.tokens ++ (itemTokens vs ++ .endArray :: rest)) := rfl
      _ = read (.afterItem (v :: items) around) (itemTokens vs ++ .endArray :: rest) := h.1 _ _
      _ = read (.deliver (.arr (items.reverse ++ v :: vs)) around) rest := by
        rw [ih h.2, List.reverse_cons, List.append_assoc, List.singleton_append]

theorem read_memberTokens (h : ∀ m ∈ ms, m.2.Delivers) (members : List (Option String × Json)) :
    read (.afterMember members around) (memberTokens ms ++ .endObject :: rest) =
      read (.deliver (.obj (members.reverse ++ ms)) around) rest := by
  induction ms generalizing members with
  | nil =>
    rw [List.append_nil]
    rfl
  | cons m ms ih =>
    obtain ⟨key, v⟩ := m
    rw [List.forall_mem_cons] at h
    rw [memberTokens, List.cons_append, List.cons_append, List.cons_append, List.append_assoc]
    calc read (.afterMember members around)
          (.comma :: .scalar (.str key) :: .colon ::
            (v.tokens ++ (memberTokens ms ++ .endObject :: rest)))
      _ = read (.value (.object members key :: around))
            (v.tokens ++ (memberTokens ms ++ .endObject :: rest)) := rfl
      _ = read (.afterMember ((key, v) :: members) around)
            (memberTokens ms ++ .endObject :: rest) := h.1 _ _
      _ = read (.deliver (.obj (members.reverse ++ (key, v) :: ms)) around) rest := by
        rw [ih h.2, List.reverse_cons, List.append_assoc, List.singleton_append]

theorem delivers_arr {items : List Json} (h : ∀ v ∈ items, v.Delivers) : (arr items).Delivers := by
  intro around rest
  cases items with
  | nil => rfl
  | cons v vs =>
    rw [List.forall_mem_cons] at h
    rw [tokens, List.cons_append, List.append_assoc, List.append_assoc, List.singleton_append]
    calc read (.value around) (.beginArray :: (v.tokens ++ (itemTokens vs ++ .endArray :: rest)))
      _ = read (.firstItem around) (v.tokens ++ (itemTokens vs ++ .endArray :: rest)) := rfl
      _ = read (.afterItem [v] around) (itemTokens vs ++ .endArray :: rest) := by
        rw [read_firstItem, h.1]
        rfl
      _ = read (.deliver (.arr (v :: vs)) around) rest := read_itemTokens h.2 [v]

theorem delivers_obj {members : List (Option String × Json)} (h : ∀ m ∈ members, m.2.Delivers) :
    (obj members).Delivers := by
  intro around rest
  cases members with
  | nil => rfl
  | cons m ms =>
    obtain ⟨key, v⟩ := m
    rw [List.forall_mem_cons] at h
    rw [tokens, List.cons_append, List.cons_append, List.cons_append, List.append_assoc,
      List.append_assoc, List.singleton_append]
    calc read (.value around) (.beginObject :: .scalar (.str key) :: .colon ::
          (v.tokens ++ (memberTokens ms ++ .endObject :: rest)))
      _ = read (.value (.object [] key :: around))
            (v.tokens ++ (memberTokens ms ++ .endObject :: rest)) := rfl
      _ = read (.afterMember [(key, v)] around) (memberTokens ms ++ .endObject :: rest) := h.1 _ _
      _ = read (.deliver (.obj ((key, v) :: ms)) around) rest := read_memberTokens h.2 [(key, v)]

theorem read_tokens (h : v.Integral) : v.Delivers := by
  induction h with
  | null | bool | int | str => exact fun _ _ => rfl
  | arr _ ih => exact delivers_arr ih
  | obj _ ih => exact delivers_obj ih

end Reading

/-- A value whose numbers are integers is read from its own text. -/
theorem ofText?_toText {layout : Layout} {v : Json} (hl : layout.Blank) (h : v.Integral) :
    ofText? (v.toText layout) = some v := by
  have hscan : tokens? (render layout 0 v) = some v.tokens := by
    have hscan := scan_render hl h 0 [] [] endsWord_nil
    rwa [List.append_nil, List.append_nil, scan_nil, List.reverse_reverse, ← tokens?_eq_scan]
      at hscan
  have hread : ofTokens? v.tokens = some v := by
    have hread := read_tokens h [] []
    rwa [List.append_nil, ← ofTokens?_eq_read] at hread
  rw [ofText?, toText, String.toList_ofList, hscan]
  exact hread

end MethodLang.Json
