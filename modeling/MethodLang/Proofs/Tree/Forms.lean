import MethodLang.Proofs.Parts
import MethodLang.Proofs.Text.Decimals
import MethodLang.Proofs.Tree.Spelling

/-!
# Readers of forms

The forms of which spellings are made, and what is read as each of them. `Json.Reads` says of a
reader that it reads exactly what spells something and nests in at most so many arrays and objects
where it stands. Texts, lists and what may be null have readers of their own; variants and records
are read in parts:

* `isRecord_iff` says of records, arrays or objects, that their fields hold;
* `isRecord_and_nestingAt_le_iff` adds how deeply the record nests, which comes from its fields;
* `bind_fields?_eq_some_iff` is what remains to be shown of a reader of records, and
  `reads_single_iff` puts the variant around it.
-/

namespace MethodLang

/-! ### Lists -/

theorem mapM_eq_some_iff {α β : Type} {f : α → Option β} {items : List α} {results : List β} :
    items.mapM f = some results ↔
      List.Forall₂ (fun result item => f item = some result) results items := by
  induction items generalizing results with
  | nil => cases results <;> simp
  | cons item items ih =>
    cases results with
    | nil => simp [List.mapM_cons, Option.bind_eq_some_iff]
    | cons result results =>
      rw [List.forall₂_cons, ← ih]
      simp [List.mapM_cons, Option.bind_eq_some_iff]

theorem forall₂_append_right_iff {α β : Type} {R : α → β → Prop} {l : List α} {l₁ l₂ : List β} :
    List.Forall₂ R l (l₁ ++ l₂) ↔
      ∃ k₁ k₂, l = k₁ ++ k₂ ∧ List.Forall₂ R k₁ l₁ ∧ List.Forall₂ R k₂ l₂ := by
  constructor
  · intro h
    exact ⟨_, _, (List.take_append_drop l₁.length l).symm, List.forall₂_take_append l l₁ l₂ h,
      List.forall₂_drop_append l l₁ l₂ h⟩
  · rintro ⟨k₁, k₂, rfl, h₁, h₂⟩
    exact List.rel_append h₁ h₂

theorem forall₂_replicate_right_iff {α β : Type} {R : α → β → Prop} {l : List α} {n : Nat} {b : β} :
    List.Forall₂ R l (List.replicate n b) ↔ l.length = n ∧ ∀ a ∈ l, R a b := by
  induction l generalizing n with
  | nil => cases n <;> simp [List.replicate_succ]
  | cons a l ih =>
    cases n with
    | zero => simp
    | succ n => simp [List.replicate_succ, ih, and_left_comm]

theorem forall₂_and_right_iff {α β : Type} {R : α → β → Prop} {P : β → Prop} {as : List α}
    {bs : List β} :
    List.Forall₂ (fun a b => R a b ∧ P b) as bs ↔ List.Forall₂ R as bs ∧ ∀ b ∈ bs, P b := by
  constructor
  · intro h
    induction h with
    | nil => simp
    | cons hab _ ih => exact ⟨.cons hab.1 ih.1, List.forall_mem_cons.2 ⟨hab.2, ih.2⟩⟩
  · rintro ⟨h, hP⟩
    induction h with
    | nil => exact .nil
    | cons hab _ ih =>
      rw [List.forall_mem_cons] at hP
      exact .cons ⟨hab, hP.1⟩ (ih hP.2)

theorem forall₂_zip_iff {α β γ : Type} {R : α → γ → Prop} {S : β → γ → Prop} {as : List α}
    {bs : List β} {cs : List γ} (hlength : as.length = bs.length) :
    List.Forall₂ (fun ab c => R ab.1 c ∧ S ab.2 c) (as.zip bs) cs ↔
      List.Forall₂ R as cs ∧ List.Forall₂ S bs cs := by
  induction as generalizing bs cs with
  | nil =>
    obtain rfl := List.length_eq_zero_iff.1 hlength.symm
    simp
  | cons a as ih =>
    obtain ⟨b, bs, rfl⟩ := List.exists_cons_of_length_eq_add_one hlength.symm
    rw [List.length_cons, List.length_cons, Nat.add_right_cancel_iff] at hlength
    cases cs with
    | nil => simp
    | cons c cs =>
      rw [List.zip_cons_cons, List.forall₂_cons, List.forall₂_cons, List.forall₂_cons, ih hlength]
      exact and_and_and_comm

/-! ### Keys -/

namespace Place

variable {p expected : Place}

theorem nodup_keys (p : Place) : (p.keys.map Prod.fst).Nodup := by
  cases p <;> simp [keys]

theorem lookup_eq_some_iff {name : String} :
    p.keys.lookup name = some expected ↔ (name, expected) ∈ p.keys := by
  rw [List.lookup_eq_some_iff]
  constructor
  · rintro ⟨before, after, hkeys, -⟩
    simp [hkeys]
  · intro h
    obtain ⟨before, after, hkeys⟩ := List.append_of_mem h
    refine ⟨before, after, hkeys, fun key hkey => ?_⟩
    have hnodup := p.nodup_keys
    rw [hkeys, List.map_append, List.nodup_append] at hnodup
    exact bne_iff_ne.2 (hnodup.2.2 key.1 (List.mem_map_of_mem hkey) name (by simp)).symm

theorem mem_under?_iff {key : Option String} :
    expected ∈ p.under? key ↔ ∃ name, key = some name ∧ (name, expected) ∈ p.keys := by
  simp only [under?, Option.mem_def, Option.bind_eq_some_iff, lookup_eq_some_iff]

theorem itemAt_of_keys {i : Nat} {key : String × Place} (h : p.keys[i]? = some key) :
    p.itemAt i = key.2 := by
  cases p with
  | list => cases h
  | _ => simp only [itemAt, h, Option.map_some, Option.getD_some]

end Place

namespace Json

variable {α : Type} {p : Place} {n : Nat} {v : Json} {items : List Json}
  {members : List (Option String × Json)}

/-! ### Nesting -/

theorem itemNestingAt_le_iff {i : Nat} :
    itemNestingAt p i items ≤ n ↔
      ∀ (j : Nat) (v : Json), items[j]? = some v → v.nestingAt (p.itemAt (i + j)) ≤ n := by
  induction items generalizing i with
  | nil => simp [itemNestingAt]
  | cons v vs ih =>
    rw [itemNestingAt, Nat.max_le, ih]
    constructor
    · rintro ⟨hv, hvs⟩ j w hw
      cases j with
      | zero =>
        cases hw
        exact hv
      | succ j =>
        have hw := hvs j w hw
        rwa [Nat.add_right_comm] at hw
    · intro h
      refine ⟨h 0 v rfl, fun j w hw => ?_⟩
      have hw := h (j + 1) w hw
      rwa [Nat.add_right_comm]

theorem memberNestingAt_le_iff :
    memberNestingAt p members ≤ n ↔
      ∀ m ∈ members, ∀ expected ∈ p.under? m.1, m.2.nestingAt expected ≤ n := by
  induction members with
  | nil => simp [memberNestingAt]
  | cons m ms ih =>
    obtain ⟨key, v⟩ := m
    rw [memberNestingAt, List.forall_mem_cons, ← ih]
    cases p.under? key <;> simp

theorem nestingAt_arr_le_iff :
    (arr items).nestingAt p ≤ n ↔
      ∃ k, n = k + 1 ∧
        ∀ (i : Nat) (v : Json), items[i]? = some v → v.nestingAt (p.itemAt i) ≤ k := by
  rw [nestingAt]
  cases n with
  | zero => simp
  | succ n => simp [itemNestingAt_le_iff]

theorem nestingAt_obj_le_iff :
    (obj members).nestingAt p ≤ n ↔
      ∃ k, n = k + 1 ∧
        ∀ m ∈ members, ∀ expected ∈ p.under? m.1, m.2.nestingAt expected ≤ k := by
  rw [nestingAt]
  cases n with
  | zero => simp
  | succ n => simp [memberNestingAt_le_iff]

/-! ### Fields -/

/-- A field that is present is spelled, and one that is missing may be. -/
def Field.Holds (f : Field) : Option Json → Prop
  | none => f.omissible
  | some v => f.spelled v

theorem fields?_obj_eq_some_iff {names : List String} {found : List (Option Json)} :
    fields? names (.obj members) = some found ↔
      ((∀ m ∈ members, m.1 ≠ none) ∧ ∀ name ∈ names, (under name members).length ≤ 1) ∧
        names.map (fun name => (under name members).head?) = found := by
  simp [fields?, Option.isSome_iff_ne_none]

theorem fields?_arr_eq_some_iff {names : List String} {found : List (Option Json)} :
    fields? names (.arr items) = some found ↔
      items.length ≤ names.length ∧
        items.map some ++ List.replicate (names.length - items.length) none = found := by
  simp [fields?]

/-- What stands under a key, if the key is there once at most, holds a field in one of two ways. -/
theorem Field.holds_head?_iff {f : Field} :
    (under f.name members).length ≤ 1 ∧ f.Holds (under f.name members).head? ↔
      (under f.name members = [] ∧ f.omissible) ∨
        ∃ v, under f.name members = [v] ∧ f.spelled v := by
  rcases under f.name members with _ | ⟨v, _ | ⟨w, rest⟩⟩ <;> simp [Holds]

/-- The records are the values from which the fields are taken so that each holds. -/
theorem isRecord_iff {fields : List Field} :
    IsRecord fields v ↔ ∃ found, fields? (fields.map Field.name) v = some found ∧
      List.Forall₂ Field.Holds fields found := by
  cases v with
  | null | bool b | int n | decimal s | str s => simp [IsRecord, fields?]
  | obj members =>
    simp only [fields?_obj_eq_some_iff, List.forall_mem_map, List.map_map]
    constructor
    · rintro ⟨htexts, hfields⟩
      have hfields := fun f hf => Field.holds_head?_iff.2 (hfields f hf)
      refine ⟨_, ⟨⟨htexts, fun f hf => (hfields f hf).1⟩, rfl⟩, ?_⟩
      rw [List.forall₂_map_right_iff, List.forall₂_same]
      exact fun f hf => (hfields f hf).2
    · rintro ⟨found, ⟨⟨htexts, hone⟩, rfl⟩, hholds⟩
      rw [List.forall₂_map_right_iff, List.forall₂_same] at hholds
      exact ⟨htexts, fun f hf => Field.holds_head?_iff.1 ⟨hone f hf, hholds f hf⟩⟩
  | arr items =>
    simp only [fields?_arr_eq_some_iff, List.length_map, IsRecord]
    constructor
    · rintro ⟨given, omitted, rfl, hgiven, homitted⟩
      have hlength := hgiven.length_eq
      refine ⟨_, ⟨by simp [hlength], rfl⟩, ?_⟩
      rw [forall₂_append_right_iff]
      refine ⟨given, omitted, rfl, ?_, ?_⟩
      · rw [List.forall₂_map_right_iff]
        exact hgiven
      · rw [forall₂_replicate_right_iff]
        exact ⟨by simp [hlength], homitted⟩
    · rintro ⟨found, ⟨-, rfl⟩, hholds⟩
      obtain ⟨given, omitted, rfl, hgiven, homitted⟩ := forall₂_append_right_iff.1 hholds
      rw [List.forall₂_map_right_iff] at hgiven
      exact ⟨given, omitted, rfl, hgiven, (forall₂_replicate_right_iff.1 homitted).2⟩

theorem mem_under_iff {name : String} : v ∈ under name members ↔ (some name, v) ∈ members := by
  simp [under]

/-- A value with fields nests more deeply than each field that is present. -/
theorem nestingAt_le_iff_of_fields? {found : List (Option Json)}
    (h : fields? (p.keys.map Prod.fst) v = some found) :
    v.nestingAt p ≤ n ↔ ∃ k, n = k + 1 ∧
      List.Forall₂ (fun key x => ∀ w ∈ x, w.nestingAt key.2 ≤ k) p.keys found := by
  cases v with
  | null | bool b | int n | decimal s | str s => simp [fields?] at h
  | obj members =>
    obtain ⟨⟨htexts, hone⟩, rfl⟩ := fields?_obj_eq_some_iff.1 h
    rw [nestingAt_obj_le_iff]
    refine exists_congr fun k => and_congr_right fun _ => ?_
    rw [List.map_map, List.forall₂_map_right_iff, List.forall₂_same]
    constructor
    · intro hmembers key hkey w hw
      have hmem := mem_under_iff.1 (List.mem_of_mem_head? hw)
      exact hmembers _ hmem _ (Place.mem_under?_iff.2 ⟨key.1, rfl, hkey⟩)
    · rintro hkeys ⟨key, w⟩ hm expected hexpected
      obtain ⟨name, rfl, hkey⟩ := Place.mem_under?_iff.1 hexpected
      refine hkeys _ hkey w ?_
      have hw := mem_under_iff.2 hm
      have hname := hone name (List.mem_map_of_mem hkey)
      rcases hunder : under name members with _ | ⟨u, _ | ⟨u', rest⟩⟩
      · rw [hunder] at hw
        cases hw
      · rw [hunder, List.mem_singleton] at hw
        simp [hunder, hw]
      · simp [hunder] at hname
  | arr items =>
    obtain ⟨hlength, rfl⟩ := fields?_arr_eq_some_iff.1 h
    rw [nestingAt_arr_le_iff]
    refine exists_congr fun k => and_congr_right fun _ => ?_
    rw [List.forall₂_iff_get]
    constructor
    · intro hitems
      refine ⟨by simp at hlength ⊢; omega, fun i hi hi' w hw => ?_⟩
      show w.nestingAt p.keys[i].2 ≤ k
      rw [← Place.itemAt_of_keys (List.getElem?_eq_getElem hi)]
      apply hitems
      grind
    · rintro ⟨-, hkeys⟩ i w hw
      have hi : i < p.keys.length := by grind
      rw [Place.itemAt_of_keys (List.getElem?_eq_getElem hi)]
      apply hkeys i hi (by grind)
      grind

/-! ### Readers -/

variable {α β : Type} {q : Place} {w : Json} {name : String} {spelled : α → Json → Prop}

/-- A value is read as something if it spells that and does not nest too deeply where it stands. -/
def Reads (read : Json → Option α) (p : Place) (n : Nat) (spelled : α → Json → Prop) : Prop :=
  ∀ v a, read v = some a ↔ spelled a v ∧ v.nestingAt p ≤ n

theorem reads_text (p : Place) (n : Nat) : Reads text? p n IsText := by
  intro v s
  cases v with
  | str text => cases text <;> simp [text?, IsText, text, nestingAt]
  | null | bool b | int n | decimal s | arr items | obj members => simp [text?, IsText, text]

theorem not_isText_null (s : String) : ¬IsText s .null := by
  simp [IsText, text]

theorem nestingAt_list_le_iff :
    (arr items).nestingAt (.list p) ≤ n ↔ ∃ k, n = k + 1 ∧ ∀ v ∈ items, v.nestingAt p ≤ k := by
  rw [nestingAt_arr_le_iff]
  refine exists_congr fun k => and_congr_right fun _ => ?_
  simp only [Place.itemAt, List.mem_iff_getElem?, forall_exists_index]
  exact forall_comm

theorem reads_list {read : Nat → Json → Option α} (h : ∀ k < n, Reads (read k) p k spelled) :
    Reads (list? n read) (.list p) n fun as => IsArray (as.map spelled) := by
  intro v as
  simp only [IsArray, List.forall₂_map_left_iff]
  cases v with
  | null | bool b | int n | decimal s | str s | obj members => cases n <;> simp [list?]
  | arr items =>
    rw [nestingAt_list_le_iff]
    cases n with
    | zero => simp [list?]
    | succ n =>
      have hread := h n (Nat.lt_succ_self n)
      simp only [list?, mapM_eq_some_iff, hread _ _, forall₂_and_right_iff, arr.injEq,
        exists_eq_left', Nat.add_right_cancel_iff]

theorem reads_nullable {read : Json → Option α} (h : Reads read p n spelled)
    (hnull : ∀ a, ¬spelled a .null) :
    Reads (nullable read) p n fun a => IsOptional (a.map spelled) := by
  intro v a
  cases v with
  | null =>
    cases a with
    | none => simp [nullable, IsOptional, nestingAt]
    | some a => simp [nullable, IsOptional, hnull]
  | bool b | int n | decimal s | str s | arr items | obj members =>
    cases a with
    | none => simp [nullable, IsOptional]
    | some a => simpa [nullable, IsOptional] using h _ a

/-! ### Variants -/

theorem nestingAt_single_le_iff (h : p.under? (some name) = some q) :
    (single name w).nestingAt p ≤ n ↔ ∃ k, n = k + 1 ∧ w.nestingAt q ≤ k := by
  rw [single, nestingAt_obj_le_iff]
  simp [h]

@[simp] theorem isVariant_obj_single_iff {name' : String} {payload : Json → Prop} :
    IsVariant name payload (.obj [(some name', w)]) ↔ name' = name ∧ payload w := by
  simp [IsVariant, single]

@[simp] theorem isBare_obj_single_iff {name' : String} :
    IsBare name (.obj [(some name', w)]) ↔ name' = name ∧ w = .null := by
  simp [IsBare, single, text]

theorem IsVariant.form {payload : Json → Prop} (h : IsVariant name payload v)
    (hplace : p.under? (some name) = some q) (hn : v.nestingAt p ≤ n) :
    ∃ k w, n = k + 1 ∧ v = single name w ∧ payload w ∧ w.nestingAt q ≤ k := by
  obtain ⟨w, rfl, hw⟩ := h
  obtain ⟨k, rfl, hk⟩ := (nestingAt_single_le_iff hplace).1 hn
  exact ⟨k, w, rfl, rfl, hw, hk⟩

theorem IsBare.form (h : IsBare name v) (hn : v.nestingAt p ≤ n) :
    v = text name ∨ ∃ k, n = k + 1 ∧ v = single name .null := by
  rcases h with rfl | rfl
  · exact .inl rfl
  · obtain ⟨k, hk, -⟩ := nestingAt_obj_le_iff.1 hn
    exact .inr ⟨k, hk, rfl⟩

/-- A variant that carries something is read as long as what it carries is. -/
theorem reads_single_iff {P Q R : Prop} (hplace : p.under? (some name) = some q)
    (hread : R ↔ Q ∧ w.nestingAt q ≤ n) (hspelled : P ↔ Q) :
    R ↔ P ∧ (single name w).nestingAt p ≤ n + 1 := by
  rw [nestingAt_single_le_iff hplace, hread, hspelled]
  simp

/-- A variant with one part is read from that part. -/
theorem map_read_eq_some_iff {read : Json → Option α} {make : α → β} {b : β}
    (h : Reads read q n spelled) :
    (read w).map make = some b ↔ (∃ a, spelled a w ∧ make a = b) ∧ w.nestingAt q ≤ n := by
  rw [Option.map_eq_some_iff]
  constructor
  · rintro ⟨a, ha, rfl⟩
    obtain ⟨ha, hn⟩ := (h w a).1 ha
    exact ⟨⟨a, ha, rfl⟩, hn⟩
  · rintro ⟨⟨a, ha, rfl⟩, hn⟩
    exact ⟨a, (h w a).2 ⟨ha, hn⟩, rfl⟩

/-! ### Records -/

/-- A field that holds, and nests in at most so many arrays and objects if it is present. -/
def Field.Fits (f : Field) (q : Place) (n : Nat) (x : Option Json) : Prop :=
  f.Holds x ∧ ∀ v ∈ x, v.nestingAt q ≤ n

section Fits

variable {read : Json → Option α} (h : Reads read q n spelled) {a : α} {x : Option Json}

include h

theorem fits_required_iff :
    (Field.required name (spelled a)).Fits q n x ↔ ∃ v, x = some v ∧ read v = some a := by
  cases x with
  | none => simp [Field.Fits, Field.Holds, Field.required]
  | some v => simp [Field.Fits, Field.Holds, Field.required, h v a]

theorem fits_defaulted_iff {d : α} :
    (Field.mk name (spelled a) (a = d)).Fits q n x ↔ orDefault d read x = some a := by
  cases x with
  | none => simp [Field.Fits, Field.Holds, orDefault, eq_comm]
  | some v => simp [Field.Fits, Field.Holds, orDefault, h v a]

end Fits

section Fields

variable {fields : List Field} (hnames : fields.map Field.name = p.keys.map Prod.fst)

include hnames

/-- A record that does not nest too deeply has fields that fit. -/
theorem isRecord_and_nestingAt_le_iff :
    IsRecord fields v ∧ v.nestingAt p ≤ n + 1 ↔
      ∃ found, fields? (p.keys.map Prod.fst) v = some found ∧
        List.Forall₂ (fun field x => field.1.Fits field.2.2 n x) (fields.zip p.keys) found := by
  have hlength : fields.length = p.keys.length := by
    simpa using congrArg List.length hnames
  rw [isRecord_iff, hnames]
  constructor
  · rintro ⟨⟨found, hfound, hholds⟩, hnesting⟩
    obtain ⟨k, hk, hkeys⟩ := (nestingAt_le_iff_of_fields? hfound).1 hnesting
    obtain rfl : n = k := Nat.succ.inj hk
    exact ⟨found, hfound, (forall₂_zip_iff hlength).2 ⟨hholds, hkeys⟩⟩
  · rintro ⟨found, hfound, hfits⟩
    obtain ⟨hholds, hkeys⟩ := (forall₂_zip_iff (R := Field.Holds)
      (S := fun (key : String × Place) x => ∀ w ∈ x, nestingAt key.2 w ≤ n) hlength).1 hfits
    exact ⟨⟨found, hfound, hholds⟩, (nestingAt_le_iff_of_fields? hfound).2 ⟨n, rfl, hkeys⟩⟩

/-- A record is an array or an object itself. -/
theorem IsRecord.pos_of_nestingAt_le (h : IsRecord fields v) (hn : v.nestingAt p ≤ n) :
    ∃ k, n = k + 1 := by
  obtain ⟨found, hfound, -⟩ := isRecord_iff.1 h
  rw [hnames] at hfound
  obtain ⟨k, hk, -⟩ := (nestingAt_le_iff_of_fields? hfound).1 hn
  exact ⟨k, hk⟩

theorem IsVariant.form_of_isRecord {place : Place} (h : IsVariant name (IsRecord fields) v)
    (hplace : place.under? (some name) = some p) (hn : v.nestingAt place ≤ n) :
    ∃ k w, n = k + 2 ∧ v = single name w := by
  obtain ⟨k, w, rfl, rfl, hw, hk⟩ := h.form hplace hn
  obtain ⟨j, rfl⟩ := hw.pos_of_nestingAt_le hnames hk
  exact ⟨j, w, rfl, rfl⟩

end Fields

/-- A record is read if it can be put together from fields that fit. -/
theorem bind_fields?_eq_some_iff {ι : Type} {make : List (Option Json) → Option β} {b : β}
    {build : ι → β} {fields : ι → List Field}
    (hnames : ∀ i, (fields i).map Field.name = p.keys.map Prod.fst)
    (hmake : ∀ found, make found = some b ↔ ∃ i,
      List.Forall₂ (fun field x => field.1.Fits field.2.2 n x) ((fields i).zip p.keys) found ∧
        build i = b) :
    (fields? (p.keys.map Prod.fst) v).bind make = some b ↔
      (∃ i, IsRecord (fields i) v ∧ build i = b) ∧ v.nestingAt p ≤ n + 1 := by
  simp only [Option.bind_eq_some_iff, hmake]
  constructor
  · rintro ⟨found, hfound, i, hfits, hi⟩
    obtain ⟨hrecord, hn⟩ := (isRecord_and_nestingAt_le_iff (hnames i)).2 ⟨found, hfound, hfits⟩
    exact ⟨⟨i, hrecord, hi⟩, hn⟩
  · rintro ⟨⟨i, hrecord, hi⟩, hn⟩
    obtain ⟨found, hfound, hfits⟩ := (isRecord_and_nestingAt_le_iff (hnames i)).1 ⟨hrecord, hn⟩
    exact ⟨found, hfound, i, hfits, hi⟩

end Json

end MethodLang
