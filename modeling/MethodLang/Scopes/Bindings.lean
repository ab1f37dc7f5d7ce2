import MethodLang.Value

/-!
# Bindings

The variables of one scope, kept in the order of their names: two scopes that bind the same
names to the same slots are then equal, whatever the order of the declarations.

* `find?_insert` says what an insertion does to a look-up;
* `insert_insert` says that the last insertion of a name counts;
* `insert_comm` says that insertions of different names commute.
-/

namespace MethodLang

/-- Storage of one declared variable. What a slot holds and whether it has been assigned are kept
apart; nothing but the operations on scopes keeps the two in step. -/
structure Slot where
  ty : Ty
  assigned : Bool
  value : Value
  deriving DecidableEq

/-- Slots by name. -/
structure Bindings where
  entries : List (String × Slot)
  deriving DecidableEq

namespace Bindings

def empty : Bindings := ⟨[]⟩

/-- Put an entry where its name belongs, in place of an entry of that name. -/
def place (name : String) (slot : Slot) : List (String × Slot) → List (String × Slot)
  | [] => [(name, slot)]
  | (key, old) :: rest =>
    if name = key then (name, slot) :: rest
    else if name < key then (name, slot) :: (key, old) :: rest
    else (key, old) :: place name slot rest

/-- The first slot under a name. -/
def search (name : String) : List (String × Slot) → Option Slot
  | [] => none
  | (key, slot) :: rest => if name = key then some slot else search name rest

/-- Bind a name, replacing what it was bound to. -/
def insert (b : Bindings) (name : String) (slot : Slot) : Bindings :=
  ⟨place name slot b.entries⟩

/-- The slot that a name is bound to. -/
def find? (b : Bindings) (name : String) : Option Slot := search name b.entries

/-- The bound names, in order. -/
def names (b : Bindings) : List String := b.entries.map Prod.fst

@[simp] theorem find?_empty (name : String) : empty.find? name = none := rfl

/-- A look-up after an insertion finds the new slot under the inserted name, and the old one
under every other. -/
theorem find?_insert (b : Bindings) (name other : String) (slot : Slot) :
    (b.insert name slot).find? other = if other = name then some slot else b.find? other := by
  obtain ⟨l⟩ := b
  simp only [find?, insert]
  induction l with
  | nil => grind [place, search]
  | cons entry rest ih => grind [place, search]

theorem find?_ne_none_of_mem_names {b : Bindings} {name : String} (h : name ∈ b.names) :
    b.find? name ≠ none := by
  obtain ⟨entries⟩ := b
  simp only [names, find?] at h ⊢
  induction entries with
  | nil => simp at h
  | cons entry rest ih =>
    obtain ⟨key, slot⟩ := entry
    rw [search]
    split
    · simp
    · next hne =>
      rw [List.map_cons, List.mem_cons] at h
      exact ih (h.resolve_left hne)

/-- The last insertion of a name counts. -/
theorem insert_insert (b : Bindings) (name : String) (old new : Slot) :
    (b.insert name old).insert name new = b.insert name new := by
  obtain ⟨l⟩ := b
  simp only [insert, mk.injEq]
  induction l with
  | nil => simp [place]
  | cons entry rest ih => grind [place]

/-- Insertions of different names commute. -/
theorem insert_comm (b : Bindings) {x y : String} (h : x ≠ y) (s t : Slot) :
    (b.insert y t).insert x s = (b.insert x s).insert y t := by
  obtain ⟨l⟩ := b
  simp only [insert, mk.injEq]
  have total : x < y ∨ y < x := by grind
  induction l with
  | nil => grind [place]
  | cons entry rest ih => grind [place]

end Bindings

end MethodLang
