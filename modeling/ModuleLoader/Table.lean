/-!
Tables from names to values, kept in code-point order of the names.

Reading a table back in order, and the one place a name is looked up, live here; the laws say
what each operation does to `get?`.
-/

namespace ModuleLoader
set_option autoImplicit false

/-- Names with one value each, listed in increasing order. -/
structure Table (α : Type) where
  entries : List (String × α)

namespace Table

variable {α β : Type}

instance : Inhabited (Table α) := ⟨⟨[]⟩⟩

/-- The table that holds nothing. -/
def empty : Table α := ⟨[]⟩

/-- The value of the first entry called `name`. -/
def find (name : String) : List (String × α) → Option α
  | [] => none
  | (key, value) :: rest => if key = name then some value else find name rest

/-- Puts `value` in its place, replacing an entry of the same name. -/
def place (name : String) (value : α) : List (String × α) → List (String × α)
  | [] => [(name, value)]
  | (key, old) :: rest =>
    if key = name then (key, value) :: rest
    else if name < key then (name, value) :: (key, old) :: rest
    else (key, old) :: place name value rest

/-- Leaves out every entry called `name`. -/
def drop (name : String) : List (String × α) → List (String × α)
  | [] => []
  | (key, value) :: rest => if key = name then drop name rest else (key, value) :: drop name rest

/-- The value stored under `name`. -/
def get? (table : Table α) (name : String) : Option α :=
  find name table.entries

/-- Whether `name` has an entry. -/
def contains (table : Table α) (name : String) : Bool :=
  (table.get? name).isSome

/-- Stores `value` under `name`; the last write wins. -/
def insert (table : Table α) (name : String) (value : α) : Table α :=
  ⟨place name value table.entries⟩

/-- Stores `value` under `name` unless the name is taken. -/
def insertNew (table : Table α) (name : String) (value : α) : Table α :=
  if table.contains name then table else table.insert name value

/-- Forgets `name`. -/
def erase (table : Table α) (name : String) : Table α :=
  ⟨drop name table.entries⟩

/-- The names in increasing order. -/
def names (table : Table α) : List String :=
  table.entries.map Prod.fst

/-- The number of entries. -/
def size (table : Table α) : Nat :=
  table.entries.length

/-- Inserts the pairs from first to last, so of two with one name the later stays. -/
def ofList (pairs : List (String × α)) : Table α :=
  pairs.foldl (fun table pair => table.insert pair.1 pair.2) empty

/-- Changes every value, keeping the names. -/
def map (f : α → β) (table : Table α) : Table β :=
  ⟨table.entries.map fun entry => (entry.1, f entry.2)⟩

theorem find_place (name other : String) (value : α) (entries : List (String × α)) :
    find other (place name value entries) =
      if name = other then some value else find other entries := by
  induction entries with
  | nil => simp [place, find]
  | cons entry rest ih =>
    obtain ⟨key, old⟩ := entry
    by_cases hkey : key = name
    · subst hkey
      by_cases hother : key = other <;> simp [place, find, hother]
    · by_cases hlt : name < key
      · rw [place, if_neg hkey, if_pos hlt, find]
      · by_cases hfirst : key = other
        · subst hfirst
          simp [place, find, hkey, hlt, Ne.symm hkey]
        · simp [place, find, hkey, hlt, hfirst, ih]

theorem find_drop (name other : String) (entries : List (String × α)) :
    find other (drop name entries) = if name = other then none else find other entries := by
  induction entries with
  | nil => simp [drop, find]
  | cons entry rest ih =>
    obtain ⟨key, old⟩ := entry
    by_cases hkey : key = name
    · subst hkey
      by_cases hother : key = other
      · subst hother; simp [drop, ih]
      · simp [drop, find, hother, ih]
    · by_cases hother : key = other
      · subst hother; simp [drop, find, hkey, Ne.symm hkey]
      · simp [drop, find, hkey, hother, ih]

@[simp] theorem get?_empty (name : String) : (empty : Table α).get? name = none := rfl

/-- A write is seen under its own name and nowhere else. -/
theorem get?_insert (table : Table α) (name other : String) (value : α) :
    (table.insert name value).get? other =
      if name = other then some value else table.get? other :=
  find_place name other value table.entries

/-- A first write stays. -/
theorem get?_insertNew (table : Table α) (name other : String) (value : α) :
    (table.insertNew name value).get? other =
      if name = other ∧ (table.get? name).isNone then some value else table.get? other := by
  unfold insertNew contains
  cases h : table.get? name with
  | some old => simp
  | none =>
    rw [if_neg (by simp), get?_insert]
    by_cases hname : name = other <;> simp [hname]

/-- Erasing forgets one name and no other. -/
theorem get?_erase (table : Table α) (name other : String) :
    (table.erase name).get? other = if name = other then none else table.get? other :=
  find_drop name other table.entries

end Table

end ModuleLoader
