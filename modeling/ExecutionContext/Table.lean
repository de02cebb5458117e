/-!
# Tables from names to values

A table binds each name at most once. Entries keep the order in which their names
were first bound; rebinding a name keeps its place. `names` lists the bound names
in sorted order, by code point.
-/

namespace ExecutionContext

/-- Values bound to names. -/
structure Table (α : Type) where
  entries : List (String × α) := []

namespace Table

variable {α : Type}

instance : Inhabited (Table α) := ⟨{}⟩

/-- The value bound to a name in a list of bindings. -/
def find : List (String × α) -> String -> Option α
  | [], _ => none
  | (key, value) :: rest, name => if key = name then some value else find rest name

/-- Bind a name in a list of bindings, in its old place if it has one. -/
def bind : List (String × α) -> String -> α -> List (String × α)
  | [], name, value => [(name, value)]
  | (key, old) :: rest, name, value =>
      if key = name then (name, value) :: rest else (key, old) :: bind rest name value

/-- Drop the binding of a name. -/
def drop : List (String × α) -> String -> List (String × α)
  | [], _ => []
  | (key, value) :: rest, name =>
      if key = name then drop rest name else (key, value) :: drop rest name

def get? (table : Table α) (name : String) : Option α :=
  find table.entries name

def contains (table : Table α) (name : String) : Bool :=
  (table.get? name).isSome

def insert (table : Table α) (name : String) (value : α) : Table α :=
  ⟨bind table.entries name value⟩

def erase (table : Table α) (name : String) : Table α :=
  ⟨drop table.entries name⟩

def size (table : Table α) : Nat :=
  table.entries.length

/-- The bound names in the order in which they were first bound. -/
def keys (table : Table α) : List String :=
  table.entries.map Prod.fst

/-- The bound names, sorted by code point. -/
def names (table : Table α) : List String :=
  table.keys.mergeSort (fun a b => decide (a ≤ b))

/-! ## Lookup after binding and removing -/

@[simp] theorem get?_empty (name : String) : (({} : Table α).get? name) = none := rfl

theorem find_bind (entries : List (String × α)) (name other : String) (value : α) :
    find (bind entries name value) other =
      if name = other then some value else find entries other := by
  induction entries with
  | nil => simp [bind, find]
  | cons entry rest ih => grind [bind, find]

theorem find_drop (entries : List (String × α)) (name other : String) :
    find (drop entries name) other = if name = other then none else find entries other := by
  induction entries with
  | nil => simp [drop, find]
  | cons entry rest ih => grind [drop, find]

theorem get?_insert (table : Table α) (name other : String) (value : α) :
    (table.insert name value).get? other =
      if name = other then some value else table.get? other :=
  find_bind table.entries name other value

theorem get?_erase (table : Table α) (name other : String) :
    (table.erase name).get? other = if name = other then none else table.get? other :=
  find_drop table.entries name other

@[simp] theorem get?_insert_self (table : Table α) (name : String) (value : α) :
    (table.insert name value).get? name = some value := by
  simp [get?_insert]

theorem get?_insert_of_ne (table : Table α) {name other : String} (h : name ≠ other)
    (value : α) : (table.insert name value).get? other = table.get? other := by
  simp [get?_insert, h]

end Table

end ExecutionContext
