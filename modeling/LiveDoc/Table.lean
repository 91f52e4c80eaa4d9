/-!
# Tables

Maps from names to values, kept as lists of entries in ascending order of name. The order is the
one in which every listing of a table is written.
-/

set_option autoImplicit false
set_option relaxedAutoImplicit false

namespace LiveDoc

/-- The entries of a map, by ascending name. -/
abbrev Table (α : Type) := List (String × α)

namespace Table

variable {α : Type}

def get? (name : String) : Table α → Option α
  | [] => none
  | (other, value) :: rest => if other = name then some value else get? name rest

/-- Keeps a value under a name, in place of the one kept there before. -/
def put (name : String) (value : α) : Table α → Table α
  | [] => [(name, value)]
  | (other, old) :: rest =>
    if name < other then (name, value) :: (other, old) :: rest
    else if name = other then (name, value) :: rest
    else (other, old) :: put name value rest

def erase (name : String) (table : Table α) : Table α :=
  table.filter fun entry => entry.1 ≠ name

/-- The table of some entries: of two with one name the later counts. -/
def ofList (entries : List (String × α)) : Table α :=
  entries.foldl (fun table entry => put entry.1 entry.2 table) []

def names (table : Table α) : List String :=
  table.map Prod.fst

def has (name : String) (table : Table α) : Bool :=
  (table.get? name).isSome

/-- The entries of two tables together; where both have a name, the second counts. -/
def union (first second : Table α) : Table α :=
  second.foldl (fun table entry => put entry.1 entry.2 table) first

/-- Whether the names stand in strictly ascending order. -/
def Sorted (table : Table α) : Prop :=
  table.names.Pairwise (· < ·)

@[simp] theorem get?_nil (name : String) : get? name ([] : Table α) = none := rfl

@[simp] theorem get?_put_self (name : String) (value : α) (table : Table α) :
    get? name (put name value table) = some value := by
  induction table with
  | nil => simp [put, get?]
  | cons entry rest ih =>
    obtain ⟨other, old⟩ := entry
    simp only [put]
    split
    · simp [get?]
    · split
      · simp [get?]
      · rename_i h
        simp [get?, ih, Ne.symm h]

theorem get?_put_of_ne {name other : String} (h : other ≠ name) (value : α) (table : Table α) :
    get? other (put name value table) = get? other table := by
  induction table with
  | nil => simp [put, get?, h.symm]
  | cons entry rest ih =>
    obtain ⟨key, old⟩ := entry
    simp only [put]
    split
    · simp [get?, h.symm]
    · split
      · rename_i hk
        subst hk
        simp [get?, h.symm]
      · simp [get?, ih]

end Table

end LiveDoc
