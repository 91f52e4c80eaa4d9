import LiveDoc.Json.Reader

/-!
# Records in JSON

Reading the fields of a record. A record is an object, or an array of its first fields in their
order; members without meaning are passed over, and a field given twice is refused. In a table, of
two entries with one name the later counts.
-/

set_option autoImplicit false
set_option relaxedAutoImplicit false

namespace LiveDoc.Json

variable {α : Type}

def fields? (names : List String) : Json → Option (List (String × Json))
  | .obj members => some members
  | .arr items => if items.length ≤ names.length then some (names.zip items) else none
  | _ => none

/-- The value of a field, if it is given; none if it is given twice. -/
def field? (name : String) (members : List (String × Json)) : Option (Option Json) :=
  match members.filter (·.1 = name) with
  | [] => some none
  | [(_, value)] => some (some value)
  | _ => none

def required? (read : Json → Option α) (name : String) (members : List (String × Json)) :
    Option α := do
  let value ← field? name members
  value.bind read

/-- A field with a value of its own where it is not given. -/
def defaulted? (default : α) (read : Json → Option α) (name : String)
    (members : List (String × Json)) : Option α := do
  match ← field? name members with
  | some value => read value
  | none => some default

/-- A field that may be missing or null. -/
def optional? (read : Json → Option α) (name : String) (members : List (String × Json)) :
    Option (Option α) := do
  match ← field? name members with
  | none | some .null => some none
  | some value => (read value).map some

def bool? : Json → Option Bool
  | .bool b => some b
  | _ => none

/-- A value as it is kept: in canonical form. -/
def value? (j : Json) : Option Json := some j.canonical

def table? : Json → Option (Table Json)
  | .obj members => some (Table.ofList (canonicalMembers members))
  | _ => none

def list? (read : Json → Option α) : Json → Option (List α)
  | .arr items => items.mapM read
  | _ => none

def entries? (read : Json → Option α) : Json → Option (Table α)
  | .obj members => do
    let entries ← members.mapM fun (name, value) => (read value).map (name, ·)
    some (Table.ofList entries)
  | _ => none

/-- The name of a case without data: a text, or an object that gives it no data. -/
def caseName? : Json → Option String
  | .str name => some name
  | .obj [(name, .null)] => some name
  | _ => none

/-- How a tag gives its case: by name, or by name or number. -/
inductive Tagging
  | named | numbered
deriving DecidableEq, Repr

/-- The case that a tag gives, of the cases by their names in order. -/
def caseOf? (tagging : Tagging) (cases : List String) : Json → Option String
  | .str name => if name ∈ cases then some name else none
  | tag => if tagging = .numbered then (nat? tag).bind (cases[·]?) else none

/-- The case of a tagged record and its members: the tag is a member, or the first item. -/
def tagged? (tag : String) (tagging : Tagging) (cases : List String) :
    Json → Option (String × Json)
  | .obj members => do
    let case ← required? (caseOf? tagging cases) tag members
    some (case, .obj (members.filter (·.1 ≠ tag)))
  | .arr (item :: items) => do
    let case ← caseOf? tagging cases item
    some (case, .arr items)
  | _ => none

/-- The member for a field that is written only if it has a value. -/
def member? (name : String) (write : α → Json) : Option α → List (String × Json)
  | some value => [(name, write value)]
  | none => []

/-- Reads a record from text, looking only at the parts of a shape. -/
def decode? (shape : Shape) (read : Json → Option α) (s : String) : Option α :=
  (readShape? shape s).bind read

end LiveDoc.Json
