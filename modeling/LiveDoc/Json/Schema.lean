import LiveDoc.Json.Printer
import LiveDoc.Json.Record

/-!
# Schemas

Schemas for JSON values: what they demand, which values are schemas, and what is said about a value
that does not meet one. A demand concerns only values of the type it is made for.
-/

set_option autoImplicit false
set_option relaxedAutoImplicit false

namespace LiveDoc.Json

/-- The types of value that a schema can demand, in the order in which they are listed. -/
inductive TypeName
  | array | boolean | integer | null | number | object | string
deriving DecidableEq, Repr

namespace TypeName

def all : List TypeName := [.array, .boolean, .integer, .null, .number, .object, .string]

def name : TypeName → String
  | .array => "array"
  | .boolean => "boolean"
  | .integer => "integer"
  | .null => "null"
  | .number => "number"
  | .object => "object"
  | .string => "string"

def ofName? (written : String) : Option TypeName := all.find? (·.name = written)

/-- Whether a value is of a type. A number without fraction is an integer, however it is written. -/
def holds : TypeName → Json → Bool
  | .array, .arr _ | .boolean, .bool _ | .null, .null | .number, .num _ | .object, .obj _
  | .string, .str _ => true
  | .integer, .num n => n.isWhole
  | _, _ => false

end TypeName

mutual

def same : Json → Json → Bool
  | .null, .null => true
  | .bool a, .bool b => a = b
  | .num a, .num b => a.compare b = .eq
  | .str a, .str b => a = b
  | .arr as, .arr bs => sameItems as bs
  | .obj as, .obj bs => sameMembers as bs
  | _, _ => false
termination_by structural a => a

def sameItems : List Json → List Json → Bool
  | [], [] => true
  | a :: as, b :: bs => same a b && sameItems as bs
  | _, _ => false
termination_by structural as => as

def sameMembers : List (String × Json) → List (String × Json) → Bool
  | [], [] => true
  | (k, a) :: as, (l, b) :: bs => k = l && same a b && sameMembers as bs
  | _, _ => false
termination_by structural as => as

end

mutual

/-- A schema: nothing meets `never`, and any other demands several things. -/
inductive Schema where
  | never
  | all (demands : List Demand)

inductive Demand where
  | types (names : List TypeName)
  | properties (schemas : List (String × Schema))
  | required (names : List String)
  | noneBut (names : List String)
  | noMembers
  | oneOf (values : List Json)
  | exactly (value : Json)
  | minimum (limit : Number)
  | maximum (limit : Number)
  | minLength (limit : Nat)
  | maxLength (limit : Nat)
  | items (schema : Schema)
  | minItems (limit : Nat)
  | maxItems (limit : Nat)

end

namespace Schema

def names? (j : Json) : Option (List String) := do
  let names ← list? string? j
  if names.eraseDups.length = names.length then some names else none

def types? : Json → Option (List TypeName)
  | .str s => (TypeName.ofName? s).map ([·])
  | j => do
    let names ← names? j
    let types ← names.mapM TypeName.ofName?
    if types.isEmpty then none else some (TypeName.all.filter (types.contains ·))

def number? : Json → Option Number
  | .num n => some n
  | _ => none

def maxCount : Nat := Nat.pow 2 64 - 1

/-- The count that a value is, however it is written; a larger one than the largest counts as
that. -/
def count? : Json → Option Nat
  | .num n =>
    let (negative, q) := n.quotient
    if n.isWhole && (!negative || q.numerator = 0) then
      some (min (q.numerator / q.denominator) maxCount)
    else none
  | _ => none

/-- The demand that no others than the described members are there. -/
def noOthers (keywords : List (String × Json)) : Demand :=
  match keywords.find? (·.1 = "properties") with
  | some (_, .obj members) => .noneBut (members.map Prod.fst)
  | _ => .noMembers

mutual

def ofJson? : Json → Option Schema
  | .bool true => some (.all [])
  | .bool false => some .never
  | .obj keywords => (demands? (noOthers keywords) keywords).map .all
  | _ => none
termination_by structural j => j

/-- The demands of keywords; unknown ones demand nothing. `closed` is the demand that there are no
other members than the described ones. -/
def demands? (closed : Demand) : List (String × Json) → Option (List Demand)
  | [] => some []
  | (keyword, value) :: rest => do
    let demands ← demands? closed rest
    match keyword with
    | "type" => (types? value).map fun types => .types types :: demands
    | "properties" =>
      match value with
      | .obj members => (schemas? members).map fun schemas => .properties schemas :: demands
      | _ => none
    | "required" => (names? value).map fun names => .required names :: demands
    | "additionalProperties" => do
      let schema ← ofJson? value
      match schema with
      | .never => some (closed :: demands)
      | .all _ => some demands
    | "enum" => (list? some value).map fun values => .oneOf values :: demands
    | "const" => some (.exactly value :: demands)
    | "minimum" => (number? value).map fun limit => .minimum limit :: demands
    | "maximum" => (number? value).map fun limit => .maximum limit :: demands
    | "minLength" => (count? value).map fun limit => .minLength limit :: demands
    | "maxLength" => (count? value).map fun limit => .maxLength limit :: demands
    | "items" => (ofJson? value).map fun schema => .items schema :: demands
    | "minItems" => (count? value).map fun limit => .minItems limit :: demands
    | "maxItems" => (count? value).map fun limit => .maxItems limit :: demands
    | _ => some demands
termination_by structural keywords => keywords

def schemas? : List (String × Json) → Option (List (String × Schema))
  | [] => some []
  | (name, value) :: rest => do
    let schema ← ofJson? value
    let schemas ← schemas? rest
    some ((name, schema) :: schemas)
termination_by structural members => members

end

def counted (n : Nat) (thing : String) : String :=
  toString n ++ " " ++ thing ++ (if n = 1 then "" else "s")

def typeComplaint (j : Json) (types : List TypeName) : String :=
  let names := types.map fun t => quote t.name
  let noun := if types.length = 1 then "type " else "types "
  j.text ++ " is not of " ++ noun ++ String.intercalate ", " names

def namedValues : Nat := 3

/-- The values of an enumeration: of a long one the first two and how many there are besides. -/
def alternatives (values : List Json) : String :=
  let texts := values.map text
  match texts.reverse with
  | [] => ""
  | [only] => only
  | last :: before =>
    if values.length ≤ namedValues then
      String.intercalate ", " before.reverse ++ " or " ++ last
    else
      String.intercalate ", " (texts.take (namedValues - 1)) ++ " or " ++
        toString (values.length - (namedValues - 1)) ++ " other candidates"

def unexpected (names : List String) : String :=
  "Additional properties are not allowed (" ++
    String.intercalate ", " (names.map fun name => "'" ++ name ++ "'") ++
    (if names.length = 1 then " was" else " were") ++ " unexpected)"

def complainUnless (holds : Bool) (complaint : String) : List String :=
  if holds then [] else [complaint]

mutual

/-- What is said about a value that does not meet a schema. -/
def check : Schema → Json → List String
  | .never, j => ["False schema does not allow " ++ j.text]
  | .all demands, j => checkAll demands j
termination_by structural s => s

def checkDemand : Demand → Json → List String
  | .types names, j => complainUnless (names.any (·.holds j)) (typeComplaint j names)
  | .properties schemas, .obj members => checkMembers schemas members
  | .required names, .obj members =>
    (names.filter fun name => !members.any (·.1 = name)).map fun name =>
      quote name ++ " is a required property"
  | .noneBut names, .obj members =>
    let extra := (members.map Prod.fst).filter (!names.contains ·)
    complainUnless extra.isEmpty (unexpected extra)
  | .noMembers, .obj ((_, value) :: _) => ["False schema does not allow " ++ value.text]
  | .oneOf values, j =>
    complainUnless (values.any (same · j)) (j.text ++ " is not one of " ++ alternatives values)
  | .exactly value, j => complainUnless (same value j) (value.text ++ " was expected")
  | .minimum limit, .num n =>
    complainUnless (n.compare limit ≠ .lt) (n.text ++ " is less than the minimum of " ++ limit.text)
  | .maximum limit, .num n =>
    complainUnless (n.compare limit ≠ .gt)
      (n.text ++ " is greater than the maximum of " ++ limit.text)
  | .minLength limit, .str s =>
    complainUnless (limit ≤ s.length) (quote s ++ " is shorter than " ++ counted limit "character")
  | .maxLength limit, .str s =>
    complainUnless (s.length ≤ limit) (quote s ++ " is longer than " ++ counted limit "character")
  | .items schema, .arr items => items.flatMap (check schema)
  | .minItems limit, .arr items =>
    complainUnless (limit ≤ items.length)
      ((Json.arr items).text ++ " has less than " ++ counted limit "item")
  | .maxItems limit, .arr items =>
    complainUnless (items.length ≤ limit)
      ((Json.arr items).text ++ " has more than " ++ counted limit "item")
  | _, _ => []
termination_by structural d => d

def checkAll : List Demand → Json → List String
  | [], _ => []
  | d :: rest, j => checkDemand d j ++ checkAll rest j
termination_by structural ds => ds

def checkMembers : List (String × Schema) → List (String × Json) → List String
  | [], _ => []
  | (name, schema) :: rest, members =>
    (match members.find? (·.1 = name) with
      | some (_, value) => check schema value
      | none => []) ++ checkMembers rest members
termination_by structural schemas => schemas

end

end Schema

end LiveDoc.Json
