import LiveDoc.Variable.Basic
import LiveDoc.Variable.Value

/-!
# Resolving variables

Finding values for defined variables. Each is looked for by itself, so neither the order nor the
time they take matters; one without a value gets its placeholder.
-/

set_option autoImplicit false
set_option relaxedAutoImplicit false

namespace LiveDoc.Variable

inductive Missing
  | noValue (name : String)
  | failed (name message : String)
deriving DecidableEq, Repr

def Missing.message : Missing → String
  | .noValue name => "No value available for variable '" ++ name ++ "'"
  | .failed name message => "Variable '" ++ name ++ "' could not be resolved: " ++ message

def Missing.name : Missing → String
  | .noValue name | .failed name _ => name

/-- The values found, placeholders among them, and what is missing. -/
structure Resolution where
  values : Table Json
  missing : List Missing
deriving DecidableEq

abbrev Resolver := Definition → Except Missing Json

def Resolution.add (r : Resolution) (name : String) : Except Missing Json → Resolution
  | .ok value => { r with values := r.values.put name value }
  | .error missing =>
    { values := r.values.put name (.str (Inline.placeholder name)),
      missing := r.missing ++ [missing] }

def resolve (resolver : Resolver) (ds : List Definition) : Resolution :=
  ds.foldl (fun r d => r.add d.name (resolver d)) ⟨[], []⟩

/-- Tables to find values in: failures come first, then hints of the host, then values. -/
structure Sources where
  failures : Table String
  hints : Table Json
  values : Table Json

/-- Finds a value in the first table that has the name. -/
def Sources.resolver (s : Sources) : Resolver := fun d =>
  match s.failures.get? d.name with
  | some message => .error (.failed d.name message)
  | none =>
    match (s.hints.get? d.name).or (s.values.get? d.name) with
    | some value => .ok value
    | none => .error (.noValue d.name)

def Missing.toJson : Missing → Json
  | .noValue name => .record [("NoValue", .str name)]
  | .failed name message =>
    .record [("Failed", .record [("name", .str name), ("message", .str message)])]

def Missing.fieldNames : List String := ["name", "message"]

def Missing.shape : Json.Shape := .entries (.fields fieldNames)

def Missing.ofJson? : Json → Option Missing
  | .obj [("NoValue", .str name)] => some (.noValue name)
  | .obj [("Failed", record)] => do
    let members ← Json.fields? fieldNames record
    let name ← Json.required? Json.string? "name" members
    let message ← Json.required? Json.string? "message" members
    some (.failed name message)
  | _ => none

def Resolution.toJson (r : Resolution) : Json :=
  .record (("variables", .obj r.values) ::
    (if r.missing.isEmpty then [] else [("errors", .arr (r.missing.map Missing.toJson))]))

def Resolution.shape : Json.Shape :=
  .record [("variables", .whole), ("errors", .items Missing.shape)]

def Resolution.ofJson? (j : Json) : Option Resolution := do
  let members ← Json.fields? ["variables", "errors"] j
  let values ← Json.required? Json.table? "variables" members
  let missing ← Json.defaulted? [] (Json.list? Missing.ofJson?) "errors" members
  some { values, missing }

end LiveDoc.Variable
