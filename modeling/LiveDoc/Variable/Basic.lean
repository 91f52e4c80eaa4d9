import LiveDoc.Json.Record
import LiveDoc.Node.Forest
import LiveDoc.Text.Blank

/-!
# Variables

Where variables occur in a forest. The first occurrence of a name defines it, and the first prompt
given for it counts; a different prompt later is a conflict. Blank prompts do not count.
-/

set_option autoImplicit false
set_option relaxedAutoImplicit false

namespace LiveDoc.Variable

/-- A variable at a place, with its prompt if that is not blank. -/
structure Occurrence where
  node : String
  name : String
  prompt : Option String
deriving DecidableEq, Repr

/-- The definition of a variable: its name, its prompt, the node of its first occurrence. -/
structure Definition where
  name : String
  prompt : Option String
  node : String
deriving DecidableEq, Repr

/-- A name with two prompts, and what is said about it. -/
structure Conflict where
  name : String
  message : String
deriving DecidableEq, Repr

def occurrence? (node : String) : Inline → Option Occurrence
  | .var name prompt _ => some ⟨node, name, prompt.filter (!Text.isAllBlank ·)⟩
  | _ => none

def occurrences (ns : Forest) : List Occurrence :=
  (Forest.preorder ns).flatMap fun n =>
    (Inline.piecesOf n.content).filterMap (occurrence? n.id)

def define (o : Occurrence) : List Definition → List Definition
  | [] => [⟨o.name, o.prompt, o.node⟩]
  | d :: rest =>
    if d.name = o.name then { d with prompt := d.prompt.or o.prompt } :: rest
    else d :: define o rest

/-- The definitions of all variables, in the order of their first occurrences. -/
def definitions (ns : Forest) : List Definition :=
  (occurrences ns).foldl (fun ds o => define o ds) []

/-- The conflict of an occurrence with the first prompt given for its name. -/
def conflict (o : Occurrence) (prompt first : String) : Conflict :=
  ⟨o.name, "Variable '" ++ o.name ++ "' is redeclared in node '" ++ o.node ++ "' with prompt \"" ++
    prompt ++ "\"; it was first declared with \"" ++ first ++ "\""⟩

/-- The conflicts among occurrences, with the first prompts known so far and the names already
reported. -/
def conflictsFrom (first : List (String × String)) (reported : List String) :
    List Occurrence → List Conflict
  | [] => []
  | o :: rest =>
    match o.prompt with
    | none => conflictsFrom first reported rest
    | some prompt =>
      match first.find? (·.1 = o.name) with
      | none => conflictsFrom ((o.name, prompt) :: first) reported rest
      | some (_, known) =>
        if known ≠ prompt ∧ o.name ∉ reported then
          conflict o prompt known :: conflictsFrom first (o.name :: reported) rest
        else conflictsFrom first reported rest

/-- The names that are given different prompts, each once. -/
def conflicts (ns : Forest) : List Conflict := conflictsFrom [] [] (occurrences ns)

def Definition.toJson (d : Definition) : Json :=
  .record ([("name", .str d.name), ("nodeId", .str d.node)] ++ Json.member? "prompt" .str d.prompt)

def Definition.fieldNames : List String := ["name", "prompt", "nodeId"]

def Definition.shape : Json.Shape := .fields fieldNames

def Definition.ofJson? (j : Json) : Option Definition := do
  let members ← Json.fields? fieldNames j
  let name ← Json.required? Json.string? "name" members
  let prompt ← Json.optional? Json.string? "prompt" members
  let node ← Json.required? Json.string? "nodeId" members
  some { name, prompt, node }

def Conflict.toJson (c : Conflict) : Json :=
  .record [("name", .str c.name), ("error", .str c.message)]

def Conflict.fieldNames : List String := ["name", "error"]

def Conflict.shape : Json.Shape := .fields fieldNames

def Conflict.ofJson? (j : Json) : Option Conflict := do
  let members ← Json.fields? fieldNames j
  let name ← Json.required? Json.string? "name" members
  let message ← Json.required? Json.string? "error" members
  some { name, message }

end LiveDoc.Variable
