import LiveDoc.Document.Basic
import LiveDoc.Edit.JsonForm

/-!
# The JSON form of documents

Records; that of an agent has the fields of its document among its own, and that of a source is
tagged with the kind of what it holds.
-/

set_option autoImplicit false
set_option relaxedAutoImplicit false

namespace LiveDoc

open Json (required? defaulted? optional? fields? member? Shape Tagging)

namespace Document

def members (d : Document) : List (String × Json) :=
  [("id", .str d.id), ("nodes", Node.listToJson d.nodes)] ++ member? "metadata" .obj d.metadata

def toJson (d : Document) : Json := .record d.members

def fieldNames : List String := ["id", "nodes", "metadata"]

def shape : Shape := .fields fieldNames

def ofJson? (j : Json) : Option Document := do
  let members ← fields? fieldNames j
  let id ← required? Json.string? "id" members
  let nodes ← required? Node.listOfJson? "nodes" members
  let metadata ← optional? Json.table? "metadata" members
  some { id, nodes, metadata }

end Document

namespace Agent

def members (a : Agent) : List (String × Json) :=
  a.document.members ++ member? "name" .str a.name ++
    member? "description" .str a.description ++ member? "model" .str a.model

def toJson (a : Agent) : Json := .record a.members

def ofJson? : Json → Option Agent
  | .obj members => do
    let document ← Document.ofJson? (.obj members)
    let name ← optional? Json.string? "name" members
    let description ← optional? Json.string? "description" members
    let model ← optional? Json.string? "model" members
    some { document, name, description, model }
  | _ => none

end Agent

namespace Diff

def members (d : Diff) : List (String × Json) :=
  member? "targetDocument" .str d.target ++
    [("operations", .arr (d.operations.map Edit.Operation.toJson))]

def toJson (d : Diff) : Json := .record d.members

def fieldNames : List String := ["targetDocument", "operations"]

def shape : Shape := .fields fieldNames

def ofJson? (tagging : Tagging) (j : Json) : Option Diff := do
  let members ← fields? fieldNames j
  let target ← optional? Json.string? "targetDocument" members
  let operations ← required? (Json.list? (Edit.Operation.ofJson? tagging)) "operations" members
  some { target, operations }

end Diff

namespace Source

def kindName : Source → String
  | .document _ => "idyll"
  | .agent _ => "agent"
  | .diff _ => "diff"

def members : Source → List (String × Json)
  | .document d => d.members
  | .agent a => a.members
  | .diff d => d.members

def toJson (s : Source) : Json := .record (("kind", .str s.kindName) :: s.members)

def kinds : List String := ["idyll", "agent", "diff"]

def ofJson? (j : Json) : Option Source := do
  let (case, record) ← Json.tagged? "kind" .named kinds j
  match case with
  | "idyll" => (Document.ofJson? record).map .document
  | "agent" => (Agent.ofJson? record).map .agent
  | "diff" => (Diff.ofJson? .numbered record).map .diff
  | _ => none

end Source

end LiveDoc
