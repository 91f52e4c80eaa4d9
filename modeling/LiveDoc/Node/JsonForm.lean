import LiveDoc.Inline.JsonForm
import LiveDoc.Node.Basic

/-!
# The JSON form of nodes

A record per node. Reading tries the form of a call first and takes whatever does not fit it for a
block.
-/

set_option autoImplicit false
set_option relaxedAutoImplicit false

namespace LiveDoc

open Json (required? defaulted? optional? fields? member?)

def CallKind.ofJson? (j : Json) : Option CallKind := do
  match ← Json.caseName? j with
  | "function_call" => some .invocation
  | "trigger" => some .trigger
  | _ => none

/-- The JSON form of a call. What else is known about it stands beside the mark that it is enabled,
and an entry of the name of the mark in its place. -/
def Call.toJson (c : Call) : Json :=
  .record [("id", .str c.id), ("type", .str c.kind.typeName), ("fn", .str c.function),
    ("parameters", .obj c.parameters), ("instructions", Inline.listToJson c.instructions),
    ("metadata", .record (("enabled", .bool c.enabled) :: c.extra))]

/-- The mark that a call is enabled, and what else is known about it. -/
def Call.metadataOfJson? : Json → Option (Bool × Table Json)
  | .obj members => do
    let enabled ← required? Json.bool? "enabled" members
    let extra ← Json.table? (.obj members)
    some (enabled, Table.erase "enabled" extra)
  | _ => none

def Call.ofJson? (j : Json) : Option Call := do
  let members ← fields? ["id", "type", "fn", "parameters", "instructions", "metadata"] j
  let id ← required? Json.string? "id" members
  let kind ← required? CallKind.ofJson? "type" members
  let function ← required? Json.string? "fn" members
  let parameters ← defaulted? [] Json.table? "parameters" members
  let instructions ← defaulted? [] (Inline.listOfJson? .numbered) "instructions" members
  let (enabled, extra) ← defaulted? (true, []) Call.metadataOfJson? "metadata" members
  some { id, kind, function, parameters, instructions, enabled, extra }

def Block.ofJson? (j : Json) : Option Block := do
  let members ← fields? ["id", "type", "props", "content", "children"] j
  let id ← required? Json.string? "id" members
  let kind ← required? Json.string? "type" members
  let props ← defaulted? [] Json.table? "props" members
  let content ← defaulted? [] (Inline.listOfJson? .numbered) "content" members
  some { id, kind, props, content }

def Block.members (head : Block) : List (String × Json) :=
  [("id", .str head.id), ("type", .str head.kind), ("content", Inline.listToJson head.content)] ++
    (if head.props.isEmpty then [] else [("props", .obj head.props)])

namespace Node

mutual

def toJson : Node → Json
  | .block head none => .record head.members
  | .block head (some children) =>
    .record (head.members ++ [("children", .arr (toJsonAll children))])
  | .call c => c.toJson
termination_by structural n => n

def toJsonAll : List Node → List Json
  | [] => []
  | n :: rest => n.toJson :: toJsonAll rest
termination_by structural ns => ns

end

def listToJson (ns : Forest) : Json := .arr (toJsonAll ns)

/-- The child list of a record, as far as it is read: none if it is refused. -/
abbrev Children := Option (Option Forest)

def ofRecord? (j : Json) (children : Children) : Option Node :=
  match Call.ofJson? j with
  | some c => some (.call c)
  | none => do
    let head ← Block.ofJson? j
    let children ← children
    some (.block head children)

mutual

def ofJson? : Json → Option Node
  | .obj members => ofRecord? (.obj members) (childrenMember? members)
  | .arr items => ofRecord? (.arr items) (childrenItem? 4 items)
  | _ => none
termination_by structural j => j

def childrenOfJson? : Json → Children
  | .null => some none
  | .arr items => (ofItems? items).map some
  | _ => none
termination_by structural j => j

def ofItems? : List Json → Option Forest
  | [] => some []
  | item :: rest => do
    let n ← ofJson? item
    let ns ← ofItems? rest
    some (n :: ns)
termination_by structural items => items

def childrenMember? : List (String × Json) → Children
  | [] => some none
  | (name, value) :: rest =>
    if name = "children" then
      if rest.any (·.1 = "children") then none else childrenOfJson? value
    else childrenMember? rest
termination_by structural members => members

def childrenItem? : Nat → List Json → Children
  | _, [] => some none
  | 0, value :: _ => childrenOfJson? value
  | place + 1, _ :: rest => childrenItem? place rest
termination_by structural _ items => items

end

def listOfJson? : Json → Option Forest
  | .arr items => ofItems? items
  | _ => none

end Node

end LiveDoc
