import LiveDoc.Edit.Operation
import LiveDoc.Node.JsonForm

/-!
# The JSON form of edit operations

A record tagged with the name of the operation. Markers that are not set are left out.
-/

set_option autoImplicit false
set_option relaxedAutoImplicit false

namespace LiveDoc.Edit

open Json (required? defaulted? optional? fields? member? Tagging)

def flagMember (name : String) (flag : Bool) : List (String × Json) :=
  if flag then [(name, .bool true)] else []

def Markers.members (m : Markers) : List (String × Json) :=
  member? "afterBlockId" .str m.after ++ flagMember "atStart" m.atStart ++
    flagMember "atEnd" m.atEnd

def Targets.members (t : Targets) : List (String × Json) :=
  member? "blockId" .str t.block ++ member? "blockIds" .ofStrings t.blocks ++
    member? "fromBlockId" .str t.first ++ member? "toBlockId" .str t.last

def Markers.ofMembers? (members : List (String × Json)) : Option Markers := do
  let after ← optional? Json.string? "afterBlockId" members
  let atStart ← defaulted? false Json.bool? "atStart" members
  let atEnd ← defaulted? false Json.bool? "atEnd" members
  some { after, atStart, atEnd }

def Targets.ofMembers? (members : List (String × Json)) : Option Targets := do
  let block ← optional? Json.string? "blockId" members
  let blocks ← optional? (Json.list? Json.string?) "blockIds" members
  let first ← optional? Json.string? "fromBlockId" members
  let last ← optional? Json.string? "toBlockId" members
  some { block, blocks, first, last }

namespace Operation

def members : Operation → List (String × Json)
  | .setProp block name value => [("blockId", .str block), ("name", .str name), ("value", value)]
  | .setContent block content =>
    [("blockId", .str block), ("content", Inline.listToJson content)]
  | .setParameters block parameters => [("blockId", .str block), ("params", .obj parameters)]
  | .rename block new => [("blockId", .str block), ("newId", .str new)]
  | .insert place nodes => place.members ++ [("nodes", Node.listToJson nodes)]
  | .delete block => [("blockId", .str block)]
  | .replace block nodes => [("blockId", .str block), ("nodes", Node.listToJson nodes)]
  | .move targets place => targets.members ++ place.members

def toJson (o : Operation) : Json :=
  .record (("type", .str o.name) :: o.members)

def cases : List String :=
  ["edit:attr", "edit:content", "edit:params", "edit:id", "insert", "delete", "replace", "move"]

def ofCase? (case : String) (record : Json) : Option Operation :=
  match case with
  | "edit:attr" => do
    let members ← fields? ["blockId", "name", "value"] record
    let block ← required? Json.string? "blockId" members
    let name ← required? Json.string? "name" members
    let value ← required? Json.value? "value" members
    some (.setProp block name value)
  | "edit:content" => do
    let members ← fields? ["blockId", "content"] record
    let block ← required? Json.string? "blockId" members
    let content ← required? (Inline.listOfJson? .numbered) "content" members
    some (.setContent block content)
  | "edit:params" => do
    let members ← fields? ["blockId", "params"] record
    let block ← required? Json.string? "blockId" members
    let parameters ← required? Json.table? "params" members
    some (.setParameters block parameters)
  | "edit:id" => do
    let members ← fields? ["blockId", "newId"] record
    let block ← required? Json.string? "blockId" members
    let new ← required? Json.string? "newId" members
    some (.rename block new)
  | "insert" => do
    let members ← fields? ["afterBlockId", "atStart", "atEnd", "nodes"] record
    let place ← Markers.ofMembers? members
    let nodes ← required? Node.listOfJson? "nodes" members
    some (.insert place nodes)
  | "delete" => do
    let members ← fields? ["blockId"] record
    let block ← required? Json.string? "blockId" members
    some (.delete block)
  | "replace" => do
    let members ← fields? ["blockId", "nodes"] record
    let block ← required? Json.string? "blockId" members
    let nodes ← required? Node.listOfJson? "nodes" members
    some (.replace block nodes)
  | "move" => do
    let members ← fields? ["blockId", "blockIds", "fromBlockId", "toBlockId", "afterBlockId",
      "atStart", "atEnd"] record
    let targets ← Targets.ofMembers? members
    let place ← Markers.ofMembers? members
    some (.move targets place)
  | _ => none

def ofJson? (tagging : Tagging) (j : Json) : Option Operation := do
  let (case, record) ← Json.tagged? "type" tagging cases j
  ofCase? case record

end Operation

end LiveDoc.Edit
