import LiveDoc.Inline.Basic
import LiveDoc.Json.Record

/-!
# The JSON form of inline content

A tagged record per piece. Styles are written if there are any, and what is missing is left out.
Within other values, also within the content of another piece, the tag may be the number of a case.
-/

set_option autoImplicit false
set_option relaxedAutoImplicit false

namespace LiveDoc.Inline

open Json (required? defaulted? optional? fields? member? Tagging)

mutual

def toJson : Inline → Json
  | .text chars styles =>
    .record ([("type", .str "text"), ("text", .str chars)] ++
      (if styles.isEmpty then [] else [("styles", .ofStrings styles)]))
  | .var name prompt value =>
    .record ([("type", .str "variable"), ("name", .str name)] ++
      member? "prompt" .str prompt ++ member? "resolvedValue" id value)
  | .mention kind ident label =>
    .record [("type", .str "mention"), ("mentionType", .str kind), ("id", .str ident),
      ("label", .str label)]
  | .link href content =>
    .record [("type", .str "link"), ("href", .str href), ("content", .arr (toJsonAll content))]
  | .note title comment content =>
    .record ([("type", .str "annotation"), ("content", .arr (toJsonAll content))] ++
      member? "title" .str title ++ member? "comment" .str comment)
termination_by structural i => i

def toJsonAll : List Inline → List Json
  | [] => []
  | item :: rest => item.toJson :: toJsonAll rest
termination_by structural items => items

end

def listToJson (content : List Inline) : Json := .arr (toJsonAll content)

def cases : List String := ["text", "variable", "mention", "link", "annotation"]

/-- The field that holds nested content, as far as it is read: none if it is refused. -/
abbrev Nested := Option (Option (List Inline))

/-- The content of a container, empty if the field is not given. -/
def Nested.content? (nested : Nested) : Option (List Inline) :=
  nested.map fun content => content.getD []

def ofCase? (case : String) (record : Json) (nested : Nested) : Option Inline :=
  match case with
  | "text" => do
    let members ← fields? ["text", "styles"] record
    let chars ← required? Json.string? "text" members
    let styles ← defaulted? [] (Json.list? Json.string?) "styles" members
    some (.text chars styles)
  | "variable" => do
    let members ← fields? ["name", "prompt", "resolvedValue"] record
    let name ← required? Json.string? "name" members
    let prompt ← optional? Json.string? "prompt" members
    let value ← optional? Json.value? "resolvedValue" members
    some (.var name prompt value)
  | "mention" => do
    let members ← fields? ["mentionType", "id", "label"] record
    let kind ← required? Json.string? "mentionType" members
    let ident ← required? Json.string? "id" members
    let label ← required? Json.string? "label" members
    some (.mention kind ident label)
  | "link" => do
    let members ← fields? ["href", "content"] record
    let href ← required? Json.string? "href" members
    let content ← nested.content?
    some (.link href content)
  | "annotation" => do
    let members ← fields? ["title", "comment", "content"] record
    let title ← optional? Json.string? "title" members
    let comment ← optional? Json.string? "comment" members
    let content ← nested.content?
    some (.note title comment content)
  | _ => none

/-- The place of the nested content in a record that is written as an array behind its tag. -/
def nestedPlace (case : String) : Nat :=
  if case = "link" then 1 else 2

mutual

def ofJson? : Tagging → Json → Option Inline
  | tagging, .obj members => do
    let (case, record) ← Json.tagged? "type" tagging cases (.obj members)
    ofCase? case record (nestedMember? members)
  | tagging, .arr (tag :: items) => do
    let (case, record) ← Json.tagged? "type" tagging cases (.arr (tag :: items))
    ofCase? case record (nestedItem? (nestedPlace case) items)
  | _, _ => none
termination_by structural _ j => j

def listOfJson? : Tagging → Json → Option (List Inline)
  | tagging, .arr items => ofItems? tagging items
  | _, _ => none
termination_by structural _ j => j

def ofItems? : Tagging → List Json → Option (List Inline)
  | _, [] => some []
  | tagging, item :: rest => do
    let piece ← ofJson? tagging item
    let pieces ← ofItems? tagging rest
    some (piece :: pieces)
termination_by structural _ items => items

def nestedMember? : List (String × Json) → Nested
  | [] => some none
  | (name, value) :: rest =>
    if name = "content" then
      if rest.any (·.1 = "content") then none else (listOfJson? .numbered value).map some
    else nestedMember? rest
termination_by structural members => members

def nestedItem? : Nat → List Json → Nested
  | _, [] => some none
  | 0, value :: _ => (listOfJson? .numbered value).map some
  | place + 1, _ :: rest => nestedItem? place rest
termination_by structural _ items => items

end

end LiveDoc.Inline
