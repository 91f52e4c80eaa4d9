import LiveDoc.Json.Record

/-!
# Findings

What a check of attributes or of a tree has found, each with a place and a message, so that all of
it can be told at once.
-/

set_option autoImplicit false
set_option relaxedAutoImplicit false

namespace LiveDoc

inductive FindingKind
  | unknownElement | missingAttribute | invalidValue | patternMismatch | customCheck
  | emptyId | duplicateId | invalidFunctionName
deriving DecidableEq, Repr

def FindingKind.name : FindingKind → String
  | .unknownElement => "unknown_element"
  | .missingAttribute => "missing_attribute"
  | .invalidValue => "invalid_attribute_value"
  | .patternMismatch => "pattern_mismatch"
  | .customCheck => "custom_validation"
  | .emptyId => "empty_id"
  | .duplicateId => "duplicate_id"
  | .invalidFunctionName => "invalid_function_name"

def FindingKind.all : List FindingKind :=
  [.unknownElement, .missingAttribute, .invalidValue, .patternMismatch, .customCheck, .emptyId,
    .duplicateId, .invalidFunctionName]

def FindingKind.ofName? (name : String) : Option FindingKind :=
  all.find? (·.name = name)

structure Finding where
  kind : FindingKind
  place : String
  message : String
deriving DecidableEq, Repr

namespace Finding

def text (f : Finding) : String := f.place ++ ": " ++ f.message

def messages (fs : List Finding) : String :=
  String.intercalate "; " (fs.map Finding.message)

def texts (fs : List Finding) : String :=
  String.intercalate "; " (fs.map Finding.text)

def toJson (f : Finding) : Json :=
  .record [("type", .str f.kind.name), ("path", .str f.place), ("message", .str f.message)]

def fieldNames : List String := ["type", "path", "message"]

def shape : Json.Shape := .fields fieldNames

def ofJson? (j : Json) : Option Finding := do
  let members ← Json.fields? fieldNames j
  let kind ← Json.required? (fun j => (Json.caseName? j).bind FindingKind.ofName?) "type" members
  let place ← Json.required? Json.string? "path" members
  let message ← Json.required? Json.string? "message" members
  some { kind, place, message }

end Finding

end LiveDoc
