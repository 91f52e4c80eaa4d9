import LiveDoc.Json.Record

/-!
# Settings of runs

How long a call may take, whether a failure ends the run, and whether calls get the values of
variables.
-/

set_option autoImplicit false
set_option relaxedAutoImplicit false

namespace LiveDoc.Run

/-- Settings of a run. The time is in milliseconds. -/
structure Settings where
  nodeTimeout : Nat := 30000
  stopOnError : Bool := false
  interpolate : Bool := true
deriving DecidableEq, Repr

namespace Settings

inductive Flaw
  | notSettings
  | zeroTimeout
deriving DecidableEq, Repr

def zeroTimeoutMessage : String := "nodeTimeoutMs must be greater than zero"

def validate (s : Settings) : Except Flaw Unit :=
  if s.nodeTimeout = 0 then .error .zeroTimeout else .ok ()

def toJson (s : Settings) : Json :=
  .record [("nodeTimeoutMs", .ofNat s.nodeTimeout), ("stopOnError", .bool s.stopOnError),
    ("interpolateVariables", .bool s.interpolate)]

def fieldNames : List String := ["nodeTimeoutMs", "stopOnError", "interpolateVariables"]

def shape : Json.Shape := .fields fieldNames

/-- The settings that a value is the JSON form of; what it leaves out is as usual. -/
def ofJson? (j : Json) : Option Settings := do
  let usual : Settings := {}
  let members ← Json.fields? fieldNames j
  let nodeTimeout ← Json.defaulted? usual.nodeTimeout Json.nat? "nodeTimeoutMs" members
  let stopOnError ← Json.defaulted? usual.stopOnError Json.bool? "stopOnError" members
  let interpolate ← Json.defaulted? usual.interpolate Json.bool? "interpolateVariables" members
  some { nodeTimeout, stopOnError, interpolate }

def parse (s : String) : Except Flaw Settings := do
  match Json.decode? shape ofJson? s with
  | some settings =>
    settings.validate
    .ok settings
  | none => .error .notSettings

/-- The settings of a file with the given text; without a file they are as usual. -/
def load : Option String → Except Flaw Settings
  | some s => parse s
  | none => .ok {}

end Settings

end LiveDoc.Run
