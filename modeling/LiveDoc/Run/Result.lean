import LiveDoc.Json.Record
import LiveDoc.Run.Timestamp

/-!
# Results of runs

What comes of a call and of a run, and what clocks read meanwhile.
-/

set_option autoImplicit false
set_option relaxedAutoImplicit false

namespace LiveDoc.Run

open Json (required? optional? fields? member? Shape)

inductive ErrorCode
  | functionNotFound | invalidParameters | timeout | failure
deriving DecidableEq, Repr

namespace ErrorCode

def name : ErrorCode → String
  | .functionNotFound => "FUNCTION_NOT_FOUND"
  | .invalidParameters => "PARAMETER_VALIDATION_ERROR"
  | .timeout => "EXECUTION_TIMEOUT"
  | .failure => "EXECUTION_ERROR"

def ofName? (written : String) : Option ErrorCode :=
  [functionNotFound, invalidParameters, timeout, failure].find? (·.name = written)

end ErrorCode

structure NodeError where
  message : String
  code : ErrorCode
  details : Option Json
deriving DecidableEq

structure Result where
  success : Bool
  value : Option Json
  error : Option NodeError
deriving DecidableEq

def Result.of : Except NodeError Json → Result
  | .ok value => ⟨true, some value, none⟩
  | .error error => ⟨false, none, some error⟩

def Result.code? (r : Result) : Option ErrorCode := r.error.map NodeError.code

/-- What clocks read when some work is done: how many milliseconds it took, and the moment. -/
structure Reading where
  duration : Nat
  moment : Timestamp
deriving DecidableEq

/-- A result with the time that the call took and the moment of its end. -/
structure TimedResult extends Result where
  duration : Nat
  time : Timestamp
deriving DecidableEq

def Result.timed (r : Result) (reading : Reading) : TimedResult :=
  { r with duration := reading.duration, time := reading.moment }

inductive Mode
  | document | single
deriving DecidableEq, Repr

namespace Mode

def name : Mode → String
  | .document => "document"
  | .single => "single"

def ofName? (written : String) : Option Mode :=
  [document, single].find? (·.name = written)

end Mode

/-- The account of a run: which calls ran in which order, and how many there are of each kind. -/
structure Account where
  mode : Mode
  order : List String
  total : Nat
  succeeded : Nat
  failed : Nat
  skipped : Nat
  stoppedEarly : Bool
deriving DecidableEq

/-- The account of a run with the moments of its start and end and the time it took. -/
structure TimedAccount extends Account where
  startedAt : Timestamp
  completedAt : Timestamp
  duration : Nat
deriving DecidableEq

structure Report where
  nodes : Table TimedResult
  account : TimedAccount
deriving DecidableEq

/-- A run is a success if no call failed. -/
def Report.isSuccess (r : Report) : Bool := r.account.failed = 0

def NodeError.toJson (e : NodeError) : Json :=
  .record ([("message", .str e.message), ("code", .str e.code.name)] ++
    member? "details" id e.details)

def NodeError.fieldNames : List String := ["message", "code", "details"]

def NodeError.shape : Shape := .fields fieldNames

def NodeError.ofJson? (j : Json) : Option NodeError := do
  let members ← fields? fieldNames j
  let message ← required? Json.string? "message" members
  let code ← required? (fun j => (Json.caseName? j).bind ErrorCode.ofName?) "code" members
  let details ← optional? Json.value? "details" members
  some { message, code, details }

def Result.members (r : Result) : List (String × Json) :=
  ("success", .bool r.success) :: (member? "value" id r.value ++
    member? "error" NodeError.toJson r.error)

def Result.toJson (r : Result) : Json := .record r.members

def Result.ofMembers? (members : List (String × Json)) : Option Result := do
  let success ← required? Json.bool? "success" members
  let value ← optional? Json.value? "value" members
  let error ← optional? NodeError.ofJson? "error" members
  some { success, value, error }

def Result.ofJson? (j : Json) : Option Result := do
  let members ← fields? ["success", "value", "error"] j
  Result.ofMembers? members

def Timestamp.ofJson? (j : Json) : Option Timestamp := (Json.string? j).bind ofText?

def Timestamp.toJson (t : Timestamp) : Json := .str t.text

def TimedResult.toJson (r : TimedResult) : Json :=
  .record (r.toResult.members ++ [("durationMs", .ofNat r.duration), ("timestamp", r.time.toJson)])

def TimedResult.shape : Shape :=
  .record [("success", .whole), ("value", .whole), ("error", NodeError.shape),
    ("durationMs", .whole), ("timestamp", .whole)]

def TimedResult.ofJson? (j : Json) : Option TimedResult := do
  let members ← fields? ["success", "value", "error", "durationMs", "timestamp"] j
  let result ← Result.ofMembers? members
  let duration ← required? Json.nat? "durationMs" members
  let time ← required? Timestamp.ofJson? "timestamp" members
  some { result with duration, time }

def Account.members (a : Account) : List (String × Json) :=
  [("mode", .str a.mode.name), ("order", .ofStrings a.order), ("total", .ofNat a.total),
    ("succeeded", .ofNat a.succeeded), ("failed", .ofNat a.failed),
    ("skipped", .ofNat a.skipped), ("stoppedEarly", .bool a.stoppedEarly)]

def Account.toJson (a : Account) : Json := .record a.members

def Account.ofMembers? (members : List (String × Json)) : Option Account := do
  let mode ← required? (fun j => (Json.caseName? j).bind Mode.ofName?) "mode" members
  let order ← required? (Json.list? Json.string?) "order" members
  let total ← required? Json.nat? "total" members
  let succeeded ← required? Json.nat? "succeeded" members
  let failed ← required? Json.nat? "failed" members
  let skipped ← required? Json.nat? "skipped" members
  let stoppedEarly ← required? Json.bool? "stoppedEarly" members
  some { mode, order, total, succeeded, failed, skipped, stoppedEarly }

def TimedAccount.toJson (a : TimedAccount) : Json :=
  .record (a.toAccount.members ++ [("startedAt", a.startedAt.toJson),
    ("completedAt", a.completedAt.toJson), ("durationMs", .ofNat a.duration)])

def TimedAccount.fieldNames : List String :=
  ["mode", "order", "startedAt", "completedAt", "durationMs", "total", "succeeded", "failed",
    "skipped", "stoppedEarly"]

def TimedAccount.shape : Shape := .fields fieldNames

def TimedAccount.ofJson? (j : Json) : Option TimedAccount := do
  let members ← fields? fieldNames j
  let account ← Account.ofMembers? members
  let startedAt ← required? Timestamp.ofJson? "startedAt" members
  let completedAt ← required? Timestamp.ofJson? "completedAt" members
  let duration ← required? Json.nat? "durationMs" members
  some { account with startedAt, completedAt, duration }

def Report.toJson (r : Report) : Json :=
  .record [("nodes", .obj (r.nodes.map fun entry => (entry.1, entry.2.toJson))),
    ("metadata", r.account.toJson)]

def Report.shape : Shape :=
  .record [("nodes", .entries TimedResult.shape), ("metadata", TimedAccount.shape)]

def Report.ofJson? (j : Json) : Option Report := do
  let members ← fields? ["nodes", "metadata"] j
  let nodes ← required? (Json.entries? TimedResult.ofJson?) "nodes" members
  let account ← required? TimedAccount.ofJson? "metadata" members
  some { nodes, account }

end LiveDoc.Run
