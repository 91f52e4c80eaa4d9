import LiveDoc.Document.Basic
import LiveDoc.Json.Printer
import LiveDoc.Json.Schema
import LiveDoc.Run.Result

/-!
# Functions

What calls are answered by: functions of the host, each with demands on its parameters. A function
may remember things between calls; its memory is a state that every call takes and gives back.
-/

set_option autoImplicit false
set_option relaxedAutoImplicit false

namespace LiveDoc.Run

/-- Demands on the parameters of a function: as written, and the check that they come to, which
tells what is wrong. -/
structure ParameterSchema where
  written : Json
  check : Table Json → Except (List String) Unit

namespace ParameterSchema

def any : ParameterSchema := ⟨.bool true, fun _ => .ok ()⟩

def ofJson? (j : Json) : Option ParameterSchema := do
  let demands ← Json.Schema.ofJson? j
  some ⟨j, fun parameters =>
    match demands.check (.obj parameters) with
    | [] => .ok ()
    | violations => .error violations⟩

end ParameterSchema

/-- What a function is told about the run that it is part of: the id of the call, the results
before it, and the document. -/
structure Context where
  current : String
  previous : Table TimedResult
  document : Document
deriving DecidableEq

def Context.previousValue? (c : Context) (id : String) : Option Json :=
  (c.previous.get? id).bind (·.value)

/-- What a function is called with: the content is the text of the instructions. -/
structure Invocation where
  parameters : Table Json
  content : String
  context : Context
deriving DecidableEq

/-- How the work of a function ends. Of a failure all causes are told, the first one first. -/
inductive Ending
  | value (value : Json)
  | failed (causes : List String)
  | crashed
deriving DecidableEq

/-- The answer of a function: how its work ends after how many milliseconds, if it ever does. -/
inductive Reply
  | finished (after : Nat) (ending : Ending)
  | never
deriving DecidableEq

/-- A function of the host over a state of memory. -/
structure HostFunction (σ : Type) where
  schema : ParameterSchema
  description : Option String
  answer : Invocation → σ → Reply × σ

end LiveDoc.Run
