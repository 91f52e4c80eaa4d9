import LiveDoc.Document.JsonForm
import LiveDoc.Node.JsonForm
import LiveDoc.Run.Execution

/-!
# Scripted functions

Functions whose behaviour is given as data, so that documents can be tried out without a host. Their
memory is how often each of them has been called.
-/

set_option autoImplicit false
set_option relaxedAutoImplicit false

namespace LiveDoc.Run

inductive Script
  | constant (value : Json)
  | echo
  | parameters
  | both
  | countPrevious
  | countCalls
  | previous
  | previousValue (id : String)
  | context
  | fail (causes : List String)
  | failAtFirst (times : Nat)
  | crash
  | never
  | sleep (time : Nat)
  | closure
  | unknown
deriving DecidableEq

/-- How often each function has been called. -/
abbrev CallCounts := Table Nat

namespace Script

def countCall (function : String) (counts : CallCounts) : Nat :=
  (counts.get? function).getD 0 + 1

/-- A list as its items stand by their text, and any other value as it is. -/
def inOrder : Json → Json
  | .arr items => .arr (items.mergeSort fun a b => decide (a.plainText ≤ b.plainText))
  | j => j

def resultJson (r : Result) : Json :=
  Result.toJson { r with error := r.error.map fun e => { e with details := e.details.map inOrder } }

def contextJson (c : Context) : Json :=
  .record [("current", .str c.current), ("document", .str c.document.id),
    ("ids", .ofStrings c.document.nodes.ids),
    ("metadata", (c.document.metadata.map Json.obj).getD .null)]

def reply (number : Nat) (i : Invocation) : Script → Reply
  | .constant value => now (.value value)
  | .echo => now (.value (.str i.content))
  | .parameters => now (.value (.obj i.parameters))
  | .both =>
    now (.value (.record [("params", .obj i.parameters), ("content", .str i.content)]))
  | .countPrevious => now (.value (.ofNat i.context.previous.length))
  | .countCalls => now (.value (.ofNat number))
  | .previous =>
    now (.value (.obj (i.context.previous.map fun entry => (entry.1, resultJson entry.2.toResult))))
  | .previousValue id =>
    now (.value (.record [("value", (i.context.previousValue? id).getD .null)]))
  | .context => now (.value (contextJson i.context))
  | .fail causes => now (.failed causes)
  | .failAtFirst times =>
    if number ≤ times then now (.failed ["attempt " ++ toString number ++ " failed"])
    else now (.value (.ofNat number))
  | .crash => now .crashed
  | .never => .never
  | .sleep time => .finished time (.value (.str "slept"))
  | .closure => now (.value (.ofStrings ["closure", i.content]))
  | .unknown => now (.failed ["unknown impl"])
where
  now (ending : Ending) : Reply := .finished 0 ending

def clock (counts : CallCounts) : Reading × CallCounts := (⟨0, ⟨0, 0, 0⟩⟩, counts)

def function (name : String) (script : Script) (schema : ParameterSchema)
    (description : Option String) : HostFunction CallCounts where
  schema := schema
  description := description
  answer i counts :=
    let number := countCall name counts
    (script.reply number i, counts.put name number)

end Script

end LiveDoc.Run
