import LiveDoc.Edit.Operation

/-!
# Documents

What a source can hold: a document of nodes, a document that describes an agent, or a batch of edit
operations for some other document.
-/

set_option autoImplicit false
set_option relaxedAutoImplicit false

namespace LiveDoc

/-- A document. No metadata is not the same as an empty table of them. -/
structure Document where
  id : String
  nodes : Forest
  metadata : Option (Table Json)
deriving DecidableEq

/-- A document with the identity of an agent. -/
structure Agent where
  document : Document
  name : Option String
  description : Option String
  model : Option String
deriving DecidableEq

/-- Edit operations, in order, and the id of the document they are meant for. -/
structure Diff where
  target : Option String
  operations : List Edit.Operation
deriving DecidableEq

inductive Source
  | document (d : Document)
  | agent (a : Agent)
  | diff (d : Diff)
deriving DecidableEq

namespace Source

/-- The document of nodes that a source holds, if it is not a batch of operations. -/
def document? : Source → Option Document
  | .document d => some d
  | .agent a => some a.document
  | .diff _ => none

def diff? : Source → Option Diff
  | .diff d => some d
  | .document _ | .agent _ => none

/-- The nodes of a source; a batch of operations has none. -/
def nodes (s : Source) : Forest :=
  (s.document?.map Document.nodes).getD []

end Source

end LiveDoc
