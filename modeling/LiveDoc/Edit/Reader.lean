import LiveDoc.Edit.Operation
import LiveDoc.Node.Reader

/-!
# Reading edit operations

The elements of a batch as operations. What stands in an operation that takes nothing is passed
over.
-/

set_option autoImplicit false
set_option relaxedAutoImplicit false

namespace LiveDoc.Reading

open Markup (Element Item)
open Edit (Markers Targets Operation)

def markers (e : Element) : Markers :=
  ⟨e.attr? "afterBlockId", e.flag "atStart", e.flag "atEnd"⟩

/-- The ids in a list between commas, empty ones left out. -/
def idList (written : String) : List String :=
  (Text.commaParts written).filter (!·.isEmpty)

/-- The markers of what is moved among the attributes of an element. -/
def targets (e : Element) : Targets :=
  ⟨e.attr? "blockId", (e.attr? "blockIds").map idList, e.attr? "fromBlockId", e.attr? "toBlockId"⟩

variable (g : Grammar) (path : Path)

def operation (e : Element) : Read Operation := do
  checkAttributes g path e.name e.attributes
  let type ← typeOf g path e.name
  let block := e.attr "blockId"
  match e.name with
  | "edit:attr" => pure (.setProp block (e.attr "name") (.str (e.attr "value")))
  | "edit:content" => do
    let content ← rich g path e.name type [] e.items
    pure (.setContent block content)
  | "edit:params" => do
    let parameters ← jsonObject g path e
    pure (.setParameters block parameters)
  | "edit:id" => pure (.rename block (e.attr "newId"))
  | "insert" => do
    let nodes ← blocks g path e.name type 0 e.items
    pure (.insert (markers e) nodes)
  | "delete" => pure (.delete block)
  | "replace" => do
    let nodes ← blocks g path e.name type 0 e.items
    pure (.replace block nodes)
  | "move" => pure (.move (targets e) (markers e))
  | other => complain path (.notAnOperation other)

/-- The operations that items make; `index` of them are already read. -/
def operations (parent type : String) (index : Nat) :
    List (Item Element) → Read (List Operation)
  | [] => pure []
  | .text chars :: rest | .literal chars :: rest =>
    if Text.isAllBlank chars then operations parent type index rest
    else complain path (.textDirectlyInside "diff")
  | .element inner :: rest => do
    checkChild g path parent type inner.name
    let first ← operation g (path.down (.nth inner.name index)) inner
    let others ← operations parent type (index + 1) rest
    pure (first :: others)

end LiveDoc.Reading
