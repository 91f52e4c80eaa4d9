import LiveDoc.IdSupply
import LiveDoc.Inline.Reader
import LiveDoc.Json.Reader
import LiveDoc.Node.Basic

/-!
# Reading nodes

Block elements and calls as nodes. A node without an id takes the next one of a supply, before the
nodes inside it do. Between block elements only blanks may stand.
-/

set_option autoImplicit false
set_option relaxedAutoImplicit false

namespace LiveDoc.Reading

open Markup (Element Item)

/-- Reading that may take ids out of a supply, until the first fault. -/
abbrev Read := StateT IdSupply (Except Fault)

def freshId : Read String :=
  fun supply => .ok supply.next

def nodeId (e : Element) : Read String :=
  match e.attr? "id" with
  | some ident => pure ident
  | none => freshId

/-- The attributes other than some as a table of texts. -/
def textTable (besides : List String) (attributes : List (String × String)) : Table Json :=
  Table.ofList ((attributes.filter (!besides.contains ·.1)).map fun a => (a.1, .str a.2))

/-- The level of a heading, which its element names. -/
def headingLevel (name : String) : Nat :=
  let elements := ["h1", "h2", "h3", "h4", "h5", "h6"]
  if elements.contains name then elements.idxOf name + 1 else 1

def blockProps (name type : String) (attributes : List (String × String)) : Table Json :=
  let props := textTable ["id"] attributes
  if type = "heading" then props.put "level" (.ofNat (headingLevel name)) else props

/-- The piece of text that an element of plain text holds, if it holds any. -/
def plainContent (chars : String) : List Inline :=
  if chars.isEmpty then [] else [.plain chars]

variable (g : Grammar) (path : Path)

/-- The JSON object that the text of an element spells; blank text stands for the empty one. -/
def jsonObject (e : Element) : Except Fault (Table Json) := do
  checkAttributes g path e.name e.attributes
  match e.firstChild? with
  | some child => refuseChild path e.name child.name
  | none =>
    let written := Text.trim e.text
    if written.isEmpty then .ok []
    else
      match Json.read? written with
      | some (.obj members) => .ok members
      | some _ => .error (.at path (.invalidJson .notAnObject))
      | none => .error (.at path (.invalidJson .notJson))

structure CallParts where
  parameters : Option (Table Json)
  instructions : Option (List Inline)

/-- Reads what stands in a call: parameters and instructions, each once and in any order. -/
def callParts (name type : String) :
    CallParts → List (Item Element) → Except Fault CallParts
  | parts, [] => .ok parts
  | parts, .text chars :: rest | parts, .literal chars :: rest =>
    if Text.isAllBlank chars then callParts name type parts rest
    else complain path (.textOutsideContent name)
  | parts, .element inner :: rest => do
    checkChild g path name type inner.name
    let place := path.down (.only inner.name)
    if inner.name = "params" ∧ parts.parameters.isNone then
      let parameters ← jsonObject g place inner
      callParts name type { parts with parameters := some parameters } rest
    else if inner.name = "content" ∧ parts.instructions.isNone then
      let innerType ← typeOf g place inner.name
      let instructions ← rich g place inner.name innerType [] inner.items
      callParts name type { parts with instructions := some instructions } rest
    else complain path (.duplicate inner.name name)

def callKind (name : String) : CallKind :=
  if name = "trigger" then .trigger else .invocation

def functionAttribute : CallKind → String
  | .invocation => "idyll-fn"
  | .trigger => "idyll-trigger"

def call (e : Element) : Read Call := do
  let kind := callKind e.name
  let type ← typeOf g path e.name
  let ident ← nodeId e
  let parts ← callParts g path e.name type ⟨none, none⟩ e.items
  pure
    { id := ident
      kind
      function := e.attr (functionAttribute kind)
      parameters := parts.parameters.getD []
      instructions := parts.instructions.getD []
      enabled := e.attr? "enabled" ≠ some "false"
      extra := textTable ["id", "enabled", functionAttribute kind] e.attributes }

mutual

def node (g : Grammar) (path : Path) : Element → Read Node
  | ⟨name, attributes, items⟩ => do
    let e : Element := ⟨name, attributes, items⟩
    checkAttributes g path name attributes
    match (g.spec? name).map ElementSpec.kind with
    | some .executable => do
      let c ← call g path e
      pure (.call c)
    | some .block => do
      let type ← typeOf g path name
      let ident ← nodeId e
      let head (content : List Inline) : Block :=
        ⟨ident, type, blockProps name type attributes, content⟩
      match (g.model? name).getD .none with
      | .rich => do
        let (content, children) ← mixed g path name type 0 items
        pure (.block (head content) (if children.isEmpty then none else some children))
      | .text =>
        match e.firstChild? with
        | some child => refuseChild path name child.name
        | none => pure (.block (head (plainContent e.text)) none)
      | .json | .none =>
        if g.hasChildrenRule name then do
          let children ← blocks g path name type 0 items
          pure (.block (head []) (some children))
        else do
          checkEmpty path e
          pure (.block (head []) none)
    | _ => complain path (.notABlock name)
termination_by structural e => e

/-- The nodes that items make in an element of blocks only; `index` of them are already read. -/
def blocks (g : Grammar) (path : Path) (parent type : String) (index : Nat) :
    List (Item Element) → Read Forest
  | [] => pure []
  | .text chars :: rest =>
    if Text.isAllBlank chars then blocks g path parent type index rest
    else complain path (.textDirectlyInside parent)
  | .literal chars :: rest =>
    if Text.isAllBlank chars then blocks g path parent type index rest
    else complain path (.textDirectlyInside parent)
  | .element inner :: rest => do
    checkChild g path parent type inner.name
    let first ← node g (path.down (.nth inner.name index)) inner
    let others ← blocks g path parent type (index + 1) rest
    pure (first :: others)
termination_by structural items => items

/-- The content and the nodes that items make in an element that may hold both; `index` nodes are
already read. -/
def mixed (g : Grammar) (path : Path) (parent type : String) (index : Nat) :
    List (Item Element) → Read (List Inline × Forest)
  | [] => pure ([], [])
  | .text chars :: rest => do
    let (content, children) ← mixed g path parent type index rest
    pure (Inline.glue (.plain chars) content, children)
  | .literal chars :: rest => do
    let (content, children) ← mixed g path parent type index rest
    pure (Inline.glue (.plain chars) content, children)
  | .element inner :: rest => do
    checkChild g path parent type inner.name
    if g.isInline inner.name then do
      let found ← inline g path [] inner
      let (content, children) ← mixed g path parent type index rest
      pure (Inline.glueAll found content, children)
    else do
      let first ← node g (path.down (.nth inner.name index)) inner
      let (content, children) ← mixed g path parent type (index + 1) rest
      pure (content, first :: children)
termination_by structural items => items

end

end LiveDoc.Reading
