import LiveDoc.Document.Reader

/-!
# Readers for many sources

A reader is kept from one source to the next. It remembers the way to the place where it is, which
it lengthens and shortens as it goes down and comes back, and a supply of ids; a fault leaves it as
it is at that moment.
-/

set_option autoImplicit false
set_option relaxedAutoImplicit false

namespace LiveDoc.Session

open Markup (Element Item)
open Edit (Operation)
open Reading (CallParts callKind functionAttribute checkAttributes checkChild checkEmpty complain
  typeOf)

/-- A reader: the steps to the place where it is, the root first, and the ids that it can give. -/
structure Reader where
  path : List Path.Step
  supply : IdSupply

/-- What is done by a reader. It ends with a value or a fault, and leaves the reader behind either
way. -/
abbrev Work := ExceptT Fault (StateM Reader)

namespace Reader

def new : Reader := ⟨[], .ofSeed "node" []⟩

def place (r : Reader) : Path :=
  match r.path with
  | root :: steps => ⟨root.text, steps⟩
  | [] => ⟨"", []⟩

end Reader

section Steps

variable {α : Type}

/-- What can be said at the place of the reader without going anywhere. -/
def here (say : Path → Except Fault α) : Work α := do
  let r ← get
  liftM (say r.place)

/-- Does something one step further down and comes back, with or without a fault. -/
def within (step : Path.Step) (work : Work α) : Work α := .mk do
  modify fun r => { r with path := r.path ++ [step] }
  let outcome ← work.run
  modify fun r => { r with path := r.path.dropLast }
  pure outcome

def freshId : Work String :=
  modifyGet fun r => (r.supply.next.1, { r with supply := r.supply.next.2 })

end Steps

def nodeId (e : Element) : Work String :=
  match e.attr? "id" with
  | some ident => pure ident
  | none => freshId

variable (g : Grammar)

def callParts (name type : String) : CallParts → List (Item Element) → Work CallParts
  | parts, [] => pure parts
  | parts, .text chars :: rest | parts, .literal chars :: rest =>
    if Text.isAllBlank chars then callParts name type parts rest
    else here (complain · (.textOutsideContent name))
  | parts, .element inner :: rest => do
    here (checkChild g · name type inner.name)
    if inner.name = "params" ∧ parts.parameters.isNone then
      let parameters ← within (.only inner.name) (here (Reading.jsonObject g · inner))
      callParts name type { parts with parameters := some parameters } rest
    else if inner.name = "content" ∧ parts.instructions.isNone then
      let instructions ← within (.only inner.name) do
        let innerType ← here (typeOf g · inner.name)
        here (Reading.rich g · inner.name innerType [] inner.items)
      callParts name type { parts with instructions := some instructions } rest
    else here (complain · (.duplicate inner.name name))

def call (e : Element) : Work Call := do
  let kind := callKind e.name
  let type ← here (typeOf g · e.name)
  let ident ← nodeId e
  let parts ← callParts g e.name type ⟨none, none⟩ e.items
  pure
    { id := ident
      kind
      function := e.attr (functionAttribute kind)
      parameters := parts.parameters.getD []
      instructions := parts.instructions.getD []
      enabled := e.attr? "enabled" ≠ some "false"
      extra := Reading.textTable ["id", "enabled", functionAttribute kind] e.attributes }

mutual

def node (g : Grammar) : Element → Work Node
  | ⟨name, attributes, items⟩ => do
    let e : Element := ⟨name, attributes, items⟩
    here (checkAttributes g · name attributes)
    match (g.spec? name).map ElementSpec.kind with
    | some .executable => do
      let c ← call g e
      pure (.call c)
    | some .block => do
      let type ← here (typeOf g · name)
      let ident ← nodeId e
      let head (content : List Inline) : Block :=
        ⟨ident, type, Reading.blockProps name type attributes, content⟩
      match (g.model? name).getD .none with
      | .rich => do
        let (content, children) ← mixed g name type 0 items
        pure (.block (head content) (if children.isEmpty then none else some children))
      | .text =>
        match e.firstChild? with
        | some child => here (Reading.refuseChild · name child.name)
        | none => pure (.block (head (Reading.plainContent e.text)) none)
      | .json | .none =>
        if g.hasChildrenRule name then do
          let children ← blocks g name type 0 items
          pure (.block (head []) (some children))
        else do
          here (checkEmpty · e)
          pure (.block (head []) none)
    | _ => here (complain · (.notABlock name))
termination_by structural e => e

/-- The nodes that items make in an element of blocks only; `index` of them are already read. -/
def blocks (g : Grammar) (parent type : String) (index : Nat) : List (Item Element) → Work Forest
  | [] => pure []
  | .text chars :: rest =>
    if Text.isAllBlank chars then blocks g parent type index rest
    else here (complain · (.textDirectlyInside parent))
  | .literal chars :: rest =>
    if Text.isAllBlank chars then blocks g parent type index rest
    else here (complain · (.textDirectlyInside parent))
  | .element inner :: rest => do
    here (checkChild g · parent type inner.name)
    let first ← within (.nth inner.name index) (node g inner)
    let others ← blocks g parent type (index + 1) rest
    pure (first :: others)
termination_by structural items => items

/-- The content and the nodes that items make in an element that may hold both; `index` nodes are
already read. -/
def mixed (g : Grammar) (parent type : String) (index : Nat) :
    List (Item Element) → Work (List Inline × Forest)
  | [] => pure ([], [])
  | .text chars :: rest => do
    let (content, children) ← mixed g parent type index rest
    pure (Inline.glue (.plain chars) content, children)
  | .literal chars :: rest => do
    let (content, children) ← mixed g parent type index rest
    pure (Inline.glue (.plain chars) content, children)
  | .element inner :: rest => do
    here (checkChild g · parent type inner.name)
    if g.isInline inner.name then do
      let found ← here (Reading.inline g · [] inner)
      let (content, children) ← mixed g parent type index rest
      pure (Inline.glueAll found content, children)
    else do
      let first ← within (.nth inner.name index) (node g inner)
      let (content, children) ← mixed g parent type (index + 1) rest
      pure (content, first :: children)
termination_by structural items => items

end

def operation (e : Element) : Work Operation := do
  here (checkAttributes g · e.name e.attributes)
  let type ← here (typeOf g · e.name)
  let block := e.attr "blockId"
  match e.name with
  | "edit:attr" => pure (.setProp block (e.attr "name") (.str (e.attr "value")))
  | "edit:content" => do
    let content ← here (Reading.rich g · e.name type [] e.items)
    pure (.setContent block content)
  | "edit:params" => do
    let parameters ← here (Reading.jsonObject g · e)
    pure (.setParameters block parameters)
  | "edit:id" => pure (.rename block (e.attr "newId"))
  | "insert" => do
    let nodes ← blocks g e.name type 0 e.items
    pure (.insert (Reading.markers e) nodes)
  | "delete" => pure (.delete block)
  | "replace" => do
    let nodes ← blocks g e.name type 0 e.items
    pure (.replace block nodes)
  | "move" => pure (.move (Reading.targets e) (Reading.markers e))
  | other => here (complain · (.notAnOperation other))

def operations (parent type : String) (index : Nat) :
    List (Item Element) → Work (List Operation)
  | [] => pure []
  | .text chars :: rest | .literal chars :: rest =>
    if Text.isAllBlank chars then operations parent type index rest
    else here (complain · (.textDirectlyInside "diff"))
  | .element inner :: rest => do
    here (checkChild g · parent type inner.name)
    let first ← within (.nth inner.name index) (operation g inner)
    let others ← operations parent type (index + 1) rest
    pure (first :: others)

def document (root : Element) (ident : String) (besides : List String) : Work Document := do
  here (checkAttributes g · root.name root.attributes)
  let type ← here (typeOf g · root.name)
  let nodes ← blocks g root.name type 0 root.items
  let metadata := Reading.textTable besides root.attributes
  pure { id := ident, nodes, metadata := if metadata.isEmpty then none else some metadata }

def diff (root : Element) : Work Diff := do
  here (checkAttributes g · root.name root.attributes)
  let type ← here (typeOf g · root.name)
  let operations ← operations g root.name type 0 root.items
  pure { target := root.attr? "target", operations }

def source (root : Element) (ident : String) : Work Source :=
  match root.name with
  | "document" => do
    let d ← document g root ident ["id"]
    pure (.document d)
  | "agent" => do
    let d ← document g root ident ["id", "name", "description", "model"]
    pure (.agent
      { document := d
        name := root.attr? "name"
        description := root.attr? "description"
        model := root.attr? "model" })
  | "diff" => do
    let d ← diff g root
    pure (.diff d)
  | other => here (complain · (.unexpectedRoot other))

/-- What a text holds. The reader begins at the root, with a new supply of ids. -/
def read (text : String) : Work Source :=
  match Element.ofText text with
  | .error fault => throw (.markup fault)
  | .ok root => do
    let ident := (root.attr? "id").getD (documentId text)
    set (⟨[.only root.name], .ofSeed ident root.ids⟩ : Reader)
    source g root ident

namespace Reader

/-- What a reader finds in a text, and the reader behind it. -/
def take (r : Reader) (text : String) : Except Fault Source × Reader :=
  (read g text).run.run r

def takeAll (r : Reader) : List String → List (Except Fault Source)
  | [] => []
  | text :: rest =>
    let (found, after) := r.take g text
    found :: after.takeAll rest

end Reader

end LiveDoc.Session
