import LiveDoc.Node.Basic

/-!
# Edit operations

The operations of a batch. Places and targets are kept as they are written, with all their markers,
and are resolved to a single meaning only when they are used.
-/

set_option autoImplicit false
set_option relaxedAutoImplicit false

namespace LiveDoc.Edit

/-- The markers of a place, of which exactly one has to be given. -/
structure Markers where
  after : Option String
  atStart : Bool
  atEnd : Bool
deriving DecidableEq

/-- The markers of what is moved: one node, several, or a run of siblings. -/
structure Targets where
  block : Option String
  blocks : Option (List String)
  first : Option String
  last : Option String
deriving DecidableEq

inductive Operation
  | setProp (block name : String) (value : Json)
  | setContent (block : String) (content : List Inline)
  | setParameters (block : String) (parameters : Table Json)
  | rename (block new : String)
  | insert (place : Markers) (nodes : Forest)
  | delete (block : String)
  | replace (block : String) (nodes : Forest)
  | move (targets : Targets) (place : Markers)
deriving DecidableEq

inductive Position
  | after (anchor : String)
  | start
  | finish
deriving DecidableEq

inductive MoveTarget
  | single (block : String)
  | several (blocks : List String)
  | run (first last : String)
deriving DecidableEq

def Markers.none : Markers := ⟨Option.none, false, false⟩

def Markers.add (m : Markers) : Position → Markers
  | .after anchor => { m with after := some anchor }
  | .start => { m with atStart := true }
  | .finish => { m with atEnd := true }

/-- The position that markers give, or what is wrong with them. -/
def Markers.resolve (m : Markers) : Except String Position :=
  match m.after, m.atStart, m.atEnd with
  | some anchor, false, false => .ok (.after anchor)
  | Option.none, true, false => .ok .start
  | Option.none, false, true => .ok .finish
  | Option.none, false, false =>
    .error "missing position: expected one of afterBlockId, atStart, atEnd"
  | _, _, _ => .error "conflicting positions: only one of afterBlockId, atStart, atEnd may be given"

/-- The target that markers give, or what is wrong with them. -/
def Targets.resolve (t : Targets) : Except String MoveTarget :=
  match t.first, t.last with
  | some _, none | none, some _ => .error "range moves need both fromBlockId and toBlockId"
  | some first, some last =>
    match t.block, t.blocks with
    | none, none => .ok (.run first last)
    | _, _ => .error conflicting
  | none, none =>
    match t.block, t.blocks with
    | some block, none => .ok (.single block)
    | none, some [] => .error "blockIds must not be empty"
    | none, some blocks => .ok (.several blocks)
    | none, none =>
      .error "missing move target: expected blockId, blockIds, or fromBlockId/toBlockId"
    | some _, some _ => .error conflicting
where
  /-- The complaint about markers of more than one kind. -/
  conflicting : String :=
    "conflicting move targets: only one of blockId, blockIds, fromBlockId/toBlockId may be given"

namespace Operation

def name : Operation → String
  | .setProp .. => "edit:attr"
  | .setContent .. => "edit:content"
  | .setParameters .. => "edit:params"
  | .rename .. => "edit:id"
  | .insert .. => "insert"
  | .delete .. => "delete"
  | .replace .. => "replace"
  | .move .. => "move"

def insertAfter (anchor : String) (nodes : Forest) : Operation :=
  .insert (Markers.none.add (.after anchor)) nodes

def insertAtStart (nodes : Forest) : Operation := .insert (Markers.none.add .start) nodes

def insertAtEnd (nodes : Forest) : Operation := .insert (Markers.none.add .finish) nodes

def moveNode (block : String) : Operation :=
  .move ⟨some block, none, none, none⟩ .none

def moveNodes (blocks : List String) : Operation :=
  .move ⟨none, some blocks, none, none⟩ .none

/-- Moves a run of siblings, to a place that is still to be given. -/
def moveRun (first last : String) : Operation :=
  .move ⟨none, none, some first, some last⟩ .none

/-- Gives an insertion or a move its place. Markers add up, so a second place makes a conflict. -/
def placedAt (position : Position) : Operation → Operation
  | .insert place nodes => .insert (place.add position) nodes
  | .move targets place => .move targets (place.add position)
  | other => other

end Operation

end LiveDoc.Edit
