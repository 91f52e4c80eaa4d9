import LiveDoc.Edit.Apply

/-!
# Edits by paths

Operations carried out through indices: a node is located first, and then the list of siblings in
which it stands is fetched and changed by its index there. An edit that finds indices leading
nowhere breaks down.
-/

set_option autoImplicit false
set_option relaxedAutoImplicit false

namespace LiveDoc.Edit

/-- Why an edit by paths stops: the operation fails, or the edit breaks down. A path without indices
and a missing list of children on the way to a node are reported as an invalid structure; an index
out of range ends the program. -/
inductive Stop
  | failed (failure : Failure)
  | emptyPath
  | childless (ident : String)
  | outOfRange
deriving DecidableEq, Repr

def Failed.stop (f : Failed) : Stop := .failed f.failure

namespace ByPath

variable {α : Type}

def locate (ns : Forest) (ident : String) : Except Stop (List Nat) :=
  match Forest.locate? ident ns with
  | some path => .ok path
  | none => .error (.failed (.nodeNotFound ident))

/-- The indices that lead to the list of siblings of a node, and its index there. -/
def splitLast (path : List Nat) : Except Stop (List Nat × Nat) :=
  match path.getLast? with
  | some index => .ok (path.dropLast, index)
  | none => .error .emptyPath

/-- Changes the list of siblings to which indices lead, for the sake of a node with an id. -/
def changeSiblings (ident : String) (change : Forest → Except Stop (α × Forest)) :
    List Nat → Forest → Except Stop (α × Forest)
  | [], ns => change ns
  | i :: path, ns =>
    match ns[i]? with
    | some (.block head (some children)) => do
      let (result, changed) ← changeSiblings ident change path children
      .ok (result, ns.set i (.block head (some changed)))
    | _ => .error (.childless ident)

def removeIndex (index : Nat) (siblings : Forest) : Except Stop (Node × Forest) :=
  match siblings[index]? with
  | some n => .ok (n, siblings.eraseIdx index)
  | none => .error .outOfRange

def insertIndex (index : Nat) (new siblings : Forest) : Except Stop (Unit × Forest) :=
  if index ≤ siblings.length then .ok ((), siblings.take index ++ new ++ siblings.drop index)
  else .error .outOfRange

def slice (start stop : Nat) (siblings : Forest) : Except Stop Forest :=
  if start ≤ stop + 1 ∧ stop < siblings.length then .ok ((siblings.take (stop + 1)).drop start)
  else .error .outOfRange

def remove (ns : Forest) (ident : String) : Except Stop (Node × Forest) := do
  let path ← locate ns ident
  let (up, index) ← splitLast path
  changeSiblings ident (removeIndex index) up ns

def insertAt (ns new : Forest) : Position → Except Stop Forest
  | .start => .ok (new ++ ns)
  | .finish => .ok (ns ++ new)
  | .after anchor => do
    let path ← locate ns anchor
    let (up, index) ← splitLast path
    let (_, out) ← changeSiblings anchor (insertIndex (index + 1) new) up ns
    .ok out

/-- The list of siblings to which the indices of the parent of a node lead. -/
def siblingsOf (ns : Forest) (ident : String) (up : List Nat) : Except Stop Forest :=
  if up.isEmpty then .ok ns
  else
    match (Forest.at? up ns).bind Node.children? with
    | some siblings => .ok siblings
    | none => .error (.childless ident)

def runIds (ns : Forest) (first last : String) : Except Stop (List String) := do
  let firstPath ← locate ns first
  let lastPath ← locate ns last
  let (up, start) ← splitLast firstPath
  let (lastUp, stop) ← splitLast lastPath
  if up ≠ lastUp then .error (.failed (.obstacle (.notSiblings first last)))
  else if start > stop then .error (.failed (.obstacle (.comesAfter first last)))
  else
    let siblings ← siblingsOf ns first up
    let run ← slice start stop siblings
    .ok (run.map Node.id)

def movedIds (order : SetOrder) (ns : Forest) : MoveTarget → Except Stop (List String)
  | .single block => .ok [block]
  | .several blocks => (inOrder order ns blocks).mapError .failed
  | .run first last => runIds ns first last

def covered (ns : Forest) : List String → List String → Except Stop (List String)
  | seen, [] => .ok seen
  | seen, ident :: rest => do
    let path ← locate ns ident
    if ident ∈ seen then .error (.failed (.obstacle (.nested ident)))
    else covered ns (seen ++ Forest.ids (Forest.at? path ns).toList) rest

def checkApart (ns : Forest) (idents : List String) (place : Position) : Except Stop Unit := do
  let inside ← covered ns [] idents
  match place with
  | .after anchor =>
    if anchor ∈ inside then .error (.failed (.obstacle (.anchorMoves anchor))) else .ok ()
  | .start | .finish => .ok ()

def takeOut : List String → Forest → Except Stop (Forest × Forest)
  | [], ns => .ok ([], ns)
  | ident :: rest, ns => do
    let (n, left) ← remove ns ident
    let (others, left) ← takeOut rest left
    .ok (n :: others, left)

def applyMove (order : SetOrder) (ns : Forest) (what : MoveTarget) (place : Position) :
    Except Stop Forest :=
  match what, place with
  | .single block, .after anchor =>
    if block = anchor then
      if Forest.has block ns then .ok ns else .error (.failed (.nodeNotFound block))
    else relocate
  | _, _ => relocate
where
  /-- Takes the nodes out and puts them at their place. -/
  relocate : Except Stop Forest := do
    let idents ← movedIds order ns what
    checkApart ns idents place
    let (moved, left) ← takeOut idents ns
    insertAt left moved place

/-- Applies an operation to a forest. A single node is changed where it is found, without a path. -/
def apply (order : SetOrder) (ns : Forest) : Operation → Except Stop Forest
  | .insert place nodes => do
    let place ← (position place).mapError .failed
    (checkFresh ns nodes).mapError Failed.stop
    insertAt ns nodes place
  | .delete block => do
    let (_, left) ← remove ns block
    .ok left
  | .replace block nodes => do
    let path ← locate ns block
    let (up, index) ← splitLast path
    let (_, left) ← changeSiblings block (removeIndex index) up ns
    (checkFresh left nodes).mapError Failed.stop
    let (_, out) ← changeSiblings block (insertIndex index nodes) up left
    .ok out
  | .move targets place => do
    let what ← (target targets).mapError .failed
    let place ← (position place).mapError .failed
    applyMove order ns what place
  | .setProp block name value => (changeNode ns block (withProp name value)).mapError Failed.stop
  | .setContent block content =>
    (changeNode ns block fun n => .ok (n.withContent content)).mapError Failed.stop
  | .setParameters block parameters =>
    (changeNode ns block (withParameters parameters)).mapError Failed.stop
  | .rename block new => ((Operation.rename block new).apply order ns).mapError Failed.stop

end ByPath

end LiveDoc.Edit
