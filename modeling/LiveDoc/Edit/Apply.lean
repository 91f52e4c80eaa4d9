import LiveDoc.Edit.Failure
import LiveDoc.Edit.Operation
import LiveDoc.Node.Forest
import LiveDoc.Text.Blank

/-!
# Applying edit operations

What each operation does to a forest. An operation that fails half way leaves the forest as far as
it got; a batch throws that away.
-/

set_option autoImplicit false
set_option relaxedAutoImplicit false

namespace LiveDoc.Edit

def requireId (field ident : String) : Except Failure Unit :=
  if Text.isAllBlank ident then .error (.misuse (.blankId field)) else .ok ()

/-- Demands that there are nodes to carry and that all of them have ids. -/
def requireNodes (nodes : Forest) : Except Failure Unit :=
  if nodes.isEmpty then .error (.misuse .noNodes)
  else
    match (Forest.preorder nodes).find? (Text.isAllBlank ·.id) with
    | some n => .error (.misuse (.blankCarriedId n.typeName))
    | none => .ok ()

def position (m : Markers) : Except Failure Position :=
  m.resolve.mapError fun complaint => .misuse (.markers complaint)

def target (t : Targets) : Except Failure MoveTarget :=
  t.resolve.mapError fun complaint => .misuse (.markers complaint)

/-- Checks what an operation demands of every forest. -/
def Operation.validate : Operation → Except Failure Unit
  | .setProp block name _ => do
    requireId "blockId" block
    if Text.isAllBlank name then .error (.misuse .blankName)
    else if name = "id" then .error (.misuse .idAsProp)
    else .ok ()
  | .setContent block _ | .setParameters block _ | .delete block => requireId "blockId" block
  | .rename block new => do
    requireId "blockId" block
    requireId "newId" new
  | .insert place nodes => do
    let _ ← position place
    requireNodes nodes
  | .replace block nodes => do
    requireId "blockId" block
    requireNodes nodes
  | .move targets place => do
    let _ ← target targets
    let _ ← position place
    .ok ()

/-- A failure and the forest that it leaves. -/
structure Failed where
  failure : Failure
  leftover : Forest

abbrev Outcome := Except Failed Forest

def fail {α : Type} (ns : Forest) (failure : Failure) : Except Failed α :=
  .error ⟨failure, ns⟩

/-- The changed forest; none means that a node is missing. -/
def orMissing (ns : Forest) (ident : String) (changed : Option Forest) : Outcome :=
  match changed with
  | some ns => .ok ns
  | none => fail ns (.nodeNotFound ident)

/-- The first of some ids that is among the taken ones or stands among them a second time. -/
def firstTaken? : List String → List String → Option String
  | _, [] => none
  | taken, ident :: rest =>
    if ident ∈ taken then some ident else firstTaken? (ident :: taken) rest

/-- Demands that no id of new nodes is taken in a forest or by another of them. -/
def checkFresh (ns new : Forest) : Except Failed Unit :=
  match firstTaken? (Forest.ids ns) (Forest.ids new) with
  | some ident => fail ns (.duplicateId ident)
  | none => .ok ()

def insertAt (ns : Forest) (new : Forest) : Position → Outcome
  | .start => .ok (new ++ ns)
  | .finish => .ok (ns ++ new)
  | .after anchor => orMissing ns anchor (Forest.insertAfter? anchor new ns)

def runIds (ns : Forest) (first last : String) : Except Failure (List String) :=
  match Forest.locate? first ns, Forest.locate? last ns with
  | none, _ => .error (.nodeNotFound first)
  | _, none => .error (.nodeNotFound last)
  | some from?, some to? =>
    let start := (from?.getLast?).getD 0
    let stop := (to?.getLast?).getD 0
    if from?.dropLast ≠ to?.dropLast then .error (.obstacle (.notSiblings first last))
    else if start > stop then .error (.obstacle (.comesAfter first last))
    else
      let siblings := (Forest.siblings? from?.dropLast ns).getD []
      .ok (((siblings.take (stop + 1)).drop start).map Node.id)

/-- An order in which the elements of a set are gone through. A hash set has one of its own each
time it is made, so nothing is known of it and nothing relates it to that of another set. -/
structure SetOrder where
  list : List String → List String
  perm (idents : List String) : (list idents).Perm idents

def SetOrder.written : SetOrder := ⟨id, .refl⟩

/-- Ids in document order, each once. All of them have to be there, and it is up to the order of the
set of them which of those that are missing is named. -/
def inOrder (order : SetOrder) (ns : Forest) (idents : List String) :
    Except Failure (List String) :=
  let wanted := order.list idents.eraseDups
  let found := (Forest.ids ns).filter (wanted.contains ·)
  if found.length = wanted.length then .ok found
  else .error (.nodeNotFound ((wanted.find? (!found.contains ·)).getD ""))

def movedIds (order : SetOrder) (ns : Forest) : MoveTarget → Except Failure (List String)
  | .single block => .ok [block]
  | .several blocks => inOrder order ns blocks
  | .run first last => runIds ns first last

/-- The ids in the trees of nodes to move. No such tree may lie within another. -/
def covered (ns : Forest) : List String → List String → Except Failure (List String)
  | seen, [] => .ok seen
  | seen, ident :: rest =>
    match Forest.find? ident ns with
    | none => .error (.nodeNotFound ident)
    | some n =>
      if ident ∈ seen then .error (.obstacle (.nested ident))
      else covered ns (seen ++ Forest.ids [n]) rest

/-- Demands that the nodes to move lie apart from one another and from the anchor. -/
def checkApart (ns : Forest) (idents : List String) (place : Position) : Except Failure Unit := do
  let inside ← covered ns [] idents
  match place with
  | .after anchor => if anchor ∈ inside then .error (.obstacle (.anchorMoves anchor)) else .ok ()
  | .start | .finish => .ok ()

def takeOut : List String → Forest → Except Failed (Forest × Forest)
  | [], ns => .ok ([], ns)
  | ident :: rest, ns =>
    match Forest.remove? ident ns with
    | none => fail ns (.nodeNotFound ident)
    | some (n, left) => do
      let (others, left) ← takeOut rest left
      .ok (n :: others, left)

/-- Moves nodes. One that is to stand behind itself is already in place. -/
def applyMove (order : SetOrder) (ns : Forest) (what : MoveTarget) (place : Position) : Outcome :=
  match what, place with
  | .single block, .after anchor =>
    if block = anchor then
      if Forest.has block ns then .ok ns else fail ns (.nodeNotFound block)
    else relocate
  | _, _ => relocate
where
  /-- Takes the nodes out and puts them at their place. -/
  relocate : Outcome := do
    let idents ← (movedIds order ns what).mapError (⟨·, ns⟩)
    (checkApart ns idents place).mapError (⟨·, ns⟩)
    let (moved, left) ← takeOut idents ns
    insertAt left moved place

def changeNode (ns : Forest) (ident : String) (f : Node → Except Failure Node) : Outcome :=
  match Forest.find? ident ns with
  | none => fail ns (.nodeNotFound ident)
  | some n =>
    match f n with
    | .error failure => fail ns failure
    | .ok changed => orMissing ns ident (Forest.modify? ident (fun _ => changed) ns)

def withProp (name : String) (value : Json) : Node → Except Failure Node
  | .block head children => .ok (.block { head with props := head.props.put name value } children)
  | .call c => .error (.notABlock c.id)

def withParameters (parameters : Table Json) : Node → Except Failure Node
  | .call c => .ok (.call { c with parameters })
  | .block head _ => .error (.notACall head.id)

def Operation.apply (order : SetOrder) (ns : Forest) : Operation → Outcome
  | .setProp block name value => changeNode ns block (withProp name value)
  | .setContent block content => changeNode ns block fun n => .ok (n.withContent content)
  | .setParameters block parameters => changeNode ns block (withParameters parameters)
  | .rename block new =>
    if !Forest.has block ns then fail ns (.nodeNotFound block)
    else if block = new then .ok ns
    else if Forest.has new ns then fail ns (.duplicateId new)
    else orMissing ns block (Forest.modify? block (Node.withId new) ns)
  | .insert place nodes => do
    let place ← (position place).mapError (⟨·, ns⟩)
    checkFresh ns nodes
    insertAt ns nodes place
  | .delete block => orMissing ns block (Forest.splice? block (fun _ => []) ns)
  | .replace block nodes => do
    let left ← orMissing ns block (Forest.splice? block (fun _ => []) ns)
    checkFresh left nodes
    orMissing ns block (Forest.splice? block (fun _ => nodes) ns)
  | .move targets place => do
    let what ← (target targets).mapError (⟨·, ns⟩)
    let place ← (position place).mapError (⟨·, ns⟩)
    applyMove order ns what place

end LiveDoc.Edit
