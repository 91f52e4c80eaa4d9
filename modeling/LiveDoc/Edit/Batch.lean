import LiveDoc.Document.Basic
import LiveDoc.Edit.Apply
import LiveDoc.Node.Check

/-!
# Batches of edit operations

A batch is carried out as a whole or not at all. The forest is checked before and after it, and
every operation is checked by itself before the first one is applied.
-/

set_option autoImplicit false
set_option relaxedAutoImplicit false

namespace LiveDoc.Edit

def validateFrom (index : Nat) : List Operation → Except BatchFailure Unit
  | [] => .ok ()
  | o :: rest =>
    match o.validate with
    | .error failure => .error (.operation index o.name failure)
    | .ok () => validateFrom (index + 1) rest

/-- Applies operations in turn; `index` stand before them. -/
def applyFrom (order : SetOrder) (index : Nat) (ns : Forest) :
    List Operation → Except BatchFailure Forest
  | [] => .ok ns
  | o :: rest =>
    match o.apply order ns with
    | .error failed => .error (.operation index o.name failed.failure)
    | .ok ns => applyFrom order (index + 1) ns rest

/-- The forest after a batch, or why it is refused. One order serves a whole batch: a move that
finds all its nodes does not depend on it, and another one ends the batch. -/
def applyBatch (order : SetOrder) (ns : Forest) (operations : List Operation) :
    Except BatchFailure Forest := do
  match Forest.check ns with
  | [] =>
    validateFrom 0 operations
    let changed ← applyFrom order 0 ns operations
    match Forest.check changed with
    | [] => .ok changed
    | findings => .error (.invalidResult findings)
  | findings => .error (.invalidInput findings)

/-- The document after a batch that is meant for it. -/
def applyDiff (order : SetOrder) (d : Document) (batch : Diff) : Except BatchFailure Document := do
  match batch.target with
  | some expected =>
    if expected = d.id then .ok () else .error (.targetMismatch expected d.id)
  | none => .ok ()
  let nodes ← applyBatch order d.nodes batch.operations
  .ok { d with nodes }

end LiveDoc.Edit
