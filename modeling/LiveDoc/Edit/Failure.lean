import LiveDoc.Finding

/-!
# Failures of edit operations

Why an operation, or a batch of them, is not carried out.
-/

set_option autoImplicit false
set_option relaxedAutoImplicit false

namespace LiveDoc.Edit

/-- What makes an operation meaningless on every forest. -/
inductive Misuse
  | blankId (field : String)
  | blankName
  | idAsProp
  | noNodes
  | blankCarriedId (type : String)
  | markers (complaint : String)
deriving DecidableEq, Repr

def Misuse.message : Misuse → String
  | .blankId field => field ++ " must not be empty"
  | .blankName => "attribute name must not be empty"
  | .idAsProp => "node ids are changed with edit:id, not edit:attr"
  | .noNodes => "operation carries no nodes"
  | .blankCarriedId type => "carried " ++ type ++ " node has an empty id"
  | .markers complaint => complaint

/-- What forbids a move in the forest as it is. -/
inductive Obstacle
  | notSiblings (first last : String)
  | comesAfter (first last : String)
  | nested (block : String)
  | anchorMoves (anchor : String)
deriving DecidableEq, Repr

def Obstacle.message : Obstacle → String
  | .notSiblings first last => first ++ " and " ++ last ++ " are not siblings"
  | .comesAfter first last => first ++ " comes after " ++ last
  | .nested block => block ++ " is nested inside another moved node"
  | .anchorMoves anchor => "cannot move nodes after " ++ anchor ++ ", which is being moved"

/-- Why an operation is not carried out. -/
inductive Failure
  | nodeNotFound (ident : String)
  | duplicateId (ident : String)
  | notACall (ident : String)
  | notABlock (ident : String)
  | obstacle (obstacle : Obstacle)
  | misuse (misuse : Misuse)
deriving DecidableEq, Repr

def Failure.message : Failure → String
  | .nodeNotFound ident => "Node not found: " ++ ident
  | .duplicateId ident => "Node id already in use: " ++ ident
  | .notACall ident => "Node is not executable: " ++ ident
  | .notABlock ident => "Node is not a content node: " ++ ident
  | .obstacle o => "Invalid structure: " ++ o.message
  | .misuse m => "Invalid operation: " ++ m.message

inductive BatchFailure
  | invalidInput (findings : List Finding)
  | operation (index : Nat) (name : String) (failure : Failure)
  | invalidResult (findings : List Finding)
  | targetMismatch (expected found : String)
deriving DecidableEq, Repr

def BatchFailure.message : BatchFailure → String
  | .invalidInput findings => "Input tree is invalid: " ++ Finding.texts findings
  | .operation index name failure =>
    "Operation " ++ toString index ++ " (" ++ name ++ ") failed: " ++ failure.message
  | .invalidResult findings => "Resulting tree is invalid: " ++ Finding.texts findings
  | .targetMismatch expected found =>
    "Diff targets document '" ++ expected ++ "' but was applied to '" ++ found ++ "'"

end LiveDoc.Edit
