import LiveDoc.Inline.Basic

/-!
# Nodes

The tree of a document. A block has inline content and may have a list of children; a call names a
function with parameters and instructions for it. A forest is a list of nodes with all below them.
-/

set_option autoImplicit false
set_option relaxedAutoImplicit false

namespace LiveDoc

/-- What a block holds itself, its children apart. -/
structure Block where
  id : String
  kind : String
  props : Table Json
  content : List Inline
deriving DecidableEq

inductive CallKind
  | invocation | trigger
deriving DecidableEq

def CallKind.typeName : CallKind → String
  | .invocation => "function_call"
  | .trigger => "trigger"

structure Call where
  id : String
  kind : CallKind
  function : String
  parameters : Table Json
  instructions : List Inline
  enabled : Bool
  extra : Table Json
deriving DecidableEq

/-- A node of a document. A block without a child list is not the same as one with an empty list. -/
inductive Node where
  | block (head : Block) (children : Option (List Node))
  | call (c : Call)

/-- A list of nodes with all below them. -/
abbrev Forest := List Node

namespace Node

mutual

def decEq : (a b : Node) → Decidable (a = b)
  | .block h none, b =>
    match b with
    | .block h' none => decidable_of_iff (h = h') (by simp)
    | .block _ (some _) | .call _ => isFalse (by simp)
  | .block h (some xs), b =>
    match b with
    | .block h' (some ys) =>
      have := decEqAll xs ys
      decidable_of_iff (h = h' ∧ xs = ys) (by simp)
    | .block _ none | .call _ => isFalse (by simp)
  | .call c, b =>
    match b with
    | .call d => decidable_of_iff (c = d) (by simp)
    | .block .. => isFalse nofun
termination_by structural a => a

def decEqAll : (xs ys : List Node) → Decidable (xs = ys)
  | [], [] => isTrue rfl
  | [], _ :: _ => isFalse nofun
  | _ :: _, [] => isFalse nofun
  | x :: xs, y :: ys =>
    have := x.decEq y
    have := decEqAll xs ys
    decidable_of_iff (x = y ∧ xs = ys) (by simp)
termination_by structural xs => xs

end

instance : DecidableEq Node := decEq

def id : Node → String
  | .block head _ => head.id
  | .call c => c.id

def withId (new : String) : Node → Node
  | .block head children => .block { head with id := new } children
  | .call c => .call { c with id := new }

def typeName : Node → String
  | .block head _ => head.kind
  | .call c => c.kind.typeName

/-- The content of a block, the instructions of a call. -/
def content : Node → List Inline
  | .block head _ => head.content
  | .call c => c.instructions

def withContent (new : List Inline) : Node → Node
  | .block head children => .block { head with content := new } children
  | .call c => .call { c with instructions := new }

def children? : Node → Option Forest
  | .block _ children => children
  | .call _ => none

def call? : Node → Option Call
  | .call c => some c
  | .block .. => none

def block? : Node → Option Block
  | .block head _ => some head
  | .call _ => none

def paragraph (ident chars : String) : Node :=
  .block ⟨ident, "paragraph", [], [.plain chars]⟩ none

def invoke (ident : String) (kind : CallKind) (function : String) : Call :=
  ⟨ident, kind, function, [], [], true, []⟩

end Node

end LiveDoc
